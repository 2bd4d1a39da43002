import TaxlienGateway.Legacy.UpstreamBound

/-!
# What the usage meter reports

`GET /v1/usage` shows a caller how much of its daily limits it has used, and reads it from the counters
that `enforce_tier` keeps. But the two build the key from identities with different defaults: the one
counts a guest by its address, the other looks for a user called "anonymous". And a counter moves before
the limit decides, so that it counts refused requests too.

* `read_eq_counted` — the meter shows the counter of the identity it reads under;
* `admits_iff` — a counted request is admitted if it is within its limit and sees its answers;
* `served_iff_of_user` — so an authenticated caller reads what was served to it while it keeps within its
  limit;
* `usage_reports_served` — and so does a caller whose other identity has the same count;
* `guest_usage_unseen` — but a guest does not see its requests.
-/

namespace TaxlienGateway

open Framework

namespace Legacy

/-! ### What was served -/

/-- The `EXPIRE` of the request at index `i` is answered. -/
def expires (i : ℕ) : List ApiEvent → Bool
  | [] => false
  | (_, .start j _) :: es => j != i && expires i es
  | (_, .cmd j _ (.expire _ _) o) :: es => j == i && o.seen.isOk || expires i es
  | _ :: es => expires i es

/-- `enforce_tier` admits a request of the tally, by the command of `e` and what comes `later`: by the
answer to its `INCR`, and to its `EXPIRE` if it has created the counter. A request in a tier without a
limit is admitted as soon as the rate limiter lets it through. -/
def admits (q : Tally) (e : ApiEvent) (later : List ApiEvent) : Bool :=
  match e with
  | (_, .cmd i request (.incr _) o) =>
    request.usage?.any fun u => u.tally == q &&
      match o.seen with
      | .ok (.ok n) => decide (n ≤ u.limit) && (n != 1 || expires i later)
      | _ => false
  | (_, .cmd _ request (.tokenBucket ..) o) =>
    request.usage?.any fun u => u.tally == q && u.limit == -1 &&
      match o.seen with
      | .ok (.ok (allowed, _)) => allowed
      | _ => false
  | _ => false

/-- How many requests of the tally have been admitted. -/
def admittedCount (q : Tally) : List ApiEvent → ℕ
  | [] => 0
  | e :: es => (admits q e es).toNat + admittedCount q es

/-- How many of the caller's requests of the day have been admitted on a feature. -/
def ApiRequest.served (request : ApiRequest) (feature : String) (es : List ApiEvent) : ℕ :=
  (request.caller?.map fun caller => admittedCount ⟨caller, feature, request.today⟩ es).getD 0

/-! ### What is reported -/

/-- The features that `get_user_usage` lists. -/
def trackedFeatures : List String := ["daily_search", "daily_details"]

/-- The tally that `get_usage` reads for a feature. -/
def ApiRequest.readTally (request : ApiRequest) (feature : String) : Tally :=
  ⟨request.xUserId, feature, request.today⟩

/-- The number that the body of `get_usage` shows for a feature. -/
def shown? (feature : String) : Json → Option ℤ
  | .obj members =>
    match members.lookup "usage" with
    | some (.obj usage_stats) =>
      match usage_stats.lookup feature with
      | some (.num n) => n.toInt?
      | _ => none
    | _ => none
  | _ => none

/-- Every answer of `GET /v1/usage` shows, for each feature, how many of the caller's requests had been
admitted on it when the request read the counter. -/
def ReportsServed (es : List ApiEvent) : Prop :=
  ∀ pre t i request body remaining post,
    es = pre ++ (t, .finish i request ⟨.json 200 body, remaining⟩) :: post →
    request.route = .get_usage → ∀ feature ∈ trackedFeatures, ∃ pre₁ t' o pre₂,
      pre = pre₁ ++ (t', .cmd i request (.get (request.readTally feature).key) o) :: pre₂ ∧
      (∀ t'' request', (t'', Event.start i request') ∉ pre₂) ∧
      shown? feature body = some (request.served feature pre₁ : ℤ)

/-! ### When it is so -/

/-- All requests are made on one day. -/
def WithinDay (today : Date) (es : List ApiEvent) : Prop :=
  ∀ e ∈ es, dayOf e.1 = today.epochDay ∧ e.2.call.today = today

/-- The tiers of all callers have positive limits. -/
def PositiveLimits (es : List ApiEvent) : Prop :=
  ∀ e ∈ es, ∀ feature ∈ trackedFeatures, 0 < limitFor e.2.call.tier feature

/-- Every request that is counted for the tally is within the limit of its tier, and sees the answers that
decide about it: the one to its `INCR`, and the one to its `EXPIRE` if it has created the counter. -/
def WithinLimit (q : Tally) (es : List ApiEvent) : Prop :=
  ∀ pre t i request key o post, es = pre ++ (t, .cmd i request (.incr key) o) :: post →
    counts ApiRequest.usage? q ((t, .cmd i request (.incr key) o) : ApiEvent) = true →
    ((counted ApiRequest.usage? q pre + 1 : ℕ) : ℤ) ≤ limitFor request.tier q.feature ∧
      o.seen.isOk = true ∧ (counted ApiRequest.usage? q pre = 0 → expires i post = true)

/-- Every request that has been counted for the tally has been admitted. -/
def AllAdmitted (q : Tally) (es : List ApiEvent) : Prop :=
  ∀ pre e post, es = pre ++ e :: post → counts ApiRequest.usage? q e = true → admits q e post = true

/-- How many of the caller's requests of the day have been counted for a feature. -/
def ApiRequest.countedFor (request : ApiRequest) (feature : String) (es : List ApiEvent) : ℕ :=
  (request.caller?.map fun caller =>
    counted ApiRequest.usage? ⟨caller, feature, request.today⟩ es).getD 0

/-- What the request reads for a feature after the history `es` is what was served. -/
structure ReadsServed (request : ApiRequest) (feature : String) (es : List ApiEvent) : Prop where
  /-- The identity it reads under has as many counted requests as the caller. -/
  identity : counted ApiRequest.usage? (request.readTally feature) es = request.countedFor feature es
  limit : ∀ caller ∈ request.caller?, WithinLimit ⟨caller, feature, request.today⟩ es

/-- An authenticated caller reads under its own identity. -/
theorem identity_of_user {request : ApiRequest} {user_id : String}
    (h : truthy request.user_id = some user_id) (feature : String) (es : List ApiEvent) :
    counted ApiRequest.usage? (request.readTally feature) es = request.countedFor feature es := by
  unfold ApiRequest.readTally ApiRequest.countedFor ApiRequest.caller? ApiRequest.xUserId
  rw [h]
  rfl

/-! ### Admitted and counted -/

theorem tier_of_usage? {request : ApiRequest} {u : UsageCall} (h : request.usage? = some u) :
    u.tier = request.tier := by
  obtain ⟨feature, -, hu⟩ := Option.bind_eq_some_iff.mp h
  obtain ⟨caller, -, rfl⟩ := Option.map_eq_some_iff.mp hu
  rfl

section

variable {q : Tally} {es : List ApiEvent}

/-- Where the limits are positive, only counted requests are admitted. -/
theorem counts_of_admits {e : ApiEvent} {later : List ApiEvent}
    (hpos : 0 < limitFor e.2.call.tier q.feature) (h : admits q e later = true) :
    counts ApiRequest.usage? q e = true := by
  obtain ⟨t, e⟩ := e
  cases e with
  | cmd i request c o =>
    cases c with
    | incr key =>
      obtain ⟨u, hu, hadmits⟩ := (Option.any_eq_true _ _).mp h
      obtain ⟨htally, hseen⟩ := Bool.and_eq_true_iff.mp hadmits
      -- the answer has been seen, so the command was executed
      cases o with
      | ok r =>
        rw [counts_incr (Outcome.effect_ok r) hu]
        exact decide_eq_true (eq_of_beq htally)
      | lost r e => exact absurd hseen Bool.false_ne_true
      | failed e => exact absurd hseen Bool.false_ne_true
    | tokenBucket key clock rate burst requested =>
      obtain ⟨u, hu, hadmits⟩ := (Option.any_eq_true _ _).mp h
      obtain ⟨hunlimited, -⟩ := Bool.and_eq_true_iff.mp hadmits
      obtain ⟨htally, hlimit⟩ := Bool.and_eq_true_iff.mp hunlimited
      obtain rfl := eq_of_beq htally
      have hlimit : limitFor u.tier u.tally.feature = -1 := eq_of_beq hlimit
      rw [tier_of_usage? hu] at hlimit
      exact absurd (hlimit ▸ hpos) (by decide)
    | _ => exact absurd h (by simp [admits])
  | start i request => exact absurd h (by simp [admits])
  | finish i request response => exact absurd h (by simp [admits])
  | crash i request => exact absurd h (by simp [admits])

theorem counted_cons (e : ApiEvent) (es : List ApiEvent) :
    counted ApiRequest.usage? q (e :: es) =
      (counts ApiRequest.usage? q e).toNat + counted ApiRequest.usage? q es := by
  unfold counted
  rw [List.countP_cons, add_comm]
  cases counts ApiRequest.usage? q e <;> rfl

theorem allAdmitted_cons {e : ApiEvent} : AllAdmitted q (e :: es) ↔
    (counts ApiRequest.usage? q e = true → admits q e es = true) ∧ AllAdmitted q es := by
  constructor
  · exact fun h => ⟨h [] e es rfl, fun pre e' post hes => h (e :: pre) e' post (by rw [hes]; rfl)⟩
  · rintro ⟨he, hes⟩ pre e' post heq
    cases pre with
    | nil =>
      obtain ⟨rfl, rfl⟩ := List.cons.inj heq
      exact he
    | cons d pre =>
      obtain ⟨rfl, rfl⟩ := List.cons.inj heq
      exact hes pre e' post rfl

theorem admittedCount_le_counted (hpos : ∀ e ∈ es, 0 < limitFor e.2.call.tier q.feature) :
    admittedCount q es ≤ counted ApiRequest.usage? q es := by
  induction es with
  | nil => exact le_refl 0
  | cons e es ih =>
    rw [counted_cons, admittedCount]
    refine Nat.add_le_add ?_ (ih fun e' he' => hpos e' (List.mem_cons_of_mem _ he'))
    exact Bool.toNat_le_toNat (counts_of_admits (hpos e List.mem_cons_self))

/-- **What was counted was served** if and only if every counted request is admitted. -/
theorem admittedCount_eq_counted_iff (hpos : ∀ e ∈ es, 0 < limitFor e.2.call.tier q.feature) :
    admittedCount q es = counted ApiRequest.usage? q es ↔ AllAdmitted q es := by
  induction es with
  | nil => exact iff_of_true rfl fun pre e post h => absurd h (by simp)
  | cons e es ih =>
    have hpos' : ∀ e' ∈ es, 0 < limitFor e'.2.call.tier q.feature :=
      fun e' he' => hpos e' (List.mem_cons_of_mem _ he')
    rw [allAdmitted_cons, ← ih hpos', counted_cons, admittedCount]
    cases hadmits : admits q e es with
    | true =>
      rw [counts_of_admits (hpos e List.mem_cons_self) hadmits]
      exact ⟨fun h => ⟨fun _ => rfl, Nat.add_left_cancel h⟩, fun h => congrArg (1 + ·) h.2⟩
    | false =>
      cases counts ApiRequest.usage? q e with
      | true =>
        -- one counted request is missing, and the others do not make up for it
        have hle := admittedCount_le_counted hpos'
        refine iff_of_false ?_ fun h => Bool.false_ne_true (h.1 rfl)
        simp only [Bool.toNat_false, Bool.toNat_true]
        omega
      | false =>
        exact ⟨fun h => ⟨fun h' => h', Nat.add_left_cancel h⟩, fun h => congrArg (0 + ·) h.2⟩

end

/-! ### What a request reads -/

/-- `int(val) if val else 0` -/
def countOf? (val : Option String) : Option ℤ :=
  match truthy val with
  | none => some 0
  | some text => readInt? text.toList

/-- The numeral of a counter is read as its value. -/
theorem countOf?_toString (n : ℤ) : countOf? (some (toString n)) = some n := by
  have hread : readInt? (toString n).toList = some n := by
    rw [toList_toString_int, readInt?_intChars]
  have hne : toString n ≠ "" := by
    intro h
    rw [h] at hread
    exact absurd (show readInt? "".toList = none by decide) (by rw [hread]; simp)
  unfold countOf? truthy
  rw [Option.filter_some, if_pos (decide_eq_true hne)]
  exact hread

/-- A request whose history is `own` has read the count `n` under the key. -/
def HasReadCount (own : List (Op Await AwaitReply)) (key : String) (n : ℤ) : Prop :=
  ∃ r val, (⟨.get key, r⟩ : Op Await AwaitReply) ∈ own ∧ decodeResponse (raiseError r) = .ok val ∧
    countOf? val = some n

theorem HasReadCount.append {own : List (Op Await AwaitReply)} {key : String} {n : ℤ}
    (h : HasReadCount own key n) (op : Op Await AwaitReply) : HasReadCount (own ++ [op]) key n := by
  obtain ⟨r, val, hmem, h⟩ := h
  exact ⟨r, val, List.mem_append_left _ hmem, h⟩

/-- The answer lists the counts that have been read, one for each feature, after the `results`. -/
def ListsCounts (user_id : String) (today : Date) (k : List (String × Json) → Answer)
    (features : List String) (results : List (String × Json)) (own : List (Op Await AwaitReply))
    (answer : Answer) : Prop :=
  (∃ e, answer = .raised e) ∨ ∃ ns : List ℤ,
    List.Forall₂ (fun feature n => HasReadCount own (Tally.key ⟨user_id, feature, today⟩) n) features
      ns ∧
    answer = k (results ++ List.zipWith (fun feature n => (feature, .num (.ofInt n))) features ns)

/-- **The conduct of `get_user_usage`.** -/
theorem getUserUsage_lists (user_id : String) (today : Date) (k : List (String × Json) → Answer) :
    ∀ (features : List String) (results : List (String × Json)) (own : List (Op Await AwaitReply)),
      (getUserUsage user_id today k features results).Obeys (fun _ _ => True)
        (ListsCounts user_id today k features results) own := by
  intro features
  induction features with
  | nil =>
    intro results own
    refine .inr ⟨[], .nil, ?_⟩
    rw [List.zipWith_nil_left, List.append_nil]
  | cons feature features ih =>
    intro results own
    unfold getUserUsage
    have hget : (get (Tally.key ⟨user_id, feature, today⟩)).Obeys (fun _ _ => True)
        (fun own val => ∃ r, decodeResponse (raiseError r) = val ∧
          (⟨.get (Tally.key ⟨user_id, feature, today⟩), r⟩ : Op Await AwaitReply) ∈ own) own :=
      ⟨trivial, fun r => ⟨r, rfl, List.mem_append_right _ (List.mem_singleton_self _)⟩⟩
    refine obeys_orFail hget (fun _ e _ => .inl ⟨e, rfl⟩) ?_
    rintro own val ⟨r, hval, hmem⟩
    -- what has been read stays in the history
    have hnext : ∀ n, countOf? val = some n →
        (getUserUsage user_id today k features (results ++ [(feature, .num (.ofInt n))])).Obeys
          (fun _ _ => True) (ListsCounts user_id today k (feature :: features) results) own := by
      intro n hn
      have hrest := (ih (results ++ [(feature, .num (.ofInt n))]) own).and_preserved
        (P := fun own => HasReadCount own (Tally.key ⟨user_id, feature, today⟩) n)
        ⟨r, val, hmem, hval, hn⟩ fun own c r' _ hread => hread.append _
      refine hrest.mono (fun _ _ h => h) ?_
      rintro own' answer ⟨⟨e, rfl⟩ | ⟨ns, hall, rfl⟩, hread⟩
      · exact .inl ⟨e, rfl⟩
      · refine .inr ⟨n :: ns, .cons hread hall, ?_⟩
        rw [List.zipWith_cons_cons, List.append_assoc, List.singleton_append]
    unfold countOf? at hnext
    cases htext : truthy val with
    | none =>
      simp only [htext] at hnext ⊢
      exact hnext 0 rfl
    | some text =>
      cases hn : readInt? text.toList with
      | none =>
        simp only [hn]
        exact .inl ⟨_, rfl⟩
      | some n =>
        simp only [htext, hn] at hnext ⊢
        exact hnext n rfl

/-- The body of `get_usage`. -/
def ApiRequest.usageBody (request : ApiRequest) (usage_stats : List (String × Json)) : Json :=
  .obj [("user_id", .str request.xUserId), ("tier", .str request.tier.value), ("usage", .obj usage_stats)]

/-- **What `GET /v1/usage` answers.** The counts that the request has read, and nothing else with
status 200. -/
def ApiRequest.AnswersUsage (request : ApiRequest) (own : List (Op Await AwaitReply))
    (answer : Answer) : Prop :=
  request.route = .get_usage → ∀ body, answer = .json 200 body → ∃ ns : List ℤ,
    List.Forall₂ (fun feature n => HasReadCount own (request.readTally feature).key n) trackedFeatures ns ∧
    body = request.usageBody (List.zipWith (fun feature n => (feature, .num (.ofInt n))) trackedFeatures ns)

theorem dispatch_answersUsage : Obeyed ApiRequest.dispatch (fun _ _ _ => True)
    fun request own response => request.AnswersUsage own response.answer := by
  intro request
  by_cases hroute : request.route = .get_usage
  · -- no guard is declared, so the handler comes next
    have hendpoint : request.endpoint = request.getUsage := by
      unfold ApiRequest.endpoint ApiRequest.handle
      rw [hroute]
      rfl
    refine obeys_dispatch (Q := request.AnswersUsage) trivial (fun r e _ body h => absurd h (by simp))
      (fun r _ body h => absurd h (by simp [rateLimitExceeded])) fun r => ?_
    rw [hendpoint]
    refine (getUserUsage_lists _ _ _ _ _ _).mono (fun _ _ h => h) ?_
    rintro own answer (⟨e, rfl⟩ | ⟨ns, hall, rfl⟩)
    · exact fun _ body h => absurd h (by simp)
    · intro _ body hbody
      exact ⟨ns, hall, (Answer.json.inj hbody).2.symm⟩
  · exact (dispatch_obeys request).mono (fun _ _ _ => trivial) fun _ _ _ h => absurd h hroute

/-! ### The counter that is read -/

/-- On its day, the key of a tally is read as its count. -/
theorem Tallied.get {q : Tally} {n : ℕ} {s : Backends} {now : ℚ}
    (h : Tallied q n (s.redis.entries q.key)) (hday : dayOf now = q.today.epochDay) :
    ∃ val, decodeResponse (getValue (s.value? now q.key)) = .ok val ∧ countOf? val = some (n : ℤ) := by
  unfold Backends.value?
  rcases h.find? hday with ⟨rfl, hfind⟩ | ⟨e, hfind, hvalue, -⟩
  · rw [hfind]
    exact ⟨none, rfl, rfl⟩
  · rw [hfind, Option.map_some, hvalue]
    exact ⟨some (toString (n : ℤ)), decodeResponse_toByteArray _, countOf?_toString n⟩

variable {es : List ApiEvent}
  {s : ℚ × Pool Await AwaitReply ApiRequest (fun _ => ApiResponse) Backends}

/-- **The meter shows the counter.** What a request reads is the number of requests that have been
counted for the tally. -/
theorem read_eq_counted {pre post : List ApiEvent} {t : ℚ} {i : ℕ} {request : ApiRequest} {q : Tally}
    {o : Outcome (Except String (Option ByteArray))} {val : Option String} {n : ℤ}
    (hr : publicApi.Run (pre ++ (t, .cmd i request (.get q.key) o) :: post) s)
    (hq : ':' ∉ q.feature.toList) (hcounts : OnItsDay ApiRequest.usage? q pre)
    (hday : dayOf t = q.today.epochDay) (hval : decodeResponse (raiseError o.seen) = .ok val)
    (hn : countOf? val = some n) : n = counted ApiRequest.usage? q pre := by
  cases hseen : o.seen with
  | error e =>
    rw [hseen] at hval
    exact absurd hval (by simp [raiseError, decodeResponse])
  | ok r =>
    obtain ⟨s₀, s', h₀, hx⟩ := executed_of_seen hr hseen
    have htallied := tallied_of_run dispatch_obeyed (fun _ _ _ h => h.usage) hq
      (fun _ hs => hs _ (.inl q.isUsageKey_key)) h₀ hcounts
    obtain ⟨val', hval', hn'⟩ := htallied.get hday
    rw [hseen, show raiseError (.ok r) = r from rfl, (exec_get hx).2, hval'] at hval
    obtain rfl := Except.ok.inj hval
    exact (Option.some.inj (hn'.symm.trans hn)).symm

/-! ### Who is admitted -/

theorem of_counts {q : Tally} {e : ApiEvent} (h : counts ApiRequest.usage? q e = true) :
    ∃ t i request key o u, e = (t, .cmd i request (.incr key) o) ∧ request.usage? = some u ∧
      u.tally = q := by
  obtain ⟨t, e⟩ := e
  cases e with
  | cmd i request c o =>
    cases c with
    | incr key =>
      obtain ⟨-, htally⟩ := Bool.and_eq_true_iff.mp h
      obtain ⟨u, hu, hq⟩ := Option.map_eq_some_iff.mp (eq_of_beq htally)
      exact ⟨t, i, request, key, o, u, rfl, hu, hq⟩
    | _ => exact absurd h (by simp [counts])
  | start i request => exact absurd h (by simp [counts])
  | finish i request response => exact absurd h (by simp [counts])
  | crash i request => exact absurd h (by simp [counts])

/-- **Who is admitted.** A counted request is admitted if it is within its limit and sees its answers. -/
theorem admits_iff {pre post : List ApiEvent} {t : ℚ} {i : ℕ} {request : ApiRequest} {key : String}
    {q : Tally} {o : Outcome (Except String ℤ)}
    (hr : publicApi.Run (pre ++ (t, .cmd i request (.incr key) o) :: post) s)
    (hq : ':' ∉ q.feature.toList)
    (hday : OnItsDay ApiRequest.usage? q (pre ++ (t, .cmd i request (.incr key) o) :: post))
    (hcounts : counts ApiRequest.usage? q ((t, .cmd i request (.incr key) o) : ApiEvent) = true) :
    admits q (t, .cmd i request (.incr key) o) post = true ↔
      ((counted ApiRequest.usage? q pre + 1 : ℕ) : ℤ) ≤ limitFor request.tier q.feature ∧
        o.seen.isOk = true ∧ (counted ApiRequest.usage? q pre = 0 → expires i post = true) := by
  have hrank := publicApi_reply hq hr hday hcounts
  obtain ⟨_, _, _, _, _, u, heq, hu, rfl⟩ := of_counts hcounts
  cases heq
  cases o with
  | ok r =>
    obtain rfl := Option.some.inj hrank
    show (request.usage?.any fun v => v.tally == u.tally && _) = true ↔ _
    rw [hu, Option.any_some, beq_self_eq_true, Bool.true_and, ← tier_of_usage? hu]
    show (decide (_ ≤ limitFor u.tier u.tally.feature) && (_ || expires i post)) = true ↔ _
    simp only [Bool.and_eq_true, Bool.or_eq_true, decide_eq_true_iff, bne_iff_ne]
    generalize counted ApiRequest.usage? u.tally pre = n
    refine and_congr (by norm_cast) ?_
    -- the first to be counted has created the counter
    have hfirst : (n : ℤ) + 1 ≠ 1 ↔ n ≠ 0 := by omega
    rw [hfirst, imp_iff_not_or]
    exact (and_iff_right rfl).symm
  | lost r e =>
    -- an answer that is not seen admits nobody
    refine iff_of_false ?_ fun h => Bool.false_ne_true h.2.1
    simp [admits, Outcome.seen]
  | failed e => exact absurd hrank (by simp [Outcome.effect])

/-- All are admitted as long as each is within its limit. -/
theorem allAdmitted_iff_withinLimit {q : Tally} (hr : publicApi.Run es s) (hq : ':' ∉ q.feature.toList)
    (hday : OnItsDay ApiRequest.usage? q es) : AllAdmitted q es ↔ WithinLimit q es := by
  constructor
  · intro hall pre t i request key o post hes hcounts
    exact (admits_iff (hes ▸ hr) hq (hes ▸ hday) hcounts).mp (hall _ _ _ hes hcounts)
  · intro hwithin pre e post hes hcounts
    obtain ⟨t, i, request, key, o, u, rfl, -, -⟩ := of_counts hcounts
    exact (admits_iff (hes ▸ hr) hq (hes ▸ hday) hcounts).mpr (hwithin _ _ _ _ _ _ _ hes hcounts)

/-! ### The report -/

theorem lookup_counts {features : List String} {ns : List ℤ} {P : String → ℤ → Prop}
    (hall : List.Forall₂ P features ns) {feature : String} (hmem : feature ∈ features) :
    ∃ n, P feature n ∧ (List.zipWith (fun feature n => (feature, Json.num (.ofInt n))) features ns).lookup
      feature = some (.num (.ofInt n)) := by
  induction hall with
  | nil => exact absurd hmem List.not_mem_nil
  | @cons feature' n features ns hn hall ih =>
    rw [List.zipWith_cons_cons]
    by_cases heq : feature = feature'
    · subst heq
      exact ⟨n, hn, List.lookup_cons_self⟩
    · obtain ⟨n', hn', hlookup⟩ := ih ((List.mem_cons.mp hmem).resolve_left heq)
      exact ⟨n', hn', by rw [List.lookup_cons, beq_false_of_ne heq, hlookup]⟩

/-- The body shows what its statistics say. -/
theorem shown?_usageBody {request : ApiRequest} {feature : String} {usage_stats : List (String × Json)}
    {n : ℤ} (h : usage_stats.lookup feature = some (.num (.ofInt n))) :
    shown? feature (request.usageBody usage_stats) = some n := by
  have husage : [("user_id", Json.str request.xUserId), ("tier", .str request.tier.value),
      ("usage", .obj usage_stats)].lookup "usage" = some (.obj usage_stats) := rfl
  unfold ApiRequest.usageBody shown?
  simp only [husage, h, Numeral.toInt?_ofInt]

theorem colon_notMem_of_tracked : ∀ feature ∈ trackedFeatures, ':' ∉ feature.toList := by
  decide

/-- On a day with positive limits, what is counted is admitted as long as each request is within its limit. -/
theorem admittedCount_iff_withinLimit {caller feature : String} {today : Date} (hr : publicApi.Run es s)
    (hfeature : feature ∈ trackedFeatures) (hday : WithinDay today es) (hpos : PositiveLimits es) :
    admittedCount ⟨caller, feature, today⟩ es = counted ApiRequest.usage? ⟨caller, feature, today⟩ es ↔
      WithinLimit ⟨caller, feature, today⟩ es := by
  rw [← allAdmitted_iff_withinLimit (q := ⟨caller, feature, today⟩) hr
    (colon_notMem_of_tracked feature hfeature) fun e he _ => (hday e he).1]
  exact admittedCount_eq_counted_iff fun e he => hpos e he feature hfeature

/-- **An authenticated caller** reads what was served to it if and only if it has kept within its limit. -/
theorem served_iff_of_user {request : ApiRequest} {user_id feature : String} (hr : publicApi.Run es s)
    (hfeature : feature ∈ trackedFeatures) (hday : WithinDay request.today es) (hpos : PositiveLimits es)
    (huser : truthy request.user_id = some user_id) :
    counted ApiRequest.usage? (request.readTally feature) es = request.served feature es ↔
      WithinLimit ⟨user_id, feature, request.today⟩ es := by
  rw [← admittedCount_iff_withinLimit hr hfeature hday hpos, identity_of_user huser]
  unfold ApiRequest.countedFor ApiRequest.served ApiRequest.caller?
  rw [huser]
  exact eq_comm

/-- What such a request reads is what was served. -/
theorem served_of_readsServed {request : ApiRequest} {feature : String} (hr : publicApi.Run es s)
    (hfeature : feature ∈ trackedFeatures) (hday : WithinDay request.today es) (hpos : PositiveLimits es)
    (h : ReadsServed request feature es) :
    counted ApiRequest.usage? (request.readTally feature) es = request.served feature es := by
  rw [h.identity]
  unfold ApiRequest.countedFor ApiRequest.served
  cases hcaller : request.caller? with
  | none => rfl
  | some caller =>
    exact ((admittedCount_iff_withinLimit hr hfeature hday hpos).mpr (h.limit caller hcaller)).symm

/-- **The meter reports what was served**, to a request that reads under an identity with as many counted
requests as its caller, as long as the caller has kept within its limits. -/
theorem usage_reports_served (today : Date) (es : List ApiEvent)
    (s : ℚ × Pool Await AwaitReply ApiRequest (fun _ => ApiResponse) Backends) (hr : publicApi.Run es s)
    (hday : WithinDay today es) (hpos : PositiveLimits es)
    (hreads : ∀ pre t i request feature o post,
      es = pre ++ (t, .cmd i request (.get (request.readTally feature).key) o) :: post →
      request.route = .get_usage → feature ∈ trackedFeatures → ReadsServed request feature pre) :
    ReportsServed es := by
  intro pre t i request body remaining post hes hroute feature hfeature
  obtain ⟨ns, hall, rfl⟩ := dispatch_answersUsage.returns (hes ▸ hr) hroute body rfl
  obtain ⟨n, ⟨r, val, hown, hval, hn⟩, hlookup⟩ := lookup_counts hall hfeature
  obtain ⟨pre₁, t', o, pre₂, rfl, hseen, hstart⟩ := exists_split_of_finish (hes ▸ hr) hown
  rw [List.append_assoc, List.cons_append] at hes
  subst hes
  refine ⟨pre₁, t', o, pre₂, rfl, hstart, ?_⟩
  -- the request reads on the day, and so did all before
  obtain ⟨hnow, htoday⟩ := hday (t', .cmd i request (.get (request.readTally feature).key) o) (by simp)
  obtain rfl : request.today = today := htoday
  obtain ⟨s₀, -, h₀, -, -⟩ := hr.step_at
  have hval : decodeResponse (raiseError o.seen) = .ok val := hseen ▸ hval
  have hread := read_eq_counted hr (colon_notMem_of_tracked feature hfeature)
    (fun e he _ => (hday e (List.mem_append_left _ he)).1) hnow hval hn
  have hserved := served_of_readsServed h₀ hfeature (fun e he => hday e (List.mem_append_left _ he))
    (fun e he => hpos e (List.mem_append_left _ he)) (hreads _ _ _ _ _ _ _ rfl hroute hfeature)
  rw [shown?_usageBody hlookup, hread, hserved]

/-! ### A user and a guest -/

/-- A command that reads a counter for `get_usage`. -/
def readsUsage : ApiEvent → Bool
  | (_, .cmd _ request (.get _) _) =>
    match request.route with
    | .get_usage => true
    | _ => false
  | _ => false

theorem readsUsage_get {t : ℚ} {i : ℕ} {request : ApiRequest} {key : String}
    {o : Outcome (Except String (Option ByteArray))} (h : request.route = .get_usage) :
    readsUsage (t, .cmd i request (.get key) o) = true := by
  unfold readsUsage
  simp only [h]

/-- What `get_usage` has shown for a feature. -/
def shownTo? (feature : String) : ApiEvent → Option ℤ
  | (_, .finish _ request ⟨.json 200 body, _⟩) =>
    match request.route with
    | .get_usage => shown? feature body
    | _ => none
  | _ => none

theorem of_shownTo? {feature : String} {e : ApiEvent} {n : ℤ} (h : shownTo? feature e = some n) :
    ∃ t i request body remaining, e = (t, .finish i request ⟨.json 200 body, remaining⟩) ∧
      request.route = .get_usage ∧ shown? feature body = some n := by
  unfold shownTo? at h
  split at h
  · split at h
    · next hroute => exact ⟨_, _, _, _, _, rfl, hroute, h⟩
    · exact absurd h (by simp)
  · exact absurd h (by simp)

/-- A request of an authenticated user on the free tier. -/
def userRequest (route : Route) (n : ℕ) : ℚ × ApiRequest :=
  let request := guestRequest route n
  (request.1, { request.2 with user_id := some "user123", tier := .free })

/-- The user looks at a parcel twice, and then at the usage. -/
def userHistory : List ApiEvent :=
  timedSession backends ApiRequest.dispatch
    [userRequest (.get_property "p1") 0, userRequest (.get_property "p1") 1, userRequest .get_usage 2] .blank

theorem userHistory_reported : ReportsServed userHistory := by
  have hchain : List.IsChain (· ≤ ·)
      (0 :: List.map Prod.fst [userRequest (.get_property "p1") 0, userRequest (.get_property "p1") 1,
        userRequest .get_usage 2]) := by decide +kernel
  obtain ⟨t, hr⟩ : ∃ t, publicApi.Run userHistory (t, _) := run_timedSession _ fresh_blank hchain
  have hday : WithinDay guestTally.today userHistory := by
    unfold WithinDay
    decide +kernel
  have hpos : PositiveLimits userHistory := by
    unfold PositiveLimits
    decide +kernel
  have huser : ∀ e ∈ userHistory, truthy e.2.call.user_id = some "user123" := by decide +kernel
  refine usage_reports_served guestTally.today _ _ hr hday hpos ?_
  intro pre t' i request feature o post hes hroute hfeature
  have hmem : ((t', .cmd i request (.get (request.readTally feature).key) o) : ApiEvent) ∈ userHistory := by
    rw [hes]
    exact List.mem_append_right _ List.mem_cons_self
  refine ⟨identity_of_user (huser _ hmem) feature pre, fun caller hcaller => ?_⟩
  obtain rfl : "user123" = caller := by
    have hcaller' : request.caller? = some "user123" := by
      unfold ApiRequest.caller?
      rw [show truthy request.user_id = some "user123" from huser _ hmem]
      rfl
    exact Option.some.inj (hcaller'.symm.trans hcaller)
  rw [show request.today = guestTally.today from (hday _ hmem).2]
  -- the guards have let everything through that was counted
  have hadmitted : ∀ feature ∈ trackedFeatures, admittedCount ⟨"user123", feature, guestTally.today⟩ pre =
      counted ApiRequest.usage? ⟨"user123", feature, guestTally.today⟩ pre :=
    of_take (P := fun es => ∀ feature ∈ trackedFeatures,
        admittedCount ⟨"user123", feature, guestTally.today⟩ es =
          counted ApiRequest.usage? ⟨"user123", feature, guestTally.today⟩ es)
      (by decide +kernel) hes (readsUsage_get hroute)
  rw [hes] at hr hday hpos
  obtain ⟨s₀, -, h₀, -, -⟩ := hr.step_at
  exact (admittedCount_iff_withinLimit h₀ hfeature (fun e he => hday e (List.mem_append_left _ he))
    fun e he => hpos e (List.mem_append_left _ he)).mp (hadmitted feature hfeature)

/-- **A guest does not see its requests**: one request for details has been admitted, and the meter shows
none. -/
theorem guest_usage_unseen : ∃ s,
    publicApi.Run (guestHistory [.get_property "p1", .get_usage]) s ∧
    WithinDay guestTally.today (guestHistory [.get_property "p1", .get_usage]) ∧
    PositiveLimits (guestHistory [.get_property "p1", .get_usage]) ∧
    ¬ ReportsServed (guestHistory [.get_property "p1", .get_usage]) := by
  obtain ⟨s, hr⟩ : ∃ s, publicApi.Run (guestHistory [.get_property "p1", .get_usage]) s :=
    run_guests _ fresh_blank
  refine ⟨_, hr, ?_, ?_, ?_⟩
  · unfold WithinDay
    decide +kernel
  · unfold PositiveLimits
    decide +kernel
  · intro hreports
    have hlast : (guestHistory [.get_property "p1", .get_usage]).getLast?.bind (shownTo? "daily_details") =
        some 0 := by decide +kernel
    obtain ⟨e, he, hshown⟩ := Option.bind_eq_some_iff.mp hlast
    obtain ⟨pre, hes⟩ := List.getLast?_eq_some_iff.mp he
    obtain ⟨t', i, request, body, remaining, rfl, hroute, hshown⟩ := of_shownTo? hshown
    obtain ⟨pre₁, t₁, o, pre₂, hpre, -, hserved⟩ :=
      hreports pre t' i request body remaining [] hes hroute "daily_details" (by decide)
    -- before the counter was read, one request had been admitted
    have hone : admittedCount ⟨guestTally.user_id, "daily_details", guestTally.today⟩ pre₁ = 1 := by
      refine of_take
        (P := fun es => admittedCount ⟨guestTally.user_id, "daily_details", guestTally.today⟩ es = 1)
        (by decide +kernel) (hes.trans (by rw [hpre, List.append_assoc, List.cons_append]))
        (readsUsage_get hroute)
    have hguest : ∀ e ∈ guestHistory [.get_property "p1", .get_usage],
        e.2.call.caller? = some guestTally.user_id ∧ e.2.call.today = guestTally.today := by
      decide +kernel
    obtain ⟨hcaller, htoday⟩ := hguest _ (hes ▸ List.mem_append_right _ List.mem_cons_self)
    have hserved₁ : request.served "daily_details" pre₁ = 1 := by
      unfold ApiRequest.served
      rw [show request.caller? = _ from hcaller, show request.today = _ from htoday]
      exact hone
    rw [hshown, hserved₁] at hserved
    exact absurd hserved (by decide)

end Legacy

end TaxlienGateway
