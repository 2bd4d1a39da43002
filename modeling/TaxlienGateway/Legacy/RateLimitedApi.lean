import TaxlienGateway.Legacy.ApiAnswers
import TaxlienGateway.Legacy.BucketReplies
import TaxlienGateway.Legacy.UpstreamBound
import TaxlienGateway.SharedRedis.Keys

/-!
# The rate limiter in front of the public API

`Legacy/RateLimit.lean` is about the script on one key. Here it is one of the commands of the whole
application: the requests of all callers are interleaved, each passes the clock of its own gateway, and the
key expires by the clock of Redis. Clocks and tokens are exact rationals, as there; the doubles of the script round
them, and may refuse a call at a moment at which exactly one token is due. Nobody has a bucket at first.

* `limiter_replies` — a caller is answered as if it had a bucket of its own that never expires, if the clocks
  of the gateways are within half an hour of the clock of Redis (`ClocksNear`);
* `limited_iff` — a request is answered with status 429 if and only if this bucket had less than one token;
* `sent_le` — what a caller has forwarded in any window of time is at most the burst and the refill.
-/

namespace TaxlienGateway

open Framework

namespace Legacy

/-! ### The owners of buckets -/

/-- A caller, as the rate limiter tells them apart. -/
structure BucketOwner where
  identifier : String
  tier : UserTier
  deriving DecidableEq

/-- Whose bucket a request takes a token from. -/
def ApiRequest.owner (request : ApiRequest) : BucketOwner := ⟨request.identifier, request.tier⟩

namespace BucketOwner

variable (owner : BucketOwner)

/-- The key of the bucket. -/
def key : String := rateLimitKey owner.identifier owner.tier.value

/-- Tokens per second. -/
def rate : ℚ := (limitsOf owner.tier.value).1

def burst : ℚ := (limitsOf owner.tier.value).2

theorem rate_pos : 0 < owner.rate := (limitsOf_spec _).1

theorem one_le_burst : 1 ≤ owner.burst := (limitsOf_spec _).2.1

/-- The bucket of every tier is full after fifty seconds. -/
theorem burst_le : owner.burst ≤ 50 * owner.rate := by
  have hall : ∀ tier : UserTier, (limitsOf tier.value).2 ≤ 50 * (limitsOf tier.value).1 := fun tier => by
    cases tier <;> decide +kernel
  exact hall owner.tier

variable {owner}

/-- Two owners do not share a bucket. -/
theorem key_inj {owner' : BucketOwner} (h : owner.key = owner'.key) : owner = owner' := by
  have htext : (bucketFields owner.identifier owner.tier).text =
      (bucketFields owner'.identifier owner'.tier).text := by
    rw [text_bucketFields, text_bucketFields]
    exact congrArg String.toList h
  obtain ⟨hidentifier, htier⟩ := bucketFields_inj (Fields.eq_of_text (Eq.refl 2) (Eq.refl 0) htext)
  cases owner
  exact BucketOwner.mk.injEq .. ▸ ⟨hidentifier, htier⟩

end BucketOwner

/-- A call of the limiter by a request of the owner that Redis has executed: the clock that it passed, and the
reply. -/
def limiterCall? (owner : BucketOwner) : ApiEvent → Option (ℚ × Except String (Bool × ℤ))
  | (_, .cmd _ request (.tokenBucket _ clock _ _ _) o) =>
    if request.owner = owner then o.effect.map fun r => (clock, r) else none
  | _ => none

/-- All of them, in the order in which Redis has executed them. -/
abbrev limiterCalls (owner : BucketOwner) (es : List ApiEvent) : List (ℚ × Except String (Bool × ℤ)) :=
  es.filterMap (limiterCall? owner)

/-- The clocks that they passed. -/
abbrev limiterClocks (owner : BucketOwner) (es : List ApiEvent) : List ℚ :=
  (limiterCalls owner es).map Prod.fst

/-- The clocks that the owner's calls pass are within 1775 seconds of the clock of Redis. -/
def ClocksNear (owner : BucketOwner) (es : List ApiEvent) : Prop :=
  ∀ e ∈ es, ∀ c ∈ limiterCall? owner e, |c.1 - e.1| ≤ 1775

/-- Nobody has a bucket yet. -/
def Backends.NoBuckets (s : Backends) : Prop := ∀ owner : BucketOwner, s.redis.entries owner.key = none

/-- The public application, when nobody has a bucket yet. -/
def limitedApi : System (ℚ × Pool Await AwaitReply ApiRequest (fun _ => ApiResponse) Backends) ApiEvent :=
  timedPool backends ApiRequest.dispatch Backends.NoBuckets

/-! ### A bucket that never expires -/

/-- The bucket of the owner after calls that pass the given clocks, if its key never expires. -/
abbrev BucketOwner.after (owner : BucketOwner) (clocks : List ℚ) : Option BucketHash :=
  Legacy.after owner.rate owner.burst (clocks.map fun clock => ⟨clock, 1⟩)

/-- The key of the owner holds this bucket. When it has expired, an hour less the difference of two clocks has
passed, in which the bucket would have been filled. -/
def Holds (hash : Option BucketHash) (entry : Option (Entry Value ℚ)) : Prop :=
  match hash with
  | none => entry = none
  | some h => 0 ≤ h.tokens ∧ ∃ expireAt, entry = some ⟨.bucket h, some expireAt⟩ ∧
      h.updated_at + 1825 ≤ expireAt

/-- The script looks at what it finds only through `new_tokens`. -/
theorem tokenBucketLua_congr {state state' : Option BucketHash} {now rate burst : ℚ} (requested : ℚ)
    (h : newTokens state now rate burst = newTokens state' now rate burst) :
    tokenBucketLua state now rate burst requested = tokenBucketLua state' now rate burst requested := by
  unfold tokenBucketLua
  rw [h]

theorem tokenBucketLua_of_le {state : Option BucketHash} {now rate burst requested : ℚ}
    (h : requested ≤ newTokens state now rate burst) : tokenBucketLua state now rate burst requested =
      (some ⟨newTokens state now rate burst - requested, now⟩, true,
        ⌊newTokens state now rate burst - requested⌋) := by
  unfold tokenBucketLua
  simp only [h, ↓reduceIte]

theorem tokenBucketLua_of_lt {state : Option BucketHash} {now rate burst requested : ℚ}
    (h : newTokens state now rate burst < requested) : tokenBucketLua state now rate burst requested =
      (none, false, ⌊newTokens state now rate burst⌋) := by
  unfold tokenBucketLua
  simp only [not_le.mpr h, ↓reduceIte]

section Exec

variable {owner : BucketOwner} {hash : Option BucketHash} {s s' : Backends} {now clock : ℚ}

/-- What the script finds under the key counts as the bucket. -/
theorem Holds.newTokens (h : Holds hash (s.redis.entries owner.key)) (hnear : |clock - now| ≤ 1775) :
    ∃ state, bucketState (s.value? now owner.key) = .ok state ∧
      Legacy.newTokens state clock owner.rate owner.burst =
        Legacy.newTokens hash clock owner.rate owner.burst := by
  cases hash with
  | none =>
    refine ⟨none, ?_, rfl⟩
    unfold Backends.value?
    rw [ExpiringStore.find?_of_none h]
    rfl
  | some h' =>
    obtain ⟨htokens, expireAt, hentry, hexpire⟩ := h
    by_cases hlive : now ≤ expireAt
    · refine ⟨some h', ?_, rfl⟩
      unfold Backends.value?
      rw [ExpiringStore.find?_of_entries hentry (by simpa using hlive)]
      rfl
    · -- the key has expired, and the bucket is full
      refine ⟨none, ?_, ?_⟩
      · have hnone : s.redis.find? now owner.key = none := by
          by_contra hsome
          obtain ⟨entry, hfind⟩ := Option.ne_none_iff_exists'.mp hsome
          obtain ⟨hentry', hle⟩ := ExpiringStore.find?_eq_some_iff.mp hfind
          obtain rfl := Option.some.inj (hentry.symm.trans hentry')
          exact hlive (hle expireAt rfl)
        unfold Backends.value?
        rw [hnone]
        rfl
      · have hpassed : 50 ≤ clock - h'.updated_at := by
          have := (abs_le.mp hnear).1
          linarith [not_le.mp hlive]
        have hfull : 50 * owner.rate ≤ owner.rate * (clock - h'.updated_at) := by
          rw [mul_comm]
          exact mul_le_mul_of_nonneg_left hpassed owner.rate_pos.le
        rw [newTokens_none, newTokens_some (by linarith)]
        exact (min_eq_left (by linarith [owner.burst_le])).symm

/-- **Step.** -/
theorem Holds.exec_tokenBucket {r : Except String (Bool × ℤ)} (h : Holds hash (s.redis.entries owner.key))
    (hnear : |clock - now| ≤ 1775)
    (hx : (backends now).exec (.tokenBucket owner.key clock owner.rate owner.burst 1) s = (s', r)) :
    r = .ok (tokenBucketLua hash clock owner.rate owner.burst 1).2 ∧
      Holds (step owner.rate owner.burst hash ⟨clock, 1⟩) (s'.redis.entries owner.key) := by
  obtain ⟨state, hstate, hnew⟩ := h.newTokens hnear
  change s.tokenBucket now _ _ _ _ _ = _ at hx
  unfold Backends.tokenBucket at hx
  rw [hstate] at hx
  dsimp only at hx
  rw [tokenBucketLua_congr 1 hnew] at hx
  by_cases hserved : 1 ≤ Legacy.newTokens hash clock owner.rate owner.burst
  · have hstep : step owner.rate owner.burst hash ⟨clock, 1⟩ =
        some ⟨Legacy.newTokens hash clock owner.rate owner.burst - 1, clock⟩ :=
      (step_of_le (c := ⟨clock, 1⟩) hserved).1
    rw [tokenBucketLua_of_le hserved] at hx ⊢
    obtain ⟨rfl, rfl⟩ := Prod.mk.inj hx
    rw [hstep, ExpiringStore.entries_set_self]
    -- the key lives for an hour by the clock of Redis
    have := (abs_le.mp hnear).2
    exact ⟨rfl, sub_nonneg.mpr hserved, _, rfl, by linarith⟩
  · have hstep : step owner.rate owner.burst hash ⟨clock, 1⟩ = hash :=
      (step_of_lt (c := ⟨clock, 1⟩) (not_le.mp hserved)).1
    rw [tokenBucketLua_of_lt (not_le.mp hserved)] at hx ⊢
    obtain ⟨rfl, rfl⟩ := Prod.mk.inj hx
    rw [hstep]
    exact ⟨rfl, h⟩

end Exec

/-! ### The bucket along a run -/

/-- One more call of a bucket that never expires. -/
theorem lastingAnswers_append_singleton (owner : BucketOwner) (clocks : List ℚ) (clock : ℚ) :
    lastingAnswers owner.rate owner.burst none (clocks ++ [clock]) =
      lastingAnswers owner.rate owner.burst none clocks ++
        [(tokenBucketLua (owner.after clocks) clock owner.rate owner.burst 1).2] := by
  suffices h : ∀ (clocks : List ℚ) (state : Option BucketHash),
      lastingAnswers owner.rate owner.burst state (clocks ++ [clock]) =
        lastingAnswers owner.rate owner.burst state clocks ++ [(tokenBucketLua
          ((clocks.map fun clock => (⟨clock, 1⟩ : ScriptCall)).foldl (step owner.rate owner.burst) state)
          clock owner.rate owner.burst 1).2] from h clocks none
  intro clocks
  induction clocks with
  | nil => exact fun state => rfl
  | cons c clocks ih => exact fun state => congrArg (_ :: ·) (ih _)

theorem limiterCalls_append_singleton (owner : BucketOwner) (es : List ApiEvent) (e : ApiEvent) :
    limiterCalls owner (es ++ [e]) = limiterCalls owner es ++ (limiterCall? owner e).toList := by
  rw [limiterCalls, List.filterMap_append]
  cases h : limiterCall? owner e <;> simp [h]

/-- The owner's bucket, and what it has replied. -/
structure Limits (owner : BucketOwner) (es : List ApiEvent) (s : Backends) : Prop where
  holds : Holds (owner.after (limiterClocks owner es)) (s.redis.entries owner.key)
  replies : (limiterCalls owner es).map Prod.snd =
    (lastingAnswers owner.rate owner.burst none (limiterClocks owner es)).map .ok

section Run

variable {owner : BucketOwner} {es : List ApiEvent} {s s' : Backends} {t : ℚ} {i : ℕ} {request : ApiRequest}

/-- An event that is no call of the owner. -/
theorem Limits.of_none {e : ApiEvent} (h : Limits owner es s) (he : limiterCall? owner e = none)
    (hentries : s'.redis.entries owner.key = s.redis.entries owner.key) : Limits owner (es ++ [e]) s' := by
  have hcalls : limiterCalls owner (es ++ [e]) = limiterCalls owner es := by
    rw [limiterCalls_append_singleton, he, Option.toList_none, List.append_nil]
  refine ⟨?_, ?_⟩
  · rw [hentries, limiterClocks, hcalls]
    exact h.holds
  · rw [limiterClocks, hcalls]
    exact h.replies

theorem limiterCall?_bucketCall {o : Outcome (Except String (Bool × ℤ))} {r : Except String (Bool × ℤ)}
    (ho : o.effect = some r) :
    limiterCall? request.owner (t, .cmd i request request.bucketCall o) = some (request.time, r) := by
  show (if request.owner = request.owner then o.effect.map _ else none) = _
  rw [if_pos rfl, ho]
  rfl

/-- A command that has not been executed is no call. -/
theorem limiterCall?_of_idle {e : Event Await AwaitReply ApiRequest (fun _ => ApiResponse)}
    (he : e.applied? = none) : limiterCall? owner (t, e) = none := by
  cases e with
  | cmd i request c o =>
    cases c with
    | tokenBucket key clock rate burst requested =>
      have ho : o.effect = none := Option.map_eq_none_iff.mp he
      show (if _ then o.effect.map _ else none) = none
      rw [ho, Option.map_none, ite_self]
    | _ => rfl
  | _ => rfl

/-- A call of the owner. -/
theorem Limits.exec {o : Outcome (Except String (Bool × ℤ))} {r : Except String (Bool × ℤ)}
    (h : Limits request.owner es s) (ho : o.effect = some r) (hnear : |request.time - t| ≤ 1775)
    (hx : (backends t).exec request.bucketCall s = (s', r)) :
    Limits request.owner (es ++ [(t, .cmd i request request.bucketCall o)]) s' := by
  have hcall : limiterCall? request.owner (t, .cmd i request request.bucketCall o) =
      some (request.time, r) := limiterCall?_bucketCall ho
  have hclocks : limiterClocks request.owner (es ++ [(t, .cmd i request request.bucketCall o)]) =
      limiterClocks request.owner es ++ [request.time] := by
    rw [limiterClocks, limiterCalls_append_singleton, hcall, List.map_append]
    rfl
  obtain ⟨rfl, hholds⟩ := h.holds.exec_tokenBucket hnear hx
  refine ⟨?_, ?_⟩
  · rw [hclocks, BucketOwner.after, List.map_append]
    exact (after_append_singleton _ _ _ _).symm ▸ hholds
  · rw [hclocks, limiterCalls_append_singleton, hcall, List.map_append, h.replies,
      lastingAnswers_append_singleton, List.map_append]
    rfl

/-- Every other command leaves the owner's bucket alone. -/
theorem other_key {own : List (Op Await AwaitReply)} {c : Await} {o : Outcome (AwaitReply c)}
    (hrule : RequestRule request own c) (hother : c = request.bucketCall → request.owner ≠ owner) :
    c.key? ≠ some owner.key ∧ limiterCall? owner (t, .cmd i request c o) = none := by
  cases c with
  | incr key =>
    obtain ⟨q, rfl⟩ := hrule
    exact ⟨fun h => not_isUsageKey_rateLimitKey _ _ (Option.some.inj h ▸ q.isUsageKey_key), rfl⟩
  | expire key ttl =>
    obtain ⟨q, rfl⟩ := hrule
    exact ⟨fun h => not_isUsageKey_rateLimitKey _ _ (Option.some.inj h ▸ q.isUsageKey_key), rfl⟩
  | setex key ttl content =>
    obtain ⟨⟨parcel_id, rfl⟩, -⟩ := hrule
    exact ⟨fun h => not_isCacheKey_rateLimitKey _ _ (Option.some.inj h ▸ isCacheKey_cacheKey parcel_id _),
      rfl⟩
  | tokenBucket key clock rate burst requested =>
    have hne := hother hrule.2
    obtain ⟨rfl, -⟩ := Await.tokenBucket.inj hrule.2
    exact ⟨fun h => hne (BucketOwner.key_inj (Option.some.inj h)), if_neg hne⟩
  | hset key fields => exact absurd hrule id
  | get key => exact ⟨by simp [Await.key?], rfl⟩
  | upstream q => exact ⟨by simp [Await.key?], rfl⟩

end Run

theorem dispatch_limited : Obeyed ApiRequest.dispatch DispatchRule
    (fun request own response => request.Answers own response.answer) := dispatch_answers

theorem ClocksNear.of_append {owner : BucketOwner} {es es' : List ApiEvent} (h : ClocksNear owner (es ++ es')) :
    ClocksNear owner es := fun e he => h e (List.mem_append_left _ he)

variable {owner : BucketOwner} {es : List ApiEvent}
  {s : ℚ × Pool Await AwaitReply ApiRequest (fun _ => ApiResponse) Backends}

/-- **Run.** -/
theorem limits_of_run (hr : limitedApi.Run es s) (hnear : ClocksNear owner es) : Limits owner es s.2.store := by
  revert hnear
  refine dispatch_limited.timed_invariant (I := fun es s => ClocksNear owner es → Limits owner es s)
    ?_ ?_ ?_ hr
  · exact fun s hs _ => ⟨hs owner, rfl⟩
  · intro es s t e ih hidle hnear
    exact (ih hnear.of_append).of_none (limiterCall?_of_idle hidle) rfl
  · intro es s t i request c k o r s' hr ih hclock hth hrule ho hx hnear
    have ih := ih hnear.of_append
    by_cases hown : c = request.bucketCall ∧ request.owner = owner
    · obtain ⟨rfl, rfl⟩ := hown
      have hclose : |request.time - t| ≤ 1775 := hnear (t, .cmd i request request.bucketCall o)
        (List.mem_append_right _ List.mem_cons_self) (request.time, r) (limiterCall?_bucketCall ho)
      exact ih.exec ho hclose hx
    · have hother : c = request.bucketCall → request.owner ≠ owner := fun hc howner => hown ⟨hc, howner⟩
      obtain ⟨hkey, hcall⟩ := other_key hrule.1 hother
      exact ih.of_none hcall (entries_of_exec hx hkey)

/-- **A caller is answered as if it had a bucket of its own**, whose key never expires, as long as the clocks it
passes are near that of Redis. Neither the other callers nor anything else that is kept in Redis can be noticed. -/
theorem limiter_replies (owner : BucketOwner) (es : List ApiEvent)
    (s : ℚ × Pool Await AwaitReply ApiRequest (fun _ => ApiResponse) Backends) (hr : limitedApi.Run es s)
    (hnear : ClocksNear owner es) : (limiterCalls owner es).map Prod.snd =
      (lastingAnswers owner.rate owner.burst none (limiterClocks owner es)).map .ok :=
  (limits_of_run hr hnear).replies

/-! ### Refusals -/

theorem replyTo_fst (tokens : ℚ) : (replyTo tokens).1 = decide (1 ≤ tokens) := by
  unfold replyTo
  split
  · next h => rw [decide_eq_true h]
  · next h => rw [decide_eq_false h]

/-- The reply lets the request through. -/
def isAdmission : Except String (Bool × ℤ) → Bool
  | .ok (allowed, _) => allowed
  | .error _ => false

/-- A call of the owner with a clock in the window is admitted. -/
def letsThrough (owner : BucketOwner) (lo hi : ℚ) (e : ApiEvent) : Bool :=
  (limiterCall? owner e).any fun c => decide (lo ≤ c.1 ∧ c.1 ≤ hi) && isAdmission c.2

/-- A request of the owner that has read its clock in the window asks an upstream service. -/
def sends (owner : BucketOwner) (lo hi : ℚ) : ApiEvent → Bool
  | (_, .cmd _ request (.upstream _) _) => decide (request.owner = owner ∧ lo ≤ request.time ∧ request.time ≤ hi)
  | _ => false

theorem of_sends {lo hi : ℚ} {e : ApiEvent} (h : sends owner lo hi e = true) :
    ∃ t i request q o, e = (t, .cmd i request (.upstream q) o) ∧ request.owner = owner ∧
      lo ≤ request.time ∧ request.time ≤ hi := by
  unfold sends at h
  split at h
  · next t i request q o => exact ⟨t, i, request, q, o, rfl, of_decide_eq_true h⟩
  · exact absurd h (by simp)

/-- **What is sent has been admitted.** -/
theorem paid_sends {pre post : List ApiEvent} {e : ApiEvent} {lo hi : ℚ} (hr : limitedApi.Run es s)
    (hes : es = pre ++ e :: post) (he : sends owner lo hi e = true) :
    Paid (letsThrough owner lo hi) (sends owner lo hi) (fun e => e.2.index) (es.countP (letsThrough owner lo hi)) pre e := by
  obtain ⟨t, i, request, q, o, rfl, rfl, hwindow⟩ := of_sends he
  obtain ⟨s₀, th, h₀, hth, rfl, hrule, hpassed⟩ := dispatch_limited.guarded_timed (hes ▸ hr)
  obtain ⟨n, hown⟩ := hpassed.resolve_left (by simp)
  obtain ⟨pre₁, t', o', pre₂, rfl, hseen, hstart⟩ := exists_split_of_mem_ownOps h₀ i th hth _ hown
  obtain rfl := Outcome.eq_of_seen hseen
  have hpasses : letsThrough th.call.owner lo hi (t', .cmd i th.call th.call.bucketCall (.ok (.ok (true, n)))) =
      true := by
    unfold letsThrough
    rw [limiterCall?_bucketCall rfl]
    simpa [isAdmission] using hwindow
  refine ⟨pre₁, _, pre₂, rfl, hpasses, ?_, rfl, ?_⟩
  · rw [hes, List.append_assoc, List.countP_append, List.cons_append, List.countP_cons, if_pos hpasses]
    omega
  · -- a request asks an upstream service only once
    intro e' he' hsends hindex
    obtain ⟨t₂, j, request, q', o₂, rfl, -⟩ := of_sends hsends
    obtain rfl : j = i := hindex
    obtain ⟨post₁, post₂, rfl⟩ := List.append_of_mem he'
    refine hrule ⟨.upstream q', o₂.seen⟩ ?_ q' rfl
    rw [← List.cons_append, ← List.append_assoc]
    exact mem_ownOps_of_split fun t' call' hmem =>
      hstart t' call' (List.mem_append_right _ (List.mem_cons_of_mem _ hmem))

theorem bucketAnswers_fst (rate burst : ℚ) (nows : List ℚ) : ∀ b : Bucket ℚ,
    (bucketAnswers rate burst b nows).map Prod.fst = b.serve rate burst nows := by
  induction nows with
  | nil => exact fun b => rfl
  | cons now nows ih =>
    intro b
    rw [bucketAnswers, List.map_cons, ih, Bucket.serve, replyTo_fst]
    have hserved : decide (1 ≤ (b.advance rate burst now).level) = (b.call rate burst now).2 :=
      Bool.eq_iff_iff.mpr (decide_eq_true_iff.trans Bucket.call_served_iff.symm)
    rw [hserved]

/-- What the limiter has admitted in the window. -/
theorem countP_letsThrough (hr : limitedApi.Run es s) (hnear : ClocksNear owner es) (lo hi : ℚ) {t : ℚ}
    (hchain : (t :: limiterClocks owner es).IsChain (· ≤ ·)) :
    es.countP (letsThrough owner lo hi) = (⟨owner.burst, t⟩ : Bucket ℚ).countServed owner.rate owner.burst
      (fun t => lo ≤ t ∧ t ≤ hi) (limiterClocks owner es) := by
  have hnone : TracksHash owner.rate owner.burst none ⟨owner.burst, t⟩ := tracks_none owner.rate_pos.le t
  have hserve : (⟨owner.burst, t⟩ : Bucket ℚ).serve owner.rate owner.burst (limiterClocks owner es) =
      (lastingAnswers owner.rate owner.burst none (limiterClocks owner es)).map Prod.fst := by
    rw [lastingAnswers_eq_bucketAnswers owner.rate_pos.le _ _ _ hnone hchain, bucketAnswers_fst]
  have hzip : limiterCalls owner es = (limiterClocks owner es).zip ((limiterCalls owner es).map Prod.snd) := by
    rw [limiterClocks, List.zip_map', List.map_id']
  calc es.countP (letsThrough owner lo hi)
      = (limiterCalls owner es).countP
          (fun c => decide (lo ≤ c.1 ∧ c.1 ≤ hi) && isAdmission c.2) := by
        rw [limiterCalls, List.countP_filterMap]
        refine List.countP_congr fun e _ => ?_
        unfold letsThrough
        cases limiterCall? owner e <;> rfl
    _ = _ := by
        rw [hzip, (limits_of_run hr hnear).replies, Bucket.countServed, hserve, List.zip_map_right,
          List.zip_map_right, List.countP_map, List.countP_map]
        rfl

/-- **The rate limit bounds what is forwarded.** If the clocks that the owner's calls pass are near that of Redis
and do not go back, at most the burst and the refill of a window are forwarded in it. -/
theorem sent_le (owner : BucketOwner) (es : List ApiEvent)
    (s : ℚ × Pool Await AwaitReply ApiRequest (fun _ => ApiResponse) Backends) (hr : limitedApi.Run es s)
    (hnear : ClocksNear owner es) (hsorted : (limiterClocks owner es).Pairwise (· ≤ ·)) {lo hi : ℚ}
    (hlohi : lo ≤ hi) :
    (es.countP (sends owner lo hi) : ℚ) ≤ owner.burst + owner.rate * (hi - lo) := by
  obtain ⟨t, hchain⟩ := exists_isChain_cons hsorted
  have hburst : 0 ≤ owner.burst := zero_le_one.trans owner.one_le_burst
  calc (es.countP (sends owner lo hi) : ℚ) ≤ es.countP (letsThrough owner lo hi) :=
        Nat.cast_le.mpr (countP_le_of_paid fun pre e post hes he => paid_sends hr hes he)
    _ = _ := congrArg Nat.cast (countP_letsThrough hr hnear lo hi hchain)
    _ ≤ owner.burst + owner.rate * (hi - lo) :=
        Bucket.countServed_between_le owner.rate_pos.le hburst hlohi _ _ hburst hchain

/-! ### A guest in a hurry -/

/-- A search of a guest, by a gateway whose clock is 25 minutes late. -/
def hastyRequest (n : ℕ) : ℚ × ApiRequest :=
  (2000 + n, { (guestRequest (.search_properties []) n).2 with time := 500 + n })

/-- The owner of its bucket. -/
def guestOwner : BucketOwner := ⟨guestTally.user_id, .anonymous⟩

/-- Seven of them, a second apart. -/
def hastySearches : List ApiEvent :=
  timedSession backends ApiRequest.dispatch ((List.range 7).map hastyRequest) .blank

theorem run_hastySearches : ∃ s, limitedApi.Run hastySearches s := by
  have hchain : List.IsChain (· ≤ ·) (0 :: ((List.range 7).map hastyRequest).map Prod.fst) := by
    decide +kernel
  obtain ⟨t, hr⟩ : ∃ t, limitedApi.Run hastySearches (t, _) := run_timedSession _ (fun _ => rfl) hchain
  exact ⟨_, hr⟩

theorem clocksNear_hastySearches : ClocksNear guestOwner hastySearches := by
  unfold ClocksNear
  decide +kernel

theorem limiter_replies_hastySearches : ∃ s, limitedApi.Run hastySearches s ∧
    (limiterCalls guestOwner hastySearches).map Prod.snd = (lastingAnswers guestOwner.rate guestOwner.burst none
      (limiterClocks guestOwner hastySearches)).map .ok := by
  obtain ⟨s, hr⟩ := run_hastySearches
  exact ⟨s, hr, limiter_replies _ _ s hr clocksNear_hastySearches⟩

/-- Five are let through and forwarded, two are not. -/
theorem sent_le_hastySearches : hastySearches.countP (sends guestOwner 500 506) = 5 ∧
    (hastySearches.countP (sends guestOwner 500 506) : ℚ) ≤
      guestOwner.burst + guestOwner.rate * (506 - 500) := by
  obtain ⟨s, hr⟩ := run_hastySearches
  have hsorted : (limiterClocks guestOwner hastySearches).Pairwise (· ≤ ·) := by decide +kernel
  exact ⟨by decide +kernel, sent_le _ _ s hr clocksNear_hastySearches hsorted (by decide +kernel)⟩

end Legacy

end TaxlienGateway
