import TaxlienGateway.Legacy.UpstreamBound

/-!
# Refusals by a daily limit

When `enforce_tier` refuses a request. Where a tier has a limit for the feature of a route, the count of
a refused request is above it, and then every count below has been answered before, to requests of the
same tally: the counter may expire, but it starts over from one (`ranked_of_run`).

Where `TIER_LIMITS` has no entry for the tier, or none for the feature, `limitFor` is `0`, and every
request is refused. So no request of a tier is refused before one has been admitted, exactly for the
routes whose feature has an entry: `refusesOnlyAfterUse_iff`.
-/

namespace TaxlienGateway

open Framework

namespace Legacy

/-! ### Counts -/

/-- An `INCR` of a request of the tally has been answered with `m`. -/
def HasCount (q : Tally) (m : ℕ) (es : List ApiEvent) : Prop :=
  ∃ t i request o, ((t, .cmd i request (.incr q.key) o) : ApiEvent) ∈ es ∧ o.effect = some (.ok (m : ℤ)) ∧
    ∃ u ∈ request.usage?, u.tally = q ∧ u.limit ≠ 0 ∧ u.limit ≠ -1

/-- The entry of a tally's key: every count up to the one it holds has been answered. -/
def Ranked (q : Tally) (es : List ApiEvent) (entry : Option (Entry Value ℚ)) : Prop :=
  ∀ e ∈ entry, ∃ n : ℕ, e.value = .counter n ∧ ∀ m, 1 ≤ m → m ≤ n → HasCount q m es

theorem HasCount.append {q : Tally} {m : ℕ} {es : List ApiEvent} (h : HasCount q m es) (e : ApiEvent) :
    HasCount q m (es ++ [e]) := by
  obtain ⟨t, i, request, o, hmem, h⟩ := h
  exact ⟨t, i, request, o, List.mem_append_left _ hmem, h⟩

theorem Ranked.append {q : Tally} {es : List ApiEvent} {entry : Option (Entry Value ℚ)}
    (h : Ranked q es entry) (e : ApiEvent) : Ranked q (es ++ [e]) entry := by
  intro e' he'
  obtain ⟨n, hvalue, hcounts⟩ := h e' he'
  exact ⟨n, hvalue, fun m hm hmn => (hcounts m hm hmn).append e⟩

/-- What `INCR` answers, under a ranked key. -/
theorem Ranked.incr {q : Tally} {es : List ApiEvent} {s : Backends} {now : ℚ}
    (h : Ranked q es (s.redis.entries q.key)) :
    ∃ n : ℕ, incrValue (s.value? now q.key) = .ok ((n + 1 : ℕ) : ℤ) ∧
      ∀ m, 1 ≤ m → m ≤ n → HasCount q m es := by
  unfold Backends.value?
  cases hfind : s.redis.find? now q.key with
  | none =>
    -- a key that has expired starts over
    exact ⟨0, rfl, fun m hm hmn => absurd hm (by omega)⟩
  | some e =>
    obtain ⟨n, hvalue, hcounts⟩ := h e (ExpiringStore.find?_eq_some_iff.mp hfind).1
    refine ⟨n, ?_, hcounts⟩
    rw [Option.map_some, hvalue]
    rfl

/-- An `INCR` answers the next count, so the key stays ranked. -/
theorem Ranked.exec_incr {q : Tally} {es : List ApiEvent} {s s' : Backends} {now : ℚ}
    {r : Except String ℤ} (h : Ranked q es (s.redis.entries q.key))
    (hx : (backends now).exec (.incr q.key) s = (s', r)) {e : ApiEvent}
    (he : ∀ m : ℕ, r = .ok (m : ℤ) → HasCount q m (es ++ [e])) :
    Ranked q (es ++ [e]) (s'.redis.entries q.key) := by
  obtain ⟨n, hreply, hcounts⟩ := h.incr
  obtain ⟨hr, hredis⟩ := Legacy.exec_incr hx
  rw [hreply] at hr
  rcases hredis with ⟨err, herr, -⟩ | ⟨n', hn', hredis⟩
  · exact absurd (hr.symm.trans herr) (by simp)
  · obtain rfl := Except.ok.inj (hr.symm.trans hn')
    rw [hredis, ExpiringStore.entries_write_self]
    rintro entry hentry
    obtain rfl := Option.some.inj hentry
    refine ⟨n + 1, rfl, fun m hm hmn => ?_⟩
    -- the new count is this answer's, the others are older
    by_cases hlast : m = n + 1
    · exact he m (by rw [hr, hlast])
    · exact (hcounts m hm (by omega)).append _

/-- An `EXPIRE` leaves the count alone. -/
theorem Ranked.exec_expire {q : Tally} {es : List ApiEvent} {s s' : Backends} {now : ℚ} {ttl : ℕ} {r : Bool}
    (h : Ranked q es (s.redis.entries q.key))
    (hx : (backends now).exec (.expire q.key ttl) s = (s', r)) :
    Ranked q es (s'.redis.entries q.key) := by
  rw [Legacy.exec_expire hx]
  cases hfind : s.redis.find? now q.key with
  | none =>
    rw [ExpiringStore.expire_of_none hfind]
    exact h
  | some e =>
    rw [ExpiringStore.entries_expire_self hfind]
    rintro e' he'
    obtain rfl := Option.some.inj he'
    exact h e (ExpiringStore.find?_eq_some_iff.mp hfind).1

variable {es : List ApiEvent}
  {s : ℚ × Pool Await AwaitReply ApiRequest (fun _ => ApiResponse) Backends} {q : Tally}

/-- **Every count below the counter has been answered.** -/
theorem ranked_of_run (hq : ':' ∉ q.feature.toList) (hr : publicApi.Run es s) :
    Ranked q es (s.2.store.redis.entries q.key) := by
  refine dispatch_obeyed.timed_invariant (I := fun es s => Ranked q es (s.redis.entries q.key))
    ?_ ?_ ?_ hr
  · intro s hs e he
    rw [hs q.key (.inl q.isUsageKey_key)] at he
    exact absurd he (by simp)
  · exact fun es s t e ih _ => ih.append _
  · intro es s t i request c k o r s' hr ih hclock hth hrule ho hx
    by_cases hkey : c.key? = some q.key
    · obtain ⟨v, hv, hvq, hzero, ⟨rfl, hunlimited⟩ | ⟨rfl, -⟩⟩ := hrule.usage.on_key hq hkey
      · refine ih.exec_incr hx fun m hm => ?_
        subst hm
        exact ⟨t, i, request, o, by simp, ho, v, hv, hvq, hzero, hunlimited⟩
      · exact (ih.append _).exec_expire hx
    · -- a command on another key leaves the entry as it is
      rw [entries_of_exec hx hkey]
      exact ih.append _

/-! ### Refusals -/

/-- The reply of every executed `INCR` arrives. -/
def RepliesArrive (es : List ApiEvent) : Prop :=
  ∀ t i request key o, ((t, .cmd i request (.incr key) o) : ApiEvent) ∈ es →
    ∀ r, o.effect = some r → o.seen = .ok r

/-- A request of the tally has been admitted: it has seen a count within its limit. (The first count is
left out, since the guard has still to set the expiry then.) -/
def UsedBefore (q : Tally) (es : List ApiEvent) : Prop :=
  ∃ t i request o, ((t, .cmd i request (.incr q.key) o) : ApiEvent) ∈ es ∧ ∃ u ∈ request.usage?,
    u.tally = q ∧ ∃ m : ℤ, o.seen = .ok (.ok m) ∧ m ≠ 1 ∧ m ≤ u.limit

/-- The requests of a tier are refused for a feature only after one of the same caller has been admitted
on the same day. -/
def RefusesOnlyAfterUse (tier : UserTier) (feature : String) : Prop :=
  ∀ es s, publicApi.Run es s → RepliesArrive es →
    ∀ pre t i request response post, es = pre ++ (t, .finish i request response) :: post →
      request.tier = tier → response.answer = tierLimitExceeded feature →
      ∃ caller, request.caller? = some caller ∧ UsedBefore ⟨caller, feature, request.today⟩ pre

/-- Where the tier has a limit, a refused request has a count above it. -/
theorem usedBefore_of_refused {tier : UserTier} {feature : String}
    (hlimit : limitFor tier feature ≠ 0) : RefusesOnlyAfterUse tier feature := by
  rintro es s hr hreplies pre t i request response post rfl rfl hanswer
  obtain ⟨hfeature, u, hu, hends⟩ := (dispatch_obeyed.returns hr).refused feature hanswer
  -- the tally that the request was counted for
  obtain ⟨caller, hcaller, rfl⟩ : ∃ caller, request.caller? = some caller ∧
      u = ⟨⟨caller, feature, request.today⟩, request.tier⟩ := by
    unfold ApiRequest.usage? at hu
    rw [hfeature] at hu
    obtain ⟨caller, hcaller, rfl⟩ := Option.map_eq_some_iff.mp hu
    exact ⟨caller, hcaller, rfl⟩
  refine ⟨caller, hcaller, ?_⟩
  rcases hends with ⟨-, htrue⟩ | ⟨hzero, -⟩ | ⟨hunlimited, -, n, hown, hn⟩
  · exact absurd htrue (by decide)
  · exact absurd hzero hlimit
  have htwo : 2 ≤ limitFor request.tier feature := two_le_limitFor hlimit hunlimited
  have hlt : limitFor request.tier feature < n := not_le.mp (of_decide_eq_false hn.symm)
  -- when it was counted, all the lower counts had been answered
  obtain ⟨pre₁, t', o, pre₂, rfl, hseen, -⟩ := exists_split_of_finish hr hown
  have hcounted : HasCount ⟨caller, feature, request.today⟩ 2 pre₁ := by
    rw [List.append_assoc, List.cons_append] at hr
    obtain ⟨s₀, s', h₀, hx⟩ := executed_of_seen hr hseen
    have hq : ':' ∉ (Tally.mk caller feature request.today).feature.toList :=
      colon_notMem_of_limitFor_ne_zero hlimit
    obtain ⟨n', (hreply : incrValue (s₀.2.store.value? t' _) = _), hcounts⟩ :=
      (ranked_of_run hq h₀).incr
    obtain rfl := Except.ok.inj ((exec_incr hx).1.trans hreply)
    exact hcounts 2 (by decide) (by push_cast at hlt; omega)
  obtain ⟨t₂, i₂, request₂, o₂, hmem, ho₂, v, hv, htally, hzero, hunlimited⟩ := hcounted
  have hmem := List.mem_append_left
    ((t', .cmd i request (.incr (Tally.key ⟨caller, feature, request.today⟩)) o) :: pre₂) hmem
  refine ⟨t₂, i₂, request₂, o₂, hmem, v, hv, htally, 2, ?_, by decide, two_le_limitFor hzero hunlimited⟩
  exact hreplies _ _ _ _ _ (List.mem_append_left _ hmem) _ ho₂

/-! ### Features without a limit -/

/-- **A limit of 0.** No request gets further than the guard, whatever has been used. -/
theorem dispatch_of_zero {request : ApiRequest} {caller feature : String}
    (hcaller : request.caller? = some caller) (hfeature : request.route.feature? = some feature)
    (hzero : limitFor request.tier feature = 0) :
    request.dispatch = isRateLimitedAt request.time request.identifier request.tier.value >>= fun r =>
      match r with
      | .error e => .done ⟨.raised e, none⟩
      | .ok (allowed, remaining) =>
        .done ⟨if allowed then tierLimitExceeded feature else rateLimitExceeded, some remaining⟩ := by
  -- the guard refuses before it counts
  have hguard : UsageCall.checkAndIncrement ⟨⟨caller, feature, request.today⟩, request.tier⟩ =
      .done (.ok false) := by
    unfold UsageCall.checkAndIncrement UsageCall.limit
    simp only [hzero, ↓reduceIte]
    rfl
  have hendpoint : request.endpoint = .done (tierLimitExceeded feature) := by
    unfold ApiRequest.endpoint ApiRequest.enforceTier
    rw [hfeature, hcaller]
    change orFail (UsageCall.checkAndIncrement _) _ _ = _
    rw [hguard]
    rfl
  unfold ApiRequest.dispatch
  congr 1
  funext r
  cases r with
  | error e => rfl
  | ok reply =>
    obtain ⟨allowed, remaining⟩ := reply
    cases allowed with
    | false => rfl
    | true =>
      change (request.endpoint >>= _) = _
      rw [hendpoint]
      rfl

/-- The first request of a tier finds a full bucket. -/
theorem exec_tokenBucket_blank (tier : String) (key : String) (time : ℚ) :
    ∃ n, ((backends time).exec (.tokenBucket key time (limitsOf tier).1 (limitsOf tier).2 1) .blank).2 =
      .ok (true, n) := by
  have hburst : 1 ≤ newTokens none time (limitsOf tier).1 (limitsOf tier).2 := by
    rw [newTokens_none]
    exact (limitsOf_spec tier).2.1
  refine ⟨⌊newTokens none time (limitsOf tier).1 (limitsOf tier).2 - 1⌋, ?_⟩
  change (Backends.tokenBucket .blank time key time _ _ 1).2 = _
  unfold Backends.tokenBucket tokenBucketLua
  simp only [bucketState, Backends.value?, Backends.blank, ExpiringStore.find?_of_none,
    ExpiringStore.empty, Option.map_none, if_pos hburst]

/-- The first request of a guest of the given tier. -/
def firstRequest (tier : UserTier) (route : Route) : ApiRequest :=
  ⟨none, none, tier, some guestTally.user_id, none, route, guestTally.today, 0⟩

/-- Where there is no limit, the very first request is refused. -/
theorem firstRequest_refused {tier : UserTier} {route : Route} {feature : String}
    (hfeature : route.feature? = some feature) (hzero : limitFor tier feature = 0) :
    ∃ key o n s, publicApi.Run [(0, .start 0 (firstRequest tier route)),
      (0, .cmd 0 (firstRequest tier route) (.tokenBucket key 0 (limitsOf tier.value).1
        (limitsOf tier.value).2 1) o),
      (0, .finish 0 (firstRequest tier route) ⟨tierLimitExceeded feature, some n⟩)] s := by
  obtain ⟨n, hreply⟩ := exec_tokenBucket_blank tier.value
    (rateLimitKey (firstRequest tier route).identifier tier.value) 0
  have hempty : publicApi.Run [] (0, ⟨.blank, fun _ => none⟩) := .init ⟨fresh_blank, rfl⟩
  have hstart : publicApi.Run ([] ++ [(0, .start 0 (firstRequest tier route))]) _ :=
    run_started hempty (le_refl 0) rfl
  rw [dispatch_of_zero rfl hfeature hzero] at hstart
  -- the limiter lets the request through to the guard
  have hanswer : (backends 0).answer none (Await.tokenBucket
      (rateLimitKey (firstRequest tier route).identifier tier.value) 0 (limitsOf tier.value).1
      (limitsOf tier.value).2 1) .blank = (_, Outcome.ok _) := rfl
  rw [hreply] at hanswer
  have hcmd := run_answered hstart (le_refl 0) (Function.update_self ..) hanswer
  exact ⟨_, _, n, _, run_finished hcmd (le_refl 0) rfl⟩

theorem not_refusesOnlyAfterUse {tier : UserTier} {route : Route} {feature : String}
    (hfeature : route.feature? = some feature) (hzero : limitFor tier feature = 0) :
    ¬ RefusesOnlyAfterUse tier feature := by
  intro h
  obtain ⟨key, o, n, s, hr⟩ := firstRequest_refused hfeature hzero
  obtain ⟨caller, -, t, i, request, o', hmem, -⟩ :=
    h _ s hr (fun t i request key' o' hmem => absurd hmem (by simp)) [_, _] _ _ _ _ [] rfl rfl rfl
  -- nothing has been counted
  exact absurd hmem (by simp)

/-- **No refusal without use** — exactly where the tier has a limit for the feature of the route. -/
theorem refusesOnlyAfterUse_iff (tier : UserTier) (route : Route) (feature : String)
    (hfeature : route.feature? = some feature) :
    RefusesOnlyAfterUse tier feature ↔ limitFor tier feature ≠ 0 :=
  ⟨fun h hzero => not_refusesOnlyAfterUse hfeature hzero h, usedBefore_of_refused⟩

theorem refusesOnlyAfterUse_details : RefusesOnlyAfterUse .starter "daily_details" :=
  (refusesOnlyAfterUse_iff .starter (.get_property "p1") "daily_details" rfl).mpr (by decide)

/-- The first search by address of a subscriber is refused. -/
theorem starter_search_refused : ¬ RefusesOnlyAfterUse .starter "search" := by
  have hfeature : (Route.search_by_address []).feature? = some "search" := rfl
  exact not_refusesOnlyAfterUse hfeature rfl

end Legacy

end TaxlienGateway
