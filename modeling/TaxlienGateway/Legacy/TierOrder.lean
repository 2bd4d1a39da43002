import TaxlienGateway.Legacy.Usage

/-!
# Paying more

A request for a property passes the rate limiter of its caller's tier first, and then the tier's
daily limit. Both have a table of tiers of their own, with a fallback for a tier that is missing:
the limits of `anonymous` in the first, a limit of 0 in the second. `enterprise` is in neither.

* `served_eq_quota` — what passes in a run is the quota of what the rate limiter admits;
* `admitted_mono` — the rate limiter admits no less in a run for a higher tier, by the comparison of
  token buckets;
* `served_mono_iff` — so a higher tier is served no less, unless it is `enterprise`.
-/

namespace TaxlienGateway

open Framework

namespace Legacy

/-- The keys of one caller. -/
structure Caller where
  bucket : Option StoredBucket
  /-- The counters of `daily_details`, by day. -/
  usage : ℤ → Option Counter

/-- Nothing in Redis. -/
def Caller.new : Caller := ⟨none, fun _ => none⟩

/-- `GET /v1/properties/{id}`: does the request pass `RateLimitMiddleware` and
`enforce_tier("daily_details")`? -/
def getProperty (tier : UserTier) (now : ℚ) (s : Caller) : Caller × Bool :=
  let (bucket, allowed, _) := isRateLimited tier.value now s.bucket
  if allowed then
    let (counter, passed) :=
      checkAndIncrement tier "daily_details" now (s.usage (dayOf now))
    (⟨bucket, Function.update s.usage (dayOf now) counter⟩, passed)
  else (⟨bucket, s.usage⟩, false)

/-- Which of the requests at the given times pass. -/
def passes (tier : UserTier) : Caller → List ℚ → List Bool
  | _, [] => []
  | s, now :: nows => (getProperty tier now s).2 :: passes tier (getProperty tier now s).1 nows

/-- How many requests of a run from empty Redis state pass. -/
def served (tier : UserTier) (nows : List ℚ) : ℕ := (passes tier .new nows).count true

/-- How many requests the rate limiter admits in such a run. -/
def admitted (tier : UserTier) (nows : List ℚ) : ℕ :=
  ((answers (limitsOf tier.value).1 (limitsOf tier.value).2 none nows).map Prod.fst).count true

/-- The subscription order; `internal` is no subscription. -/
def UserTier.rank : UserTier → ℕ
  | anonymous => 0
  | free => 1
  | starter => 2
  | premium => 3
  | enterprise => 4
  | internal => 5

/-- `lower < higher` among the subscriptions. -/
def Below (lower higher : UserTier) : Prop := lower.rank < higher.rank ∧ higher ≠ .internal

/-! ### Served requests -/

/-- A request that the rate limiter refuses. -/
theorem getProperty_of_refused {tier : UserTier} {now : ℚ} {s : Caller}
    (h : (isRateLimited tier.value now s.bucket).2.1 = false) :
    getProperty tier now s = (⟨(isRateLimited tier.value now s.bucket).1, s.usage⟩, false) := by
  unfold getProperty
  simp only [h, Bool.false_eq_true, ↓reduceIte]

/-- A request that reaches the daily limit. -/
theorem getProperty_of_allowed {tier : UserTier} {now : ℚ} {s : Caller}
    (h : (isRateLimited tier.value now s.bucket).2.1 = true) :
    getProperty tier now s =
      (⟨(isRateLimited tier.value now s.bucket).1, Function.update s.usage (dayOf now)
          (checkAndIncrement tier "daily_details" now (s.usage (dayOf now))).1⟩,
        (checkAndIncrement tier "daily_details" now (s.usage (dayOf now))).2) := by
  unfold getProperty
  simp only [h, ↓reduceIte]

theorem count_true_cons (x : Bool) (xs : List Bool) :
    (x :: xs).count true = x.toNat + xs.count true := by
  rw [List.count_cons, add_comm]
  cases x <;> rfl

/-- **What passes within a day** is the quota of what the rate limiter admits, from any state in
which the day's counter has counted the `n` requests admitted before. -/
theorem count_passes (tier : UserTier) (d : ℤ) :
    ∀ (nows : List ℚ) (s : Caller) (n : ℕ), (∀ t ∈ nows, dayOf t = d) →
      Counted (limitFor tier "daily_details") d n (s.usage d) →
      (passes tier s nows).count true + quota (limitFor tier "daily_details") n =
        quota (limitFor tier "daily_details") (n + ((answers (limitsOf tier.value).1
          (limitsOf tier.value).2 s.bucket nows).map Prod.fst).count true) := by
  intro nows
  induction nows with
  | nil => exact fun s n _ _ => Nat.zero_add _
  | cons now nows ih =>
    intro s n hday hcounted
    have hrest : ∀ t ∈ nows, dayOf t = d := fun t ht => hday t (List.mem_cons_of_mem _ ht)
    obtain rfl : dayOf now = d := hday now List.mem_cons_self
    have hcheck : check (limitsOf tier.value).1 (limitsOf tier.value).2 1 now s.bucket =
      isRateLimited tier.value now s.bucket := rfl
    rw [passes, answers, hcheck, List.map_cons, count_true_cons, count_true_cons]
    cases hallowed : (isRateLimited tier.value now s.bucket).2.1 with
    | false =>
      -- the daily counter is not reached
      rw [getProperty_of_refused hallowed, Bool.toNat_false, Nat.zero_add, Nat.zero_add]
      exact ih ⟨_, s.usage⟩ n hrest hcounted
    | true =>
      -- the counter of this day counts one more, those of other days are not looked at
      obtain ⟨hpass, hcounted'⟩ := checkAndIncrement_counted hcounted
      rw [getProperty_of_allowed hallowed, Bool.toNat_true, ← Nat.add_assoc n]
      generalize checkAndIncrement tier "daily_details" now (s.usage (dayOf now)) = checked at *
      obtain ⟨counter, passed⟩ := checked
      have hkey : Counted (limitFor tier "daily_details") (dayOf now) (n + 1)
          (Function.update s.usage (dayOf now) counter (dayOf now)) := by
        rw [Function.update_self]
        exact hcounted'
      have hrun := ih ⟨(isRateLimited tier.value now s.bucket).1,
        Function.update s.usage (dayOf now) counter⟩ (n + 1) hrest hkey
      refine Eq.trans ?_ hrun
      rw [← hpass, Nat.add_right_comm, Nat.add_comm _ (List.count _ _)]

/-- **Served requests of a run within one day.** -/
theorem served_eq_quota (tier : UserTier) {d : ℤ} {nows : List ℚ} (hday : ∀ t ∈ nows, dayOf t = d) :
    served tier nows = quota (limitFor tier "daily_details") (admitted tier nows) := by
  have h := count_passes tier d nows .new 0 hday (counted_none _ d)
  rw [quota_zero, Nat.add_zero, Nat.zero_add] at h
  exact h

/-! ### Two tiers -/

/-- The rate limiter admits no less with a higher rate and a larger burst. -/
theorem admitted_mono {lower higher : UserTier}
    (hrate : (limitsOf lower.value).1 ≤ (limitsOf higher.value).1)
    (hburst : (limitsOf lower.value).2 ≤ (limitsOf higher.value).2) {nows : List ℚ}
    (hmono : nows.Pairwise (· ≤ ·)) : admitted lower nows ≤ admitted higher nows := by
  obtain ⟨hpos, -, hfull⟩ := limitsOf_spec lower.value
  obtain ⟨hpos', -, hfull'⟩ := limitsOf_spec higher.value
  obtain ⟨t, hchain⟩ := exists_isChain_cons hmono
  have hcount := Bucket.count_serve_mono hrate hburst nows ⟨(limitsOf lower.value).2, t⟩
    ⟨(limitsOf higher.value).2, t⟩ 0 0 rfl hchain (le_refl 0) (add_le_add_right hburst _)
  unfold admitted
  rw [answers_none hpos.le hfull hchain, answers_none hpos'.le hfull' hchain]
  rwa [Nat.zero_add, Nat.zero_add] at hcount

/-- The tables are ordered as the subscriptions are, as far as these are in them. -/
theorem limits_mono {lower higher : UserTier} (h : Below lower higher)
    (hent : higher ≠ .enterprise) :
    (limitsOf lower.value).1 ≤ (limitsOf higher.value).1 ∧
      (limitsOf lower.value).2 ≤ (limitsOf higher.value).2 ∧
      (limitFor higher "daily_details" = -1 ∨ limitFor lower "daily_details" ≠ -1 ∧
        limitFor lower "daily_details" ≤ limitFor higher "daily_details") := by
  -- the tables are finite: each pair of tiers is looked up
  obtain ⟨hrank, hint⟩ := h
  revert hrank hint hent
  cases lower <;> cases higher <;> decide +kernel

/-- `enterprise` is not in `TIER_LIMITS`: nothing passes. -/
theorem served_enterprise {d : ℤ} {nows : List ℚ} (hday : ∀ t ∈ nows, dayOf t = d) :
    served .enterprise nows = 0 := by
  have hlimit : limitFor .enterprise "daily_details" = 0 := by decide
  rw [served_eq_quota .enterprise hday, hlimit]
  exact Nat.min_zero _

/-- The first request passes in every tier below `enterprise`. -/
theorem served_singleton {lower : UserTier} (h : Below lower .enterprise) (now : ℚ) :
    served lower [now] = 1 := by
  have hday : ∀ t ∈ [now], dayOf t = dayOf now := by simp
  have hquota : quota (limitFor lower "daily_details") 1 = 1 := by
    obtain ⟨hrank, hint⟩ := h
    revert hrank
    cases lower <;> decide
  have hadmitted : admitted lower [now] = 1 := by
    obtain ⟨-, hburst, -⟩ := limitsOf_spec lower.value
    have hle : 1 ≤ newTokens ((live now none).map StoredBucket.hash) now (limitsOf lower.value).1
        (limitsOf lower.value).2 := hburst.trans_eq newTokens_none.symm
    unfold admitted
    rw [answers, answers, List.map_cons, List.map_nil, (check_of_le hle).1]
    rfl
  rw [served_eq_quota lower hday, hadmitted, hquota]

/-- **Paying more never gets less**, exactly when the higher tier is not `enterprise` or there is no
request at all. -/
theorem served_mono_iff {lower higher : UserTier} (hbelow : Below lower higher) {d : ℤ}
    {nows : List ℚ} (hmono : nows.Pairwise (· ≤ ·)) (hday : ∀ t ∈ nows, dayOf t = d) :
    (∀ n, served lower (nows.take n) ≤ served higher (nows.take n)) ↔
      higher ≠ .enterprise ∨ nows = [] := by
  constructor
  · intro h
    by_contra hneither
    obtain ⟨hent, hne⟩ := not_or.mp hneither
    obtain rfl := not_not.mp hent
    -- the first request tells `enterprise` from every other tier
    obtain ⟨now, nows, rfl⟩ := List.exists_cons_of_ne_nil hne
    have hday' : ∀ t ∈ [now], dayOf t = d := fun t ht =>
      hday t (List.mem_singleton.mp ht ▸ List.mem_cons_self)
    have hfirst := h 1
    rw [List.take_succ_cons, List.take_zero, served_singleton hbelow now,
      served_enterprise hday'] at hfirst
    exact absurd hfirst (by decide)
  · rintro (hent | rfl) n
    · have hday' : ∀ t ∈ nows.take n, dayOf t = d := fun t ht => hday t (List.mem_of_mem_take ht)
      obtain ⟨hrate, hburst, hlimit⟩ := limits_mono hbelow hent
      rw [served_eq_quota lower hday', served_eq_quota higher hday']
      exact quota_le_quota hlimit
        (admitted_mono hrate hburst (hmono.sublist (List.take_sublist n nows)))
    · rw [List.take_nil]
      exact le_refl _

theorem served_mono_free :
    served .anonymous ([0, 0, 1].take 2) ≤ served .free ([0, 0, 1].take 2) := by
  have hbelow : Below .anonymous .free := by
    unfold Below
    decide
  have hmono : ([0, 0, 1] : List ℚ).Pairwise (· ≤ ·) := by norm_num [List.pairwise_cons]
  have hday : ∀ t ∈ ([0, 0, 1] : List ℚ), dayOf t = 0 := by decide +kernel
  exact (served_mono_iff hbelow hmono hday).mpr (.inl (by decide)) 2

/-- The first request of a `premium` caller passes, the one of an `enterprise` caller does not. -/
theorem enterprise_served_less :
    Below .premium .enterprise ∧ ¬ served .premium [0] ≤ served .enterprise [0] := by
  have hbelow : Below .premium .enterprise := by
    unfold Below
    decide
  have hday : ∀ t ∈ ([0] : List ℚ), dayOf t = dayOf 0 := by simp
  refine ⟨hbelow, ?_⟩
  rw [served_singleton hbelow 0, served_enterprise hday]
  decide

end Legacy

end TaxlienGateway
