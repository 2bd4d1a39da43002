import TaxlienGateway.Legacy.RateLimit

/-!
# Tiers and daily usage in the legacy gateway

`legacy/app/models/auth.py` and `legacy/app/services/usage.py`. A caller's requests to a feature are
counted under a key for the day; the key is created by the first `INCR`, which gives it a day to
live. A limit of `-1` means unlimited, and a missing limit is a limit of `0`.
-/

namespace TaxlienGateway

namespace Legacy

inductive UserTier where
  | anonymous
  | free
  | starter
  | premium
  | enterprise
  | internal
  deriving DecidableEq

/-- `tier.value` -/
def UserTier.value : UserTier → String
  | anonymous => "anonymous"
  | free => "free"
  | starter => "starter"
  | premium => "premium"
  | enterprise => "enterprise"
  | internal => "internal"

/-- `TIER_LIMITS` -/
def tierLimits : List (UserTier × List (String × ℤ)) :=
  [(.anonymous, [("daily_search", 5), ("daily_details", 10)]),
    (.free, [("daily_search", 20), ("daily_details", 50)]),
    (.starter, [("daily_search", 1000), ("daily_details", 2000)]),
    (.premium, [("daily_search", -1), ("daily_details", -1)]),
    (.internal, [("daily_search", -1), ("daily_details", -1)])]

/-- `TIER_LIMITS.get(tier, {}).get(feature, 0)` -/
def limitFor (tier : UserTier) (feature : String) : ℤ :=
  (((tierLimits.lookup tier).getD []).lookup feature).getD 0

/-- A usage key. -/
structure Counter where
  value : ℕ
  expireAt : ℚ

/-- The key as a command at time `now` finds it. -/
def liveCounter (now : ℚ) (key : Option Counter) : Option Counter :=
  key.filter fun c => now ≤ c.expireAt

/-- `INCR key`, and `EXPIRE key 86400` if the counter has just been created. -/
def increment (now : ℚ) (key : Option Counter) : Counter :=
  match liveCounter now key with
  | none => ⟨1, now + 86400⟩
  | some c => ⟨c.value + 1, c.expireAt⟩

theorem increment_of_none {now : ℚ} {key : Option Counter} (h : liveCounter now key = none) :
    increment now key = ⟨1, now + 86400⟩ := by
  unfold increment
  rw [h]

theorem increment_of_some {now : ℚ} {key : Option Counter} {c : Counter}
    (h : liveCounter now key = some c) : increment now key = ⟨c.value + 1, c.expireAt⟩ := by
  unfold increment
  rw [h]

/-- `UsageTracker.check_and_increment`, on the key of its user, feature and date. -/
def checkAndIncrement (tier : UserTier) (feature : String) (now : ℚ) (key : Option Counter) :
    Option Counter × Bool :=
  let limit := limitFor tier feature
  -- neither of these two counts the request
  if limit = -1 then (key, true)
  else if limit = 0 then (key, false)
  else (some (increment now key), (increment now key).value ≤ limit)

/-- The day a time belongs to, `datetime.date.today()`. -/
def dayOf (now : ℚ) : ℤ := ⌊now / 86400⌋

/-- A counter created on a day lives to the end of it. -/
theorem lt_of_dayOf_eq {t now : ℚ} (h : dayOf t = dayOf now) : now < t + 86400 := by
  have hlt : now / 86400 < dayOf now + 1 := Int.lt_floor_add_one _
  have hle : (dayOf t : ℚ) ≤ t / 86400 := Int.floor_le _
  rw [h] at hle
  linarith

/-! ### Quotas -/

/-- How many of `n` requests a daily limit lets through. -/
def quota (limit : ℤ) (n : ℕ) : ℕ := if limit = -1 then n else min n limit.toNat

theorem quota_zero (limit : ℤ) : quota limit 0 = 0 := by
  unfold quota
  split
  · rfl
  · exact Nat.zero_min _

/-- A quota grows with the limit and with the requests; `-1` is the largest limit. -/
theorem quota_le_quota {limit limit' : ℤ} {n n' : ℕ}
    (hlimit : limit' = -1 ∨ limit ≠ -1 ∧ limit ≤ limit') (hn : n ≤ n') :
    quota limit n ≤ quota limit' n' := by
  unfold quota
  rcases hlimit with rfl | ⟨hne, hle⟩
  · rw [if_pos rfl]
    split
    · exact hn
    · exact (min_le_left _ _).trans hn
  · rw [if_neg hne]
    split
    · exact (min_le_left _ _).trans hn
    · exact min_le_min hn (Int.toNat_le_toNat hle)

/-- A key of day `d` under a positive limit has counted `n` requests, and lives to the end of the
day. Under other limits nothing is counted, or nothing passes. -/
def Counted (limit : ℤ) (d : ℤ) (n : ℕ) (key : Option Counter) : Prop :=
  0 < limit → match key with
    | none => n = 0
    | some c => c.value = n ∧ ∀ now, dayOf now = d → now ≤ c.expireAt

theorem counted_none (limit d : ℤ) : Counted limit d 0 none := fun _ => rfl

theorem increment_counted {limit : ℤ} {n : ℕ} {now : ℚ} {key : Option Counter} (hpos : 0 < limit)
    (h : Counted limit (dayOf now) n key) :
    (increment now key).value = n + 1 ∧
      ∀ t, dayOf t = dayOf now → t ≤ (increment now key).expireAt := by
  cases key with
  | none =>
    obtain rfl : n = 0 := h hpos
    exact ⟨rfl, fun t ht => (lt_of_dayOf_eq ht.symm).le⟩
  | some c =>
    obtain ⟨hvalue, hlives⟩ := h hpos
    -- the counter was created on this day, so it is still there
    have hlive : liveCounter now (some c) = some c := by
      unfold liveCounter
      rw [Option.filter_some, if_pos (decide_eq_true (hlives now rfl))]
    rw [increment_of_some hlive]
    exact ⟨congrArg (· + 1) hvalue, hlives⟩

/-- **One request that reaches the daily limit** uses up one more of the quota. -/
theorem checkAndIncrement_counted {tier : UserTier} {feature : String} {n : ℕ} {now : ℚ}
    {key : Option Counter} (h : Counted (limitFor tier feature) (dayOf now) n key) :
    (checkAndIncrement tier feature now key).2.toNat + quota (limitFor tier feature) n =
        quota (limitFor tier feature) (n + 1) ∧
      Counted (limitFor tier feature) (dayOf now) (n + 1)
        (checkAndIncrement tier feature now key).1 := by
  unfold checkAndIncrement quota
  generalize limitFor tier feature = limit at h
  by_cases hunlimited : limit = -1
  · -- unlimited: every request passes
    subst hunlimited
    refine ⟨?_, fun hpos => absurd hpos (by decide)⟩
    simp only [↓reduceIte, Bool.toNat_true]
    exact add_comm 1 n
  · simp only [hunlimited, ↓reduceIte]
    by_cases hzero : limit = 0
    · -- a limit of 0: none passes
      subst hzero
      refine ⟨?_, fun hpos => absurd hpos (lt_irrefl 0)⟩
      simp only [↓reduceIte, Bool.toNat_false, Int.toNat_zero, Nat.min_zero, Nat.zero_add]
    · simp only [hzero, ↓reduceIte]
      by_cases hpos : 0 < limit
      · obtain ⟨hvalue, hlives⟩ := increment_counted hpos h
        refine ⟨?_, fun _ => ⟨hvalue, hlives⟩⟩
        rw [hvalue]
        -- the new count passes as long as it fits the limit
        by_cases hroom : ((n + 1 : ℕ) : ℤ) ≤ limit
        · rw [decide_eq_true hroom, Bool.toNat_true]
          omega
        · rw [decide_eq_false hroom, Bool.toNat_false]
          omega
      · -- any other negative limit lets nothing pass either
        refine ⟨?_, fun hpos' => absurd hpos' hpos⟩
        rw [decide_eq_false (by omega), Bool.toNat_false]
        omega

end Legacy

end TaxlienGateway
