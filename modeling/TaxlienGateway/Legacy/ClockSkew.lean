import TaxlienGateway.Legacy.RateLimit

/-!
# The rate limiter under clocks that disagree

`now` comes from the calling process, so several gateways may pass it out of order. The script guards
the refill of one call, `math.max(0, now - last_updated)`, but writes `now` to `updated_at`
unguarded: an admitted call from the past takes the bucket back in time, and the time since is
refilled again.

* `noRefillTwice_iff` — no interval is refilled twice in a run if and only if no call from the past
  is admitted in it (`PastRefused`);
* `updated_at_not_monotone` — a run that refills ten seconds twice.

The key does not expire during a run, and a call may request any number of tokens.
-/

namespace TaxlienGateway

namespace Legacy

/-- The arguments of a call that differ from call to call. -/
structure ScriptCall where
  now : ℚ
  requested : ℚ

variable (rate burst : ℚ)

/-- The hash after a call. -/
def step (state : Option BucketHash) (c : ScriptCall) : Option BucketHash :=
  match (tokenBucketLua state c.now rate burst c.requested).1 with
  | some hash => some hash
  | none => state

/-- The tokens that the refill of a call adds to the stored ones: none if nothing is written. -/
def credit (state : Option BucketHash) (c : ScriptCall) : ℚ :=
  match (tokenBucketLua state c.now rate burst c.requested).1 with
  | some _ => newTokens state c.now rate burst - (state.map BucketHash.tokens).getD burst
  | none => 0

/-- The hash after a run, which starts without one. -/
def after (calls : List ScriptCall) : Option BucketHash := calls.foldl (step rate burst) none

/-- The tokens credited by the refills of a run. -/
def credited (calls : List ScriptCall) : ℚ :=
  (calls.foldl (fun (s, total) c => (step rate burst s c, total + credit rate burst s c))
    ((none, 0) : Option BucketHash × ℚ)).2

/-- The stored `updated_at` never decreases. -/
def KeepsTime (calls : List ScriptCall) : Prop :=
  ∀ pre c post, calls = pre ++ c :: post → ∀ h ∈ after rate burst pre,
    ∀ h' ∈ after rate burst (pre ++ [c]), h.updated_at ≤ h'.updated_at

/-- No time interval is refilled twice: `updated_at` never decreases, and no more is credited than
the time that all the clocks showed is worth. -/
def NoRefillTwice (calls : List ScriptCall) : Prop :=
  KeepsTime rate burst calls ∧ ∀ lo hi, lo ≤ hi → (∀ c ∈ calls, lo ≤ c.now ∧ c.now ≤ hi) →
    credited rate burst calls ≤ rate * (hi - lo)

/-- A call from the past of the bucket finds fewer tokens than it requests. -/
def PastRefused (calls : List ScriptCall) : Prop :=
  ∀ pre c post, calls = pre ++ c :: post → ∀ h ∈ after rate burst pre,
    c.now < h.updated_at → min burst h.tokens < c.requested

variable {rate burst} {state : Option BucketHash} {c : ScriptCall} {calls : List ScriptCall}

/-! ### One call -/

/-- A call from the past is not refilled. -/
theorem newTokens_past {h : BucketHash} {now : ℚ} (hpast : now < h.updated_at) :
    newTokens (some h) now rate burst = min burst h.tokens := by
  unfold newTokens
  simp only [Option.map_some, Option.getD_some]
  rw [max_eq_left (sub_nonpos.mpr hpast.le), zero_mul, add_zero]

theorem step_of_le (h : c.requested ≤ newTokens state c.now rate burst) :
    step rate burst state c = some ⟨newTokens state c.now rate burst - c.requested, c.now⟩ ∧
      credit rate burst state c =
        newTokens state c.now rate burst - (state.map BucketHash.tokens).getD burst := by
  unfold step credit tokenBucketLua
  simp only [h, ↓reduceIte, and_self]

theorem step_of_lt (h : newTokens state c.now rate burst < c.requested) :
    step rate burst state c = state ∧ credit rate burst state c = 0 := by
  unfold step credit tokenBucketLua
  simp only [not_le.mpr h, ↓reduceIte, and_self]

/-- The credit of a call that is not from the past is at most what the time since is worth. -/
theorem credit_le {h : BucketHash} (hnow : h.updated_at ≤ c.now)
    (hle : c.requested ≤ newTokens (some h) c.now rate burst) :
    credit rate burst (some h) c ≤ rate * (c.now - h.updated_at) := by
  have hnew : newTokens (some h) c.now rate burst ≤ h.tokens + rate * (c.now - h.updated_at) :=
    (newTokens_some hnow).trans_le (min_le_right _ _)
  rw [(step_of_le hle).2, Option.map_some, Option.getD_some]
  calc newTokens (some h) c.now rate burst - h.tokens
      ≤ h.tokens + rate * (c.now - h.updated_at) - h.tokens := sub_le_sub_right hnew _
    _ = rate * (c.now - h.updated_at) := add_sub_cancel_left _ _

/-! ### A run, call by call -/

theorem after_append_singleton (rate burst : ℚ) (calls : List ScriptCall) (c : ScriptCall) :
    after rate burst (calls ++ [c]) = step rate burst (after rate burst calls) c := by
  unfold after
  rw [List.foldl_append, List.foldl_cons, List.foldl_nil]

theorem credited_append_singleton (calls : List ScriptCall) (c : ScriptCall) :
    credited rate burst (calls ++ [c]) =
      credited rate burst calls + credit rate burst (after rate burst calls) c := by
  have hfst : ∀ (calls : List ScriptCall) (s : Option BucketHash) (total : ℚ),
      (calls.foldl (fun (s, total) c => (step rate burst s c, total + credit rate burst s c))
        (s, total)).1 = calls.foldl (step rate burst) s := by
    intro calls
    induction calls with
    | nil => exact fun _ _ => rfl
    | cons c calls ih => exact fun _ _ => ih _ _
  unfold credited after
  rw [List.foldl_append, List.foldl_cons, List.foldl_nil, ← hfst calls none 0]

theorem pastRefused_append_singleton :
    PastRefused rate burst (calls ++ [c]) ↔
      PastRefused rate burst calls ∧ ∀ hash ∈ after rate burst calls,
        c.now < hash.updated_at → min burst hash.tokens < c.requested := by
  constructor
  · intro h
    refine ⟨fun pre d post hsplit => ?_, h calls c [] rfl⟩
    exact h pre d (post ++ [c]) (by rw [hsplit, List.append_assoc, List.cons_append])
  · rintro ⟨hcalls, hc⟩ pre d post hsplit
    rcases List.eq_nil_or_concat post with rfl | ⟨post, d', rfl⟩
    · -- the last call of the run
      obtain ⟨rfl, hd⟩ := List.append_inj' hsplit rfl
      obtain rfl := (List.cons.inj hd).1
      exact hc
    · rw [List.concat_eq_append, ← List.cons_append, ← List.append_assoc] at hsplit
      exact hcalls pre d post (List.append_inj' hsplit rfl).1

/-- **What one call can do** when calls from the past are refused: nothing, or write its own `now`,
which is not before the `updated_at` that it found. -/
theorem step_cases (h : ∀ hash ∈ state, c.now < hash.updated_at → min burst hash.tokens < c.requested) :
    (step rate burst state c = state ∧ credit rate burst state c = 0) ∨
    (∃ tokens, step rate burst state c = some ⟨tokens, c.now⟩ ∧
      (state = none ∧ credit rate burst state c = 0 ∨
        ∃ hash, state = some hash ∧ hash.updated_at ≤ c.now ∧
          credit rate burst state c ≤ rate * (c.now - hash.updated_at))) := by
  by_cases hle : c.requested ≤ newTokens state c.now rate burst
  · right
    refine ⟨_, (step_of_le hle).1, ?_⟩
    cases state with
    | none =>
      -- the first call finds a full bucket and refills nothing
      refine .inl ⟨rfl, ?_⟩
      rw [(step_of_le hle).2, newTokens_none]
      exact sub_self _
    | some hash =>
      -- an admitted call from the past would contradict the hypothesis
      have hnow : hash.updated_at ≤ c.now := by
        by_contra hpast
        have hpast := not_le.mp hpast
        rw [newTokens_past hpast] at hle
        exact absurd (h hash rfl hpast) (not_lt.mpr hle)
      exact .inr ⟨hash, rfl, hnow, credit_le hnow hle⟩
  · exact .inl (step_of_lt (not_le.mp hle))

/-- **The credit of a run** in which calls from the past are refused, up to its `updated_at`. -/
theorem credited_le {lo hi : ℚ} (hrate : 0 ≤ rate) (h : PastRefused rate burst calls)
    (hspan : ∀ c ∈ calls, lo ≤ c.now ∧ c.now ≤ hi) :
    (after rate burst calls = none → credited rate burst calls = 0) ∧
      ∀ hash ∈ after rate burst calls, hash.updated_at ≤ hi ∧
        credited rate burst calls ≤ rate * (hash.updated_at - lo) := by
  induction calls using List.reverseRecOn with
  | nil => exact ⟨fun _ => rfl, fun hash hhash => absurd hhash (by simp [after])⟩
  | append_singleton calls c ih =>
    obtain ⟨hcalls, hc⟩ := pastRefused_append_singleton.mp h
    obtain ⟨hnone, hsome⟩ := ih hcalls fun d hd => hspan d (List.mem_append_left _ hd)
    obtain ⟨hlo, hhi⟩ := hspan c (List.mem_append_right _ List.mem_cons_self)
    rw [after_append_singleton, credited_append_singleton]
    rcases step_cases hc with ⟨hstep, hcredit⟩ | ⟨tokens, hstep, hcredit⟩
    · -- nothing is written
      rw [hstep, hcredit, add_zero]
      exact ⟨hnone, hsome⟩
    · -- a call that is served writes its own time
      rw [hstep]
      refine ⟨fun habs => absurd habs (by simp), fun hash hhash => ?_⟩
      obtain rfl : (⟨tokens, c.now⟩ : BucketHash) = hash := Option.some.inj hhash
      refine ⟨hhi, ?_⟩
      rcases hcredit with ⟨hbefore, hcredit⟩ | ⟨before, hbefore, hnow, hcredit⟩
      · rw [hnone hbefore, hcredit, add_zero]
        exact mul_nonneg hrate (sub_nonneg.mpr hlo)
      · -- the intervals up to `before` and from there to `now` do not overlap
        have hsum := (hsome before hbefore).2
        calc credited rate burst calls + credit rate burst (after rate burst calls) c
            ≤ rate * (before.updated_at - lo) + rate * (c.now - before.updated_at) :=
              add_le_add hsum hcredit
          _ = rate * (c.now - lo) := by ring

/-! ### The law -/

theorem keepsTime_of_pastRefused (h : PastRefused rate burst calls) :
    KeepsTime rate burst calls := by
  intro pre c post hsplit hash hhash hash' hhash'
  rw [after_append_singleton] at hhash'
  rcases step_cases (h pre c post hsplit) with ⟨hstep, -⟩ | ⟨tokens, hstep, hcredit⟩
  · rw [hstep] at hhash'
    exact (Option.mem_unique hhash hhash') ▸ le_refl _
  · rw [hstep] at hhash'
    obtain rfl : (⟨tokens, c.now⟩ : BucketHash) = hash' := Option.some.inj hhash'
    rcases hcredit with ⟨hnone, -⟩ | ⟨before, hbefore, hnow, -⟩
    · rw [hnone] at hhash
      exact absurd hhash (by simp)
    · obtain rfl := Option.mem_unique hhash hbefore
      exact hnow

/-- **Exactly when no interval is refilled twice.** -/
theorem noRefillTwice_iff (rate burst : ℚ) (hrate : 0 ≤ rate) (calls : List ScriptCall) :
    NoRefillTwice rate burst calls ↔ PastRefused rate burst calls := by
  constructor
  · rintro ⟨hkeeps, -⟩ pre c post hsplit hash hhash hpast
    by_contra hle
    have hle := not_lt.mp hle
    rw [← newTokens_past hpast, ← Option.mem_def.mp hhash] at hle
    -- the call is admitted, and writes a time that lies before the stored one
    have hafter := after_append_singleton rate burst pre c
    rw [(step_of_le hle).1] at hafter
    exact absurd (hkeeps pre c post hsplit hash hhash _ hafter) (not_le.mpr hpast)
  · intro h
    refine ⟨keepsTime_of_pastRefused h, fun lo hi hlohi hspan => ?_⟩
    obtain ⟨hnone, hsome⟩ := credited_le hrate h hspan
    cases hafter : after rate burst calls with
    | none =>
      -- no call was admitted
      rw [hnone hafter]
      exact mul_nonneg hrate (sub_nonneg.mpr hlohi)
    | some hash =>
      obtain ⟨hhi, hcredit⟩ := hsome hash hafter
      have hmono : rate * (hash.updated_at - lo) ≤ rate * (hi - lo) :=
        mul_le_mul_of_nonneg_left (by linarith) hrate
      exact hcredit.trans hmono

/-- The call from the past asks for more than is left, and is refused. -/
theorem noRefillTwice_sample :
    NoRefillTwice (1 / 5) 5 [⟨0, 1⟩, ⟨10, 1⟩, ⟨0, 5⟩] := by
  refine (noRefillTwice_iff (1 / 5) 5 (by norm_num) _).mpr ?_
  have hnil : PastRefused (1 / 5) 5 [] := fun pre c post hsplit => absurd hsplit (by simp)
  have hfirst : PastRefused (1 / 5) 5 [⟨0, 1⟩] :=
    pastRefused_append_singleton.mpr ⟨hnil, by decide +kernel⟩
  have hsecond : PastRefused (1 / 5) 5 [⟨0, 1⟩, ⟨10, 1⟩] :=
    pastRefused_append_singleton.mpr ⟨hfirst, by decide +kernel⟩
  exact pastRefused_append_singleton.mpr ⟨hsecond, by decide +kernel⟩

/-- Two gateways whose clocks are ten seconds apart call in turn. -/
def twoClocks : List ScriptCall := [⟨10, 1⟩, ⟨0, 1⟩, ⟨10, 1⟩, ⟨0, 1⟩, ⟨10, 1⟩]

/-- The second call takes `updated_at` back to 0, and the ten seconds are credited twice: four tokens,
where they are worth two. -/
theorem updated_at_not_monotone :
    ¬ KeepsTime (1 / 5) 5 twoClocks ∧
      ¬ credited (1 / 5) 5 twoClocks ≤ 1 / 5 * (10 - 0) ∧ ¬ NoRefillTwice (1 / 5) 5 twoClocks := by
  have hfirst : after (1 / 5) 5 [⟨10, 1⟩] = some ⟨4, 10⟩ := by decide +kernel
  have hsecond : after (1 / 5) 5 ([⟨10, 1⟩] ++ [⟨0, 1⟩]) = some ⟨3, 0⟩ := by decide +kernel
  have hkeeps : ¬ KeepsTime (1 / 5) 5 twoClocks := by
    intro h
    have hle := h [⟨10, 1⟩] ⟨0, 1⟩ _ rfl _ hfirst _ hsecond
    exact absurd hle (by decide +kernel)
  exact ⟨hkeeps, by decide +kernel, fun h => hkeeps h.1⟩

end Legacy

end TaxlienGateway
