import Mathlib.Algebra.Order.Field.Basic
import Mathlib.Data.List.Chain
import Mathlib.Tactic.Linarith
import Mathlib.Tactic.Ring

/-!
# Token buckets

A bucket holds up to `burst` tokens and gains `rate` tokens per unit of time. A call takes one
token; it is served if there is one. `Bucket.call` is the bucket that is kept up to date at every
call, served or not: it is what an implementation that updates it lazily, or forgets it, has to be
compared with.

A run is a list of times, non-decreasing and not before the time of the bucket
(`List.IsChain (· ≤ ·) (b.time :: ts)`).

* `Bucket.count_serve_le` — the calls served from the first to the last time of a run are paid for
  by the level at its beginning and the refill since: at most `burst + rate * (last - first)`.
* `Bucket.countServed_between_le` — the same for the calls of a run between any two times.
* `Bucket.count_serve_mono` — over a whole run, a larger bucket with a higher rate serves at least
  as many calls, although it may refuse a call that the smaller one serves.

The last rests on the invariant that served calls and level together, `n + level`, never fall
behind; the number of served calls alone is not inductive.
-/

namespace Framework

/-- A bucket with `level` tokens at `time`. -/
structure Bucket (𝕜 : Type) where
  level : 𝕜
  time : 𝕜

namespace Bucket

variable {𝕜 : Type} [Field 𝕜] [LinearOrder 𝕜]

/-- The bucket refilled up to time `t`. -/
def advance (rate burst : 𝕜) (b : Bucket 𝕜) (t : 𝕜) : Bucket 𝕜 :=
  ⟨min burst (b.level + rate * (t - b.time)), t⟩

/-- A call at time `t`, and whether it is served. -/
def call (rate burst : 𝕜) (b : Bucket 𝕜) (t : 𝕜) : Bucket 𝕜 × Bool :=
  if 1 ≤ (b.advance rate burst t).level then (⟨(b.advance rate burst t).level - 1, t⟩, true)
  else (b.advance rate burst t, false)

/-- Which of the calls at the given times are served. -/
def serve (rate burst : 𝕜) : Bucket 𝕜 → List 𝕜 → List Bool
  | _, [] => []
  | b, t :: ts => (b.call rate burst t).2 :: serve rate burst (b.call rate burst t).1 ts

/-- The bucket after calls at the given times. -/
def after (rate burst : 𝕜) (b : Bucket 𝕜) (ts : List 𝕜) : Bucket 𝕜 :=
  ts.foldl (fun b t => (b.call rate burst t).1) b

variable {rate burst rate' burst' : 𝕜} {b b' : Bucket 𝕜} {t : 𝕜} {ts : List 𝕜}

/-! ### One call -/

@[simp] theorem advance_time : (b.advance rate burst t).time = t := rfl

theorem advance_level_le : (b.advance rate burst t).level ≤ burst := min_le_left _ _

@[simp] theorem call_time : (b.call rate burst t).1.time = t := by
  unfold call
  split <;> rfl

/-- **Accounting.** A call gives away what it takes out of the bucket. -/
theorem call_level [IsStrictOrderedRing 𝕜] (rate burst : 𝕜) (b : Bucket 𝕜) (t : 𝕜) :
    (b.call rate burst t).1.level + ((b.call rate burst t).2.toNat : 𝕜) =
      (b.advance rate burst t).level := by
  unfold call
  split
  · simp
  · simp

theorem call_served_iff : (b.call rate burst t).2 = true ↔ 1 ≤ (b.advance rate burst t).level := by
  unfold call
  split
  · next h => simp [h]
  · next h => simp [h]

theorem serve_append (xs ys : List 𝕜) : ∀ b : Bucket 𝕜,
    b.serve rate burst (xs ++ ys) =
      b.serve rate burst xs ++ (b.after rate burst xs).serve rate burst ys := by
  induction xs with
  | nil => exact fun b => rfl
  | cons t xs ih => exact fun b => congrArg (_ :: ·) (ih _)

/-! ### Calls that are looked at -/

/-- How many of the calls at the given times are served, of those whose time satisfies `p`. -/
def countServed (rate burst : 𝕜) (b : Bucket 𝕜) (p : 𝕜 → Bool) (ts : List 𝕜) : ℕ :=
  (ts.zip (b.serve rate burst ts)).countP fun c => p c.1 && c.2

theorem countServed_cons (p : 𝕜 → Bool) : b.countServed rate burst p (t :: ts) =
    (p t && (b.call rate burst t).2).toNat + (b.call rate burst t).1.countServed rate burst p ts := by
  unfold countServed
  rw [serve, List.zip_cons_cons, List.countP_cons, add_comm]
  cases p t && (b.call rate burst t).2 <;> rfl

/-- Times that are not looked at. -/
theorem countServed_eq_zero {p : 𝕜 → Bool} (h : ∀ t ∈ ts, p t = false) : b.countServed rate burst p ts = 0 := by
  refine List.countP_eq_zero.mpr fun c hc => ?_
  simp [h c.1 (List.of_mem_zip hc).1]

theorem countServed_mono {p q : 𝕜 → Bool} (h : ∀ t, p t = true → q t = true) :
    b.countServed rate burst p ts ≤ b.countServed rate burst q ts := by
  refine List.countP_mono_left fun c _ hc => ?_
  obtain ⟨hp, hserved⟩ := Bool.and_eq_true_iff.mp hc
  exact Bool.and_eq_true_iff.mpr ⟨h _ hp, hserved⟩

omit [Field 𝕜] in
/-- The times of a run from its head on. -/
theorem le_of_isChain (h : (t :: ts).IsChain (· ≤ ·)) : ∀ t' ∈ ts, t ≤ t' :=
  fun _ ht' => List.rel_of_pairwise_cons (List.isChain_iff_pairwise.mp h) ht'

variable [IsStrictOrderedRing 𝕜]

theorem advance_level_nonneg (hrate : 0 ≤ rate) (hburst : 0 ≤ burst) (hb : 0 ≤ b.level)
    (ht : b.time ≤ t) : 0 ≤ (b.advance rate burst t).level :=
  le_min hburst (add_nonneg hb (mul_nonneg hrate (sub_nonneg.mpr ht)))

theorem call_level_nonneg (hrate : 0 ≤ rate) (hburst : 0 ≤ burst) (hb : 0 ≤ b.level)
    (ht : b.time ≤ t) : 0 ≤ (b.call rate burst t).1.level := by
  unfold call
  split
  · next h => exact sub_nonneg.mpr h
  · exact advance_level_nonneg hrate hburst hb ht

/-- Refilling in two steps is refilling in one. -/
theorem advance_advance (hrate : 0 ≤ rate) {t' : 𝕜} (ht' : t ≤ t') :
    (b.advance rate burst t).advance rate burst t' = b.advance rate burst t' := by
  have hgain : 0 ≤ rate * (t' - t) := mul_nonneg hrate (sub_nonneg.mpr ht')
  have hsum : b.level + rate * (t - b.time) + rate * (t' - t) = b.level + rate * (t' - b.time) := by
    ring
  unfold advance
  congr 1
  change min burst (min burst (b.level + rate * (t - b.time)) + rate * (t' - t)) = _
  rw [← min_add_add_right, hsum, ← min_assoc, min_eq_left (le_add_of_nonneg_right hgain)]

/-! ### Windows -/

omit [IsStrictOrderedRing 𝕜] in
theorem count_serve_cons (b : Bucket 𝕜) (t : 𝕜) (ts : List 𝕜) :
    (b.serve rate burst (t :: ts)).count true =
      (b.call rate burst t).2.toNat + ((b.call rate burst t).1.serve rate burst ts).count true := by
  rw [serve, List.count_cons, add_comm]
  cases (b.call rate burst t).2 <;> rfl

/-- **Admission bound.** The calls served are paid for by the level at the first of them and the
refill until the last. -/
theorem count_serve_le (hrate : 0 ≤ rate) (hburst : 0 ≤ burst) :
    ∀ (ts : List 𝕜) (b : Bucket 𝕜) (t : 𝕜), 0 ≤ b.level →
      (b.time :: t :: ts).IsChain (· ≤ ·) →
      ((b.serve rate burst (t :: ts)).count true : 𝕜) ≤
        (b.advance rate burst t).level +
          rate * ((t :: ts).getLast (List.cons_ne_nil t ts) - t) := by
  intro ts
  induction ts with
  | nil =>
    intro b t hb hchain
    have hlevel : 0 ≤ (b.call rate burst t).1.level :=
      call_level_nonneg hrate hburst hb (List.isChain_cons_cons.mp hchain).1
    rw [count_serve_cons, List.getLast_singleton, sub_self, mul_zero, add_zero, ← call_level]
    exact le_add_of_nonneg_left hlevel
  | cons t' ts ih =>
    intro b t hb hchain
    obtain ⟨ht, hchain⟩ := List.isChain_cons_cons.mp hchain
    have hlevel : 0 ≤ (b.call rate burst t).1.level := call_level_nonneg hrate hburst hb ht
    have hrest := ih (b.call rate burst t).1 t' hlevel (by rwa [call_time])
    -- what the next call finds is at most what this one leaves, and the refill in between
    have hnext : ((b.call rate burst t).1.advance rate burst t').level ≤
        (b.call rate burst t).1.level + rate * (t' - t) :=
      calc ((b.call rate burst t).1.advance rate burst t').level
          ≤ (b.call rate burst t).1.level + rate * (t' - (b.call rate burst t).1.time) :=
            min_le_right _ _
        _ = (b.call rate burst t).1.level + rate * (t' - t) := by rw [call_time]
    rw [count_serve_cons, Nat.cast_add, ← call_level,
      List.getLast_cons (List.cons_ne_nil t' ts)]
    -- the refill until the last call is the refill until the next one and the refill from there
    linarith

omit [IsStrictOrderedRing 𝕜] in
@[simp] theorem length_serve (b : Bucket 𝕜) (ts : List 𝕜) :
    (b.serve rate burst ts).length = ts.length := by
  induction ts generalizing b with
  | nil => rfl
  | cons t ts ih => exact congrArg (· + 1) (ih _)

omit [IsStrictOrderedRing 𝕜] in
/-- What has been served so far does not depend on the calls to come. -/
theorem take_serve (b : Bucket 𝕜) (ts : List 𝕜) (k : ℕ) :
    (b.serve rate burst ts).take k = b.serve rate burst (ts.take k) := by
  induction ts generalizing b k with
  | nil => rw [serve, List.take_nil, List.take_nil, serve]
  | cons t ts ih =>
    cases k with
    | zero => rfl
    | succ k => exact congrArg (_ :: ·) (ih _ k)

/-- A run may be cut anywhere: the bucket at that point is good for the rest of it. -/
theorem after_ready (hrate : 0 ≤ rate) (hburst : 0 ≤ burst) :
    ∀ (xs ys : List 𝕜) (b : Bucket 𝕜), 0 ≤ b.level → (b.time :: (xs ++ ys)).IsChain (· ≤ ·) →
      0 ≤ (b.after rate burst xs).level ∧
        ((b.after rate burst xs).time :: ys).IsChain (· ≤ ·) := by
  intro xs ys
  induction xs with
  | nil => exact fun b hb hchain => ⟨hb, hchain⟩
  | cons t xs ih =>
    intro b hb hchain
    obtain ⟨ht, hchain⟩ := List.isChain_cons_cons.mp hchain
    exact ih _ (call_level_nonneg hrate hburst hb ht) (by rwa [call_time])

/-- **Admission bound for every window of a run.** -/
theorem count_window_le (hrate : 0 ≤ rate) (hburst : 0 ≤ burst) (hb : 0 ≤ b.level)
    (hchain : (b.time :: ts).IsChain (· ≤ ·)) {i j : ℕ} (hij : i ≤ j) (hj : j < ts.length) :
    ((((b.serve rate burst ts).drop i).take (j + 1 - i)).count true : 𝕜) ≤
      burst + rate * (ts[j] - ts[i]) := by
  -- what comes before the window, the window, and what comes after it
  obtain ⟨xs, w, zs, rfl, hxs, hw⟩ : ∃ xs w zs, ts = xs ++ (w ++ zs) ∧ xs.length = i ∧
      w.length = j + 1 - i := by
    refine ⟨ts.take i, (ts.drop i).take (j + 1 - i), (ts.drop i).drop (j + 1 - i), ?_, ?_, ?_⟩
    · rw [List.take_append_drop, List.take_append_drop]
    · rw [List.length_take]
      omega
    · rw [List.length_take, List.length_drop]
      omega
  obtain ⟨hlevel, hrest⟩ := after_ready hrate hburst xs (w ++ zs) b hb hchain
  rw [serve_append, List.drop_left' (by rw [length_serve, hxs]), serve_append,
    List.take_left' (by rw [length_serve, hw])]
  obtain ⟨t, w, rfl⟩ : ∃ t w', w = t :: w' := List.exists_cons_of_length_pos (by omega)
  have hfirst : (xs ++ (t :: w ++ zs))[i] = t := by simp [← hxs]
  have hlast : (xs ++ (t :: w ++ zs))[j] = (t :: w).getLast (List.cons_ne_nil t w) := by
    have hlen : w.length + 1 = j + 1 - i := hw
    rw [List.getLast_eq_getElem, List.getElem_append_right (by omega),
      List.getElem_append_left (by rw [List.length_cons]; omega)]
    congr 1
    rw [List.length_cons]
    omega
  rw [hfirst, hlast]
  have hcount := count_serve_le hrate hburst w (b.after rate burst xs) t hlevel
    (hrest.left_of_append)
  exact hcount.trans (add_le_add_left advance_level_le _)

/-- The calls served up to the time `hi` are paid for by the level at the beginning and the refill since. -/
theorem countServed_until_le (hrate : 0 ≤ rate) (hburst : 0 ≤ burst) (hi : 𝕜) :
    ∀ (ts : List 𝕜) (b : Bucket 𝕜), 0 ≤ b.level → (b.time :: ts).IsChain (· ≤ ·) → b.time ≤ hi →
      (b.countServed rate burst (· ≤ hi) ts : 𝕜) ≤ b.level + rate * (hi - b.time) := by
  intro ts
  induction ts with
  | nil =>
    intro b hb _ hhi
    exact le_of_eq_of_le Nat.cast_zero (add_nonneg hb (mul_nonneg hrate (sub_nonneg.mpr hhi)))
  | cons t ts ih =>
    intro b hb hchain hhi
    obtain ⟨ht, hchain⟩ := List.isChain_cons_cons.mp hchain
    by_cases hlate : t ≤ hi
    · have hrest := ih (b.call rate burst t).1 (call_level_nonneg hrate hburst hb ht)
        (by rwa [call_time]) (by rwa [call_time])
      have hlevel := call_level rate burst b t
      have hadv : (b.advance rate burst t).level ≤ b.level + rate * (t - b.time) := min_le_right _ _
      rw [call_time] at hrest
      rw [countServed_cons, decide_eq_true hlate, Bool.true_and, Nat.cast_add]
      linarith
    · -- all calls from here on are later
      have hnone : b.countServed rate burst (· ≤ hi) (t :: ts) = 0 :=
        countServed_eq_zero fun t' ht' => decide_eq_false fun hle => hlate <| by
          rcases List.mem_cons.mp ht' with rfl | ht'
          · exact hle
          · exact (le_of_isChain hchain t' ht').trans hle
      rw [hnone, Nat.cast_zero]
      exact add_nonneg hb (mul_nonneg hrate (sub_nonneg.mpr hhi))

/-- **Admission bound for a window of time.** -/
theorem countServed_between_le (hrate : 0 ≤ rate) (hburst : 0 ≤ burst) {lo hi : 𝕜} (hlohi : lo ≤ hi) :
    ∀ (ts : List 𝕜) (b : Bucket 𝕜), 0 ≤ b.level → (b.time :: ts).IsChain (· ≤ ·) →
      (b.countServed rate burst (fun t => lo ≤ t ∧ t ≤ hi) ts : 𝕜) ≤ burst + rate * (hi - lo) := by
  have hwindow : 0 ≤ rate * (hi - lo) := mul_nonneg hrate (sub_nonneg.mpr hlohi)
  intro ts
  induction ts with
  | nil => exact fun b _ _ => le_of_eq_of_le Nat.cast_zero (add_nonneg hburst hwindow)
  | cons t ts ih =>
    intro b hb hchain
    obtain ⟨ht, hchain⟩ := List.isChain_cons_cons.mp hchain
    have hlevel' := call_level_nonneg hrate hburst hb ht
    by_cases hin : lo ≤ t ∧ t ≤ hi
    · -- the first call of the window finds at most `burst`
      have hrest := countServed_until_le hrate hburst hi ts (b.call rate burst t).1 hlevel'
        (by rwa [call_time]) (call_time.trans_le hin.2)
      have hmono : ((b.call rate burst t).1.countServed rate burst (fun t => lo ≤ t ∧ t ≤ hi) ts : 𝕜) ≤
          (b.call rate burst t).1.countServed rate burst (· ≤ hi) ts :=
        Nat.cast_le.mpr (countServed_mono fun t' h => decide_eq_true (of_decide_eq_true h).2)
      have hlevel := call_level rate burst b t
      have hfull : (b.advance rate burst t).level ≤ burst := advance_level_le
      have hgain : rate * (hi - t) ≤ rate * (hi - lo) :=
        mul_le_mul_of_nonneg_left (by linarith [hin.1]) hrate
      rw [call_time] at hrest
      rw [countServed_cons, decide_eq_true hin, Bool.true_and, Nat.cast_add]
      linarith
    · rw [countServed_cons, decide_eq_false hin, Bool.false_and, Bool.toNat_false, zero_add]
      exact ih _ hlevel' (by rwa [call_time])
/-! ### Comparison -/

/-- One call: if the second bucket is ahead, by calls served and by calls and level together, it
stays ahead. -/
theorem call_ahead {n n' : ℕ} (hle : rate * (t - b.time) ≤ rate' * (t - b'.time))
    (hburst : burst ≤ burst') (hn : n ≤ n') (hsum : (n : 𝕜) + b.level ≤ n' + b'.level) :
    n + (b.call rate burst t).2.toNat ≤ n' + (b'.call rate' burst' t).2.toNat ∧
      ((n + (b.call rate burst t).2.toNat : ℕ) : 𝕜) + (b.call rate burst t).1.level ≤
        (n' + (b'.call rate' burst' t).2.toNat : ℕ) + (b'.call rate' burst' t).1.level := by
  have hcast : (n : 𝕜) ≤ n' := Nat.cast_le.mpr hn
  -- refilling keeps the second bucket ahead, since its level is bounded by a larger `burst`
  have hadv : (n : 𝕜) + (b.advance rate burst t).level ≤ n' + (b'.advance rate' burst' t).level := by
    have hfull : (b.advance rate burst t).level ≤ burst := min_le_left _ _
    have hgain : (b.advance rate burst t).level ≤ b.level + rate * (t - b.time) := min_le_right _ _
    have h : (n : 𝕜) + (b.advance rate burst t).level - n' ≤ (b'.advance rate' burst' t).level :=
      le_min (by linarith) (by linarith)
    linarith
  constructor
  · by_cases hserved : (b.call rate burst t).2 = true ∧ (b'.call rate' burst' t).2 = false
    · -- the smaller bucket has a token, the larger one has none: it has served more before
      have hone : 1 ≤ (b.advance rate burst t).level := call_served_iff.mp hserved.1
      have hnone : (b'.advance rate' burst' t).level < 1 := by
        rw [← not_le, ← call_served_iff, hserved.2]
        exact Bool.false_ne_true
      have hlt : (n : 𝕜) < n' := by linarith
      rw [hserved.1, hserved.2]
      exact Nat.cast_lt.mp hlt
    · -- otherwise this call does not change the order
      have hbool : (b.call rate burst t).2.toNat ≤ (b'.call rate' burst' t).2.toNat := by
        revert hserved
        cases (b.call rate burst t).2 <;> cases (b'.call rate' burst' t).2 <;> simp
      exact Nat.add_le_add hn hbool
  · -- a call moves tokens from the level to the calls served
    have hlevel := call_level rate burst b t
    have hlevel' := call_level rate' burst' b' t
    rw [Nat.cast_add, Nat.cast_add]
    linarith

/-- **A larger bucket never falls behind.** If the second bucket has served `n'` calls when the
first one has served `n`, and is ahead of it also when the levels are added, it stays ahead. -/
theorem count_serve_mono (hle : rate ≤ rate') (hburst : burst ≤ burst') :
    ∀ (ts : List 𝕜) (b b' : Bucket 𝕜) (n n' : ℕ), b.time = b'.time →
      (b.time :: ts).IsChain (· ≤ ·) → n ≤ n' → (n : 𝕜) + b.level ≤ n' + b'.level →
      n + (b.serve rate burst ts).count true ≤ n' + (b'.serve rate' burst' ts).count true := by
  intro ts
  induction ts with
  | nil => exact fun b b' n n' _ _ hn _ => by simpa [serve] using hn
  | cons t ts ih =>
    intro b b' n n' htime hchain hn hsum
    obtain ⟨ht, hchain⟩ := List.isChain_cons_cons.mp hchain
    have hgain : rate * (t - b.time) ≤ rate' * (t - b'.time) := by
      rw [← htime]
      exact mul_le_mul_of_nonneg_right hle (sub_nonneg.mpr ht)
    obtain ⟨hn', hsum'⟩ := call_ahead hgain hburst hn hsum
    rw [count_serve_cons, count_serve_cons, ← add_assoc, ← add_assoc]
    exact ih _ _ _ _ (by rw [call_time, call_time]) (by rwa [call_time]) hn' hsum'

end Bucket

end Framework
