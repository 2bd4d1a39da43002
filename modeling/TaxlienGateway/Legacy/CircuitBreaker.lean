import Mathlib.Algebra.Order.Field.Rat
import Mathlib.Data.List.Induction
import Mathlib.Tactic.Linarith

/-!
# The circuit breaker of the legacy gateway

`CircuitBreaker` of `legacy/app/services/http_client.py`, and what a sequence of calls of its methods
makes of it. The calls of overlapping requests may come in any order; only the clock they read does
not run backwards.

`breaker_closed_form` says that the breaker is a function of the outcomes recorded: the number of
failures since the last success, and the time of the last failure. The invariant is `Consistent`; its
one non-obvious part is that in `halfOpen` the recovery timeout has passed for the last failure, since
a failure recorded in `halfOpen` opens the breaker again.
-/

namespace TaxlienGateway

namespace Legacy

inductive CircuitState where
  | closed
  | open
  | halfOpen
  deriving DecidableEq

structure CircuitBreaker where
  threshold : ℕ
  recovery_timeout : ℚ
  state : CircuitState
  failures : ℕ
  last_failure_time : ℚ

namespace CircuitBreaker

/-- `CircuitBreaker(name, threshold, recovery_timeout)` -/
def new (threshold : ℕ) (recovery_timeout : ℚ) : CircuitBreaker :=
  ⟨threshold, recovery_timeout, .closed, 0, 0⟩

def recordSuccess (b : CircuitBreaker) : CircuitBreaker := { b with failures := 0, state := .closed }

/-- `record_failure`, when `time.time()` is `now`. -/
def recordFailure (now : ℚ) (b : CircuitBreaker) : CircuitBreaker :=
  { b with
    failures := b.failures + 1
    last_failure_time := now
    state := if b.threshold ≤ b.failures + 1 then .open else b.state }

/-- `can_execute`, when `time.time()` is `now`. -/
def canExecute (now : ℚ) (b : CircuitBreaker) : CircuitBreaker × Bool :=
  match b.state with
  | .closed => (b, true)
  | .open =>
    -- the first call after the timeout is let through as a probe, and so is every call until an
    -- outcome is recorded
    if b.recovery_timeout < now - b.last_failure_time then ({ b with state := .halfOpen }, true)
    else (b, false)
  | .halfOpen => (b, true)

end CircuitBreaker

/-! ### Sequences of calls -/

/-- A call of a method of the breaker. -/
inductive BreakerMethod where
  | canExecute
  | recordSuccess
  | recordFailure
  deriving DecidableEq

/-- A call and the time it is made at. -/
structure BreakerCall where
  time : ℚ
  method : BreakerMethod

/-- The breaker after one call. -/
def CircuitBreaker.apply (b : CircuitBreaker) (c : BreakerCall) : CircuitBreaker :=
  match c.method with
  | .canExecute => (b.canExecute c.time).1
  | .recordSuccess => b.recordSuccess
  | .recordFailure => b.recordFailure c.time

/-- The breaker after a sequence of calls. -/
def breakerAfter (threshold : ℕ) (recovery_timeout : ℚ) (calls : List BreakerCall) :
    CircuitBreaker :=
  calls.foldl CircuitBreaker.apply (.new threshold recovery_timeout)

/-- The outcomes recorded: the time of a failure, or a success. -/
def BreakerCall.outcome? (c : BreakerCall) : Option (Option ℚ) :=
  match c.method with
  | .canExecute => none
  | .recordSuccess => some none
  | .recordFailure => some (some c.time)

/-- The times of the failures recorded since the last success, the latest first. -/
def trailingFailures (calls : List BreakerCall) : List ℚ :=
  ((calls.filterMap BreakerCall.outcome?).reverse.takeWhile Option.isSome).filterMap id

theorem trailingFailures_append_singleton (calls : List BreakerCall) (c : BreakerCall) :
    trailingFailures (calls ++ [c]) =
      match c.method with
      | .canExecute => trailingFailures calls
      | .recordSuccess => []
      | .recordFailure => c.time :: trailingFailures calls := by
  obtain ⟨time, method⟩ := c
  unfold trailingFailures
  rw [List.filterMap_append, List.reverse_append]
  cases method <;> simp [BreakerCall.outcome?]

/-- Calls that record no success only add to the trailing failures. -/
theorem trailingFailures_append (calls : List BreakerCall) {calls' : List BreakerCall}
    (h : ∀ c ∈ calls', c.method ≠ .recordSuccess) :
    trailingFailures (calls ++ calls') = trailingFailures calls' ++ trailingFailures calls := by
  induction calls' using List.reverseRecOn with
  | nil => rw [List.append_nil]; rfl
  | append_singleton calls' c ih =>
    have ih := ih fun c' hc' => h c' (List.mem_append_left _ hc')
    have hc : c.method ≠ .recordSuccess := h c (by simp)
    rw [← List.append_assoc, trailingFailures_append_singleton, trailingFailures_append_singleton]
    cases hm : c.method with
    | canExecute => exact ih
    | recordSuccess => exact absurd hm hc
    | recordFailure => exact congrArg (c.time :: ·) ih

/-- Every trailing failure was recorded. -/
theorem exists_of_mem_trailingFailures {calls : List BreakerCall} {t : ℚ}
    (h : t ∈ trailingFailures calls) : ∃ c ∈ calls, c.time = t := by
  obtain ⟨o, ho, rfl⟩ := List.mem_filterMap.mp h
  obtain ⟨c, hc, hout⟩ := List.mem_filterMap.mp
    (List.mem_reverse.mp ((List.takeWhile_sublist _).subset ho))
  refine ⟨c, hc, ?_⟩
  unfold BreakerCall.outcome? at hout
  split at hout
  · exact absurd hout (by simp)
  · exact absurd hout (by simp)
  · exact Option.some.inj (Option.some.inj hout)

variable {threshold : ℕ} {recovery_timeout : ℚ} {calls : List BreakerCall}

theorem breakerAfter_append_singleton (calls : List BreakerCall) (c : BreakerCall) :
    breakerAfter threshold recovery_timeout (calls ++ [c]) =
      (breakerAfter threshold recovery_timeout calls).apply c := by
  unfold breakerAfter
  rw [List.foldl_append, List.foldl_cons, List.foldl_nil]

/-! ### The invariant -/

/-- The breaker agrees with the trailing failures at time `now`. -/
structure Consistent (trailing : List ℚ) (now : ℚ) (b : CircuitBreaker) : Prop where
  failures : b.failures = trailing.length
  last : ∀ t ∈ trailing.head?, b.last_failure_time = t
  closed : b.state = .closed ↔ trailing.length < b.threshold
  halfOpen : b.state = .halfOpen → b.recovery_timeout < now - b.last_failure_time

namespace Consistent

variable {trailing : List ℚ} {now : ℚ} {b : CircuitBreaker}

theorem new (hthr : 1 ≤ threshold) (now : ℚ) :
    Consistent [] now (.new threshold recovery_timeout) where
  failures := rfl
  last t ht := absurd ht (by simp)
  closed := ⟨fun _ => hthr, fun _ => rfl⟩
  halfOpen h := absurd h (by simp [CircuitBreaker.new])

/-- The clock may go on. -/
theorem later (h : Consistent trailing now b) {now' : ℚ} (hle : now ≤ now') :
    Consistent trailing now' b :=
  { h with halfOpen := fun hs => (h.halfOpen hs).trans_le (by linarith) }

theorem recordSuccess (hthr : 1 ≤ b.threshold) (now : ℚ) : Consistent [] now b.recordSuccess where
  failures := rfl
  last t ht := absurd ht (by simp)
  closed := ⟨fun _ => hthr, fun _ => rfl⟩
  halfOpen h := absurd h (by simp [CircuitBreaker.recordSuccess])

/-- A failure in `halfOpen` finds at least as many failures as opened the breaker before, so it opens
the breaker again. -/
theorem recordFailure (h : Consistent trailing now b) :
    Consistent (now :: trailing) now (b.recordFailure now) := by
  have hlen : (now :: trailing).length = b.failures + 1 := by rw [h.failures, List.length_cons]
  by_cases hthr : b.threshold ≤ b.failures + 1
  · -- the failure opens the breaker, whatever its state was
    have hstate : (b.recordFailure now).state = .open := if_pos hthr
    refine ⟨hlen.symm, fun t ht => Option.some.inj ht, ?_, ?_⟩
    · rw [hstate, hlen]
      exact ⟨fun habs => absurd habs (by simp), fun habs => absurd habs (not_lt.mpr hthr)⟩
    · rw [hstate]
      exact fun habs => absurd habs (by simp)
  · -- below the threshold the breaker was closed and stays so
    have hstate : (b.recordFailure now).state = b.state := if_neg hthr
    have hclosed : b.state = .closed := h.closed.mpr (by rw [← h.failures]; omega)
    refine ⟨hlen.symm, fun t ht => Option.some.inj ht, ?_, ?_⟩
    · rw [hstate, hlen]
      exact ⟨fun _ => not_le.mp hthr, fun _ => hclosed⟩
    · rw [hstate, hclosed]
      exact fun habs => absurd habs (by simp)

theorem canExecute (h : Consistent trailing now b) :
    Consistent trailing now (b.canExecute now).1 := by
  unfold CircuitBreaker.canExecute
  split
  · exact h
  · next hopen =>
    split
    · next htimeout =>
      have hmany : ¬ trailing.length < b.threshold := by
        rw [← h.closed, hopen]
        simp
      exact ⟨h.failures, h.last, ⟨fun habs => absurd habs (by simp), fun habs => absurd habs hmany⟩,
        fun _ => htimeout⟩
    · exact h
  · exact h

/-- When a call is refused. -/
theorem canExecute_eq_false_iff (h : Consistent trailing now b) (hthr : 1 ≤ b.threshold) :
    (b.canExecute now).2 = false ↔
      b.threshold ≤ trailing.length ∧ ∃ t ∈ trailing.head?, now - t ≤ b.recovery_timeout := by
  have hlast : b.threshold ≤ trailing.length → trailing.head? = some b.last_failure_time := by
    intro hmany
    obtain ⟨t, ts, rfl⟩ := List.exists_cons_of_length_pos (hthr.trans hmany)
    rw [h.last t rfl]
    rfl
  cases hstate : b.state with
  | closed =>
    have hfew := h.closed.mp hstate
    simp only [CircuitBreaker.canExecute, hstate, Bool.true_eq_false, false_iff, not_and]
    exact fun hmany => absurd hmany (not_le.mpr hfew)
  | «open» =>
    -- only enough failures keep a breaker open
    have hmany : b.threshold ≤ trailing.length := by
      rw [← not_lt, ← h.closed, hstate]
      simp
    rw [hlast hmany]
    simp only [CircuitBreaker.canExecute, hstate, Option.mem_def, Option.some.injEq,
      exists_eq_left', hmany, true_and]
    by_cases htimeout : b.recovery_timeout < now - b.last_failure_time
    · simp only [htimeout, ↓reduceIte, Bool.true_eq_false, false_iff, not_le]
    · simp only [htimeout, ↓reduceIte, not_lt.mp htimeout]
  | halfOpen =>
    -- the timeout has passed for the last failure, so the right-hand side fails too
    have htimeout := h.halfOpen hstate
    simp only [CircuitBreaker.canExecute, hstate, Bool.true_eq_false, false_iff, not_and]
    rintro hmany ⟨t, ht, hle⟩
    rw [hlast hmany] at ht
    obtain rfl := Option.some.inj ht
    exact absurd htimeout (not_lt.mpr hle)

end Consistent

/-- The parameters of a breaker do not change. -/
theorem CircuitBreaker.apply_params (b : CircuitBreaker) (c : BreakerCall) :
    (b.apply c).threshold = b.threshold ∧ (b.apply c).recovery_timeout = b.recovery_timeout := by
  unfold apply canExecute
  split
  · split
    · exact ⟨rfl, rfl⟩
    · split <;> exact ⟨rfl, rfl⟩
    · exact ⟨rfl, rfl⟩
  · exact ⟨rfl, rfl⟩
  · exact ⟨rfl, rfl⟩

theorem breakerAfter_params (threshold : ℕ) (recovery_timeout : ℚ) (calls : List BreakerCall) :
    (breakerAfter threshold recovery_timeout calls).threshold = threshold ∧
      (breakerAfter threshold recovery_timeout calls).recovery_timeout = recovery_timeout := by
  induction calls using List.reverseRecOn with
  | nil => exact ⟨rfl, rfl⟩
  | append_singleton calls c ih =>
    rw [breakerAfter_append_singleton]
    obtain ⟨hthr, hrt⟩ := CircuitBreaker.apply_params
      (breakerAfter threshold recovery_timeout calls) c
    exact ⟨hthr.trans ih.1, hrt.trans ih.2⟩

/-- **The invariant along every sequence of calls.** -/
theorem consistent_breakerAfter (hthr : 1 ≤ threshold) :
    ∀ (calls : List BreakerCall) (now : ℚ),
      (calls.map BreakerCall.time ++ [now]).Pairwise (· ≤ ·) →
      Consistent (trailingFailures calls) now (breakerAfter threshold recovery_timeout calls) := by
  intro calls
  induction calls using List.reverseRecOn with
  | nil => exact fun now _ => .new hthr now
  | append_singleton calls c ih =>
    intro now hclock
    rw [List.map_append, List.map_cons, List.map_nil] at hclock
    have hcalls := ih c.time (List.pairwise_append.mp hclock).1
    have hnow : c.time ≤ now := (List.pairwise_append.mp hclock).2.2 c.time (by simp) now (by simp)
    rw [trailingFailures_append_singleton, breakerAfter_append_singleton]
    -- one step lemma for each method
    obtain ⟨time, method⟩ := c
    cases method with
    | canExecute => exact hcalls.canExecute.later hnow
    | recordSuccess =>
      exact Consistent.recordSuccess (by rwa [(breakerAfter_params _ _ calls).1]) now
    | recordFailure => exact hcalls.recordFailure.later hnow

/-- **The breaker is a function of its outcomes.** After any calls at times that do not decrease:
`can_execute` refuses if and only if the outcomes end in `threshold` failures or more and the last of
them is not yet `recovery_timeout` ago; the state is `closed` exactly if they end in fewer; and
`failures` is how many they end in. -/
theorem breaker_closed_form (threshold : ℕ) (recovery_timeout : ℚ) (hthr : 1 ≤ threshold)
    (calls : List BreakerCall) (now : ℚ)
    (hclock : (calls.map BreakerCall.time ++ [now]).Pairwise (· ≤ ·)) :
    (((breakerAfter threshold recovery_timeout calls).canExecute now).2 = false ↔
        threshold ≤ (trailingFailures calls).length ∧
          ∃ t ∈ (trailingFailures calls).head?, now - t ≤ recovery_timeout) ∧
      ((breakerAfter threshold recovery_timeout calls).state = .closed ↔
        (trailingFailures calls).length < threshold) ∧
      (breakerAfter threshold recovery_timeout calls).failures =
        (trailingFailures calls).length := by
  have h : Consistent (trailingFailures calls) now (breakerAfter threshold recovery_timeout calls) :=
    consistent_breakerAfter hthr calls now hclock
  obtain ⟨hparam, hparam'⟩ := breakerAfter_params threshold recovery_timeout calls
  refine ⟨?_, ?_, h.failures⟩
  · rw [h.canExecute_eq_false_iff (by rwa [hparam]), hparam, hparam']
  · rw [h.closed, hparam]

/-- Two failures at a threshold of two, a refused call, and a probe after the timeout that fails. -/
theorem breaker_closed_form_sample :
    ((breakerAfter 2 30 [⟨1, .recordFailure⟩, ⟨2, .recordFailure⟩, ⟨3, .canExecute⟩,
        ⟨33, .canExecute⟩, ⟨34, .recordFailure⟩]).canExecute 64).2 = false := by
  refine (breaker_closed_form 2 30 (by decide) _ 64 ?_).1.mpr ⟨by decide, 34, rfl, by norm_num⟩
  norm_num [List.pairwise_cons]

end Legacy

end TaxlienGateway
