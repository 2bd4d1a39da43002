import TaxlienGateway.Legacy.ServiceClient

/-!
# The half-open breaker

`CircuitBreaker.can_execute` lets the first request after the recovery timeout through and calls the
breaker half-open from then on. How many requests pass before an outcome is recorded, and what that
outcome does, is independent of the clock: `anyClock` is the system of the overlapping requests of
`Legacy/ServiceClient.lean` without the assumption that the clock does not run backwards.

* `half_opens` — the breaker stays half-open until an outcome is recorded, refuses no request
  meanwhile, and the outcome closes it or opens it again;
* `two_probes` — so a second request may be sent while the first is still unanswered.
-/

namespace TaxlienGateway

open Framework

namespace Legacy

/-! ### Requests under any clock -/

/-- A step, whatever the time is. -/
def ClientState.stepAnyTime? (s : ClientState) (e : ClientEvent) : Option ClientState :=
  (s.next? e).map fun (i, phase) => ⟨s.call e, e.time, Function.update s.phase i phase⟩

/-- The requests of one service, under a clock that may do anything. -/
def anyClock (threshold : ℕ) (recovery_timeout : ℚ) : System ClientState ClientEvent where
  init s := ∃ clock, s = .new threshold recovery_timeout clock
  step s e s' := s.stepAnyTime? e = some s'

/-- The outcome of a request is recorded. -/
def ClientEvent.records : ClientEvent → Bool
  | finish _ _ r => r.method?.isSome
  | _ => false

/-- What is recorded is a success or a failure. -/
theorem Upstream.method?_ne_canExecute (r : Upstream) : r.method? ≠ some .canExecute := by
  cases r with
  | response status =>
    change some (if 500 ≤ status then BreakerMethod.recordFailure else .recordSuccess) ≠ _
    split <;> simp
  | requestError => simp [Upstream.method?]
  | otherError => simp [Upstream.method?]

variable {threshold : ℕ} {recovery_timeout : ℚ} {es : List ClientEvent} {s : ClientState}

/-- A run under a clock that does not run backwards is a run under any clock. -/
theorem anyClock_of_serviceClient (hr : (serviceClient threshold recovery_timeout).Run es s) :
    (anyClock threshold recovery_timeout).Run es s := by
  induction hr with
  | init h => exact .init h
  | step hr hs ih =>
    obtain ⟨-, i, phase, hnext, rfl⟩ := step?_eq_some hs
    refine ih.step ?_
    change (ClientState.next? _ _).map _ = _
    rw [hnext, Option.map_some]

/-- **The breaker of a run** is determined by its history. -/
theorem breaker_of_anyClock (hr : (anyClock threshold recovery_timeout).Run es s) :
    s.breaker = breakerIn threshold recovery_timeout es := by
  refine System.Run.invariant (I := fun es s => s.breaker = breakerIn threshold recovery_timeout es)
    ?_ ?_ hr
  · rintro _ ⟨clock, rfl⟩
    rfl
  · intro es s e s' _ ih hstep
    obtain ⟨⟨i, phase⟩, -, rfl⟩ := Option.map_eq_some_iff.mp hstep
    rw [breakerIn_append_singleton, ← ih]
    rfl

/-- A request is refused only if `can_execute` says so. -/
theorem canExecute_of_refuse {pre post : List ClientEvent} {j : ℕ} {u : ℚ}
    (hr : (anyClock threshold recovery_timeout).Run (pre ++ .refuse j u :: post) s) :
    ((breakerIn threshold recovery_timeout pre).canExecute u).2 = false := by
  obtain ⟨t, t', ht, hstep, -⟩ := hr.step_at
  obtain ⟨⟨i, phase⟩, hnext, -⟩ := Option.map_eq_some_iff.mp hstep
  rw [← breaker_of_anyClock ht]
  exact (Option.ite_none_right_eq_some.mp hnext).1.2

/-! ### One call of a breaker that is not closed -/

/-- A breaker leaves `closed` with as many failures as the threshold, and keeps them. -/
theorem threshold_le_failures (es : List ClientEvent)
    (h : (breakerIn threshold recovery_timeout es).state ≠ .closed) :
    threshold ≤ (breakerIn threshold recovery_timeout es).failures := by
  unfold breakerIn at h ⊢
  generalize es.filterMap ClientEvent.breakerCall? = calls at h ⊢
  induction calls using List.reverseRecOn with
  | nil => exact absurd rfl h
  | append_singleton calls c ih =>
    have hthr := (breakerAfter_params threshold recovery_timeout calls).1
    rw [breakerAfter_append_singleton] at h ⊢
    generalize breakerAfter threshold recovery_timeout calls = b at ih h hthr ⊢
    obtain ⟨time, method⟩ := c
    cases method with
    | recordSuccess => exact absurd rfl h
    | recordFailure =>
      -- if this failure did not open it, it had been open or half-open before
      change threshold ≤ b.failures + 1
      by_cases hopen : b.threshold ≤ b.failures + 1
      · exact hthr.symm.trans_le hopen
      · have hbefore : b.state ≠ .closed := by
          simpa [CircuitBreaker.apply, CircuitBreaker.recordFailure, hopen] using h
        exact (ih hbefore).trans (Nat.le_succ _)
    | canExecute =>
      -- asking counts no failure, and opens nothing that is closed
      cases hstate : b.state with
      | closed =>
        refine absurd ?_ h
        simp [CircuitBreaker.apply, CircuitBreaker.canExecute, hstate]
      | «open» =>
        have hfailures : (b.apply ⟨time, .canExecute⟩).failures = b.failures := by
          simp only [CircuitBreaker.apply, CircuitBreaker.canExecute, hstate]
          split <;> rfl
        rw [hfailures]
        exact ih (by simp [hstate])
      | halfOpen =>
        have hfailures : (b.apply ⟨time, .canExecute⟩).failures = b.failures := by
          simp only [CircuitBreaker.apply, CircuitBreaker.canExecute, hstate]
        rw [hfailures]
        exact ih (by simp [hstate])

/-- A half-open breaker does not change while no outcome is recorded. -/
theorem state_of_halfOpen {pre mid : List ClientEvent}
    (h : (breakerIn threshold recovery_timeout pre).state = .halfOpen)
    (hmid : ∀ e ∈ mid, e.records = false) :
    (breakerIn threshold recovery_timeout (pre ++ mid)).state = .halfOpen := by
  induction mid using List.reverseRecOn with
  | nil => rwa [List.append_nil]
  | append_singleton mid e ih =>
    have ih := ih fun e' he' => hmid e' (List.mem_append_left _ he')
    have he : e.records = false := hmid e (by simp)
    rw [← List.append_assoc, breakerIn_append_singleton]
    generalize breakerIn threshold recovery_timeout (pre ++ mid) = b at ih ⊢
    cases e with
    | pass i now => simp [ClientEvent.breakerCall?, CircuitBreaker.apply, CircuitBreaker.canExecute, ih]
    | refuse i now =>
      simp [ClientEvent.breakerCall?, CircuitBreaker.apply, CircuitBreaker.canExecute, ih]
    | send i now => exact ih
    | finish i now r =>
      have hnone : r.method? = none := Option.isSome_eq_false_iff.mp he |> Option.isNone_iff_eq_none.mp
      simpa [ClientEvent.breakerCall?, hnone] using ih

/-! ### The window -/

/-- With the step `e` after the history `pre` the breaker becomes half-open. -/
def Enters (threshold : ℕ) (recovery_timeout : ℚ) (pre : List ClientEvent) (e : ClientEvent) : Prop :=
  (breakerIn threshold recovery_timeout pre).state ≠ .halfOpen ∧
    (breakerIn threshold recovery_timeout (pre ++ [e])).state = .halfOpen

/-- At most one request passes `can_execute` and is sent from the moment the breaker becomes half-open
until an outcome is recorded. -/
def OneProbe (threshold : ℕ) (recovery_timeout : ℚ) (es : List ClientEvent) : Prop :=
  ∀ pre e mid post, es = pre ++ e :: (mid ++ post) → Enters threshold recovery_timeout pre e →
    (∀ e' ∈ mid, e'.records = false) →
    ∀ i t u j v w, .pass i t ∈ e :: mid → .send i u ∈ mid → .pass j v ∈ e :: mid →
      .send j w ∈ mid → i = j

/-- What a history shows from the moment the breaker becomes half-open until an outcome is
recorded. -/
structure HalfOpens (threshold : ℕ) (recovery_timeout : ℚ) (es : List ClientEvent) : Prop where
  /-- The breaker was open, and a request has passed. -/
  entered : ∀ pre e post, es = pre ++ e :: post → Enters threshold recovery_timeout pre e →
    (breakerIn threshold recovery_timeout pre).state = .open ∧ ∃ i t, e = .pass i t
  /-- Until an outcome is recorded it stays half-open. -/
  stays : ∀ pre e mid post, es = pre ++ e :: (mid ++ post) →
    Enters threshold recovery_timeout pre e → (∀ e' ∈ mid, e'.records = false) →
    (breakerIn threshold recovery_timeout (pre ++ e :: mid)).state = .halfOpen
  /-- Meanwhile no request is refused. -/
  passes : ∀ pre e mid j u post, es = pre ++ e :: (mid ++ .refuse j u :: post) →
    Enters threshold recovery_timeout pre e → ¬ ∀ e' ∈ mid, e'.records = false
  /-- A success closes it. -/
  closes : ∀ pre e mid j u r post, es = pre ++ e :: (mid ++ .finish j u r :: post) →
    Enters threshold recovery_timeout pre e → (∀ e' ∈ mid, e'.records = false) →
    r.method? = some .recordSuccess →
    (breakerIn threshold recovery_timeout (pre ++ e :: (mid ++ [.finish j u r]))).state = .closed
  /-- A failure opens it again. -/
  reopens : ∀ pre e mid j u r post, es = pre ++ e :: (mid ++ .finish j u r :: post) →
    Enters threshold recovery_timeout pre e → (∀ e' ∈ mid, e'.records = false) →
    r.method? = some .recordFailure →
    (breakerIn threshold recovery_timeout (pre ++ e :: (mid ++ [.finish j u r]))).state = .open

/-- Only `can_execute` makes a breaker half-open, of an open breaker, and then it answers true. -/
theorem CircuitBreaker.open_of_canExecute {b : CircuitBreaker} {now : ℚ} (hne : b.state ≠ .halfOpen)
    (heq : (b.canExecute now).1.state = .halfOpen) :
    b.state = .open ∧ (b.canExecute now).2 = true := by
  unfold CircuitBreaker.canExecute at heq ⊢
  cases hstate : b.state with
  | closed =>
    rw [hstate] at heq
    exact absurd (hstate.symm.trans heq) (by simp)
  | «open» =>
    rw [hstate] at heq
    refine ⟨rfl, ?_⟩
    by_cases hlate : b.recovery_timeout < now - b.last_failure_time
    · simp [hlate]
    · simp [hlate, hstate] at heq
  | halfOpen => exact absurd hstate hne

/-- The step that makes the breaker half-open is a request that passes an open one. -/
theorem Enters.of_run {pre post : List ClientEvent} {e : ClientEvent}
    (hr : (anyClock threshold recovery_timeout).Run (pre ++ e :: post) s)
    (h : Enters threshold recovery_timeout pre e) :
    (breakerIn threshold recovery_timeout pre).state = .open ∧ ∃ i t, e = .pass i t := by
  obtain ⟨hne, heq⟩ := h
  rw [breakerIn_append_singleton] at heq
  cases e with
  | pass i now => exact ⟨(CircuitBreaker.open_of_canExecute hne heq).1, i, now, rfl⟩
  | refuse i now =>
    -- it would not have been refused
    have htrue := (CircuitBreaker.open_of_canExecute hne heq).2
    exact absurd (htrue.symm.trans (canExecute_of_refuse hr)) (by simp)
  | send i now => exact absurd heq hne
  | finish i now r =>
    cases hm : r.method? with
    | none =>
      simp only [ClientEvent.breakerCall?, hm, Option.map_none] at heq
      exact absurd heq hne
    | some method =>
      simp only [ClientEvent.breakerCall?, hm, Option.map_some] at heq
      cases method with
      | canExecute => exact absurd hm r.method?_ne_canExecute
      | recordSuccess => exact absurd heq (by simp [CircuitBreaker.apply, CircuitBreaker.recordSuccess])
      | recordFailure =>
        -- a failure opens a breaker, or leaves it as it was
        simp only [CircuitBreaker.apply, CircuitBreaker.recordFailure] at heq
        split at heq
        · exact absurd heq (by simp)
        · exact absurd heq hne

/-- **Half-open** is what the breaker is until an outcome is recorded; it limits nothing meanwhile. -/
theorem half_opens (threshold : ℕ) (recovery_timeout : ℚ) (es : List ClientEvent) (s : ClientState)
    (hr : (anyClock threshold recovery_timeout).Run es s) :
    HalfOpens threshold recovery_timeout es := by
  have stays : ∀ pre e mid, Enters threshold recovery_timeout pre e →
      (∀ e' ∈ mid, e'.records = false) →
      (breakerIn threshold recovery_timeout (pre ++ e :: mid)).state = .halfOpen := by
    intro pre e mid henter hmid
    rw [List.append_cons]
    exact state_of_halfOpen henter.2 hmid
  -- the breaker that the first outcome finds
  have outcome : ∀ pre e mid j u r method, r.method? = some method →
      breakerIn threshold recovery_timeout (pre ++ e :: (mid ++ [.finish j u r])) =
        (breakerIn threshold recovery_timeout (pre ++ e :: mid)).apply ⟨u, method⟩ := by
    intro pre e mid j u r method hmethod
    rw [← List.cons_append, ← List.append_assoc, breakerIn_append_singleton]
    simp only [ClientEvent.breakerCall?, hmethod, Option.map_some]
  constructor
  case entered =>
    rintro pre e post rfl henter
    exact henter.of_run hr
  case stays =>
    rintro pre e mid post - henter hmid
    exact stays pre e mid henter hmid
  case passes =>
    rintro pre e mid j u post rfl henter hmid
    have hsplit : pre ++ e :: (mid ++ .refuse j u :: post) =
        (pre ++ e :: mid) ++ .refuse j u :: post := by simp
    have hrefused := canExecute_of_refuse (hsplit ▸ hr)
    unfold CircuitBreaker.canExecute at hrefused
    rw [stays pre e mid henter hmid] at hrefused
    exact absurd hrefused (by simp)
  case closes =>
    rintro pre e mid j u r post - - - hmethod
    rw [outcome pre e mid j u r _ hmethod]
    rfl
  case reopens =>
    rintro pre e mid j u r post - henter hmid hmethod
    rw [outcome pre e mid j u r _ hmethod]
    have hstate := stays pre e mid henter hmid
    have hmany := threshold_le_failures (pre ++ e :: mid) (by rw [hstate]; simp)
    have hthr := (breakerIn_params threshold recovery_timeout (pre ++ e :: mid)).1
    change (if _ ≤ _ then CircuitState.open else _) = _
    rw [if_pos (hthr.trans_le (hmany.trans (Nat.le_succ _)))]

/-! ### Two probes -/

/-- Five requests have failed at time 0. -/
def failedBefore : List ClientEvent :=
  (List.range 5).flatMap fun i => [.pass i 0, .send i 0, .finish i 0 .requestError]

/-- The breaker that these leave open lets a request through at time 31, and a second one while the
first is unanswered. Both are sent. -/
def probeEvents : List ClientEvent :=
  failedBefore ++ .pass 5 31 :: ([.send 5 31, .pass 6 32, .send 6 32] ++ [])

theorem run_probeEvents : ∃ s, (serviceClient 5 30).Run probeEvents s := by
  have hsteps : (probeEvents.foldlM ClientState.step? (.new 5 30 0)).isSome = true := by
    decide +kernel
  obtain ⟨s, hs⟩ := Option.isSome_iff_exists.mp hsteps
  exact ⟨s, run_of_foldlM ⟨0, rfl⟩ hs⟩

theorem half_opens_probeEvents : HalfOpens 5 30 probeEvents := by
  obtain ⟨s, hr⟩ := run_probeEvents
  exact half_opens 5 30 probeEvents s (anyClock_of_serviceClient hr)

/-- **Two probes** are sent to the service within one half-open period, on a clock that is right. -/
theorem two_probes :
    (∃ s, (serviceClient 5 30).Run probeEvents s ∧ (anyClock 5 30).Run probeEvents s) ∧
      ¬ OneProbe 5 30 probeEvents := by
  refine ⟨?_, fun hone => ?_⟩
  · obtain ⟨s, hr⟩ := run_probeEvents
    exact ⟨s, hr, anyClock_of_serviceClient hr⟩
  · have henter : Enters 5 30 failedBefore (.pass 5 31) := ⟨by decide +kernel, by decide +kernel⟩
    have hmid : ∀ e ∈ [ClientEvent.send 5 31, .pass 6 32, .send 6 32], e.records = false := by decide
    have h := hone failedBefore (.pass 5 31) _ [] rfl henter hmid 5 31 31 6 32 32 (by simp) (by simp)
      (by simp) (by simp)
    exact absurd h (by decide)

end Legacy

end TaxlienGateway
