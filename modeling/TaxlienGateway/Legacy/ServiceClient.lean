import TaxlienGateway.Framework.System
import TaxlienGateway.Legacy.CircuitBreaker

/-!
# Overlapping requests of a service client

`ServiceClient.request` of `legacy/app/services/http_client.py`. All clients of a service share one
circuit breaker. A request asks the breaker, is sent, and later records its outcome; in between other
requests of the service go on. `serviceClient` is the transition system of these steps, under a clock
that does not run backwards; each request has an index of its own.

* `breaker_of_run` — the breaker of a run is the one of its breaker calls, so that the invariant of
  the breaker applies to it (`consistent_of_run`);
* `stays_open` — what an open breaker guarantees until a success is recorded;
* `late_success_closes` — a request admitted before the breaker opened may be the one that closes it.
-/

namespace TaxlienGateway

open Framework

namespace Legacy

/-- What `client.request` comes to. -/
inductive Upstream where
  | response (status : ℕ)
  /-- `httpx.RequestError` or `asyncio.TimeoutError` -/
  | requestError
  /-- Any other exception, a cancellation for instance. -/
  | otherError
  deriving DecidableEq

/-- The outcome that is recorded, if one is. -/
def Upstream.method? : Upstream → Option BreakerMethod
  | response status => some (if 500 ≤ status then .recordFailure else .recordSuccess)
  | requestError => some .recordFailure
  | otherError => none

/-- How far a request has come. -/
inductive Phase where
  | fresh
  | admitted
  | sent
  | done
  deriving DecidableEq

/-- The steps of request `i`, each at a time. -/
inductive ClientEvent where
  /-- `can_execute` returns true. -/
  | pass (i : ℕ) (now : ℚ)
  /-- `can_execute` returns false, and the request raises. -/
  | refuse (i : ℕ) (now : ℚ)
  | send (i : ℕ) (now : ℚ)
  /-- The outcome is recorded. A request may fail without having been sent. -/
  | finish (i : ℕ) (now : ℚ) (r : Upstream)
  deriving DecidableEq

def ClientEvent.time : ClientEvent → ℚ
  | pass _ now => now
  | refuse _ now => now
  | send _ now => now
  | finish _ now _ => now

/-- The call of the breaker in a step. -/
def ClientEvent.breakerCall? : ClientEvent → Option BreakerCall
  | pass _ now => some ⟨now, .canExecute⟩
  | refuse _ now => some ⟨now, .canExecute⟩
  | send _ _ => none
  | finish _ now r => r.method?.map fun method => ⟨now, method⟩

/-- A success is recorded. -/
def ClientEvent.isSuccess : ClientEvent → Bool
  | finish _ _ r => r.method? = some .recordSuccess
  | _ => false

/-! ### The system -/

structure ClientState where
  breaker : CircuitBreaker
  clock : ℚ
  phase : ℕ → Phase

/-- The breaker after a step. -/
def ClientState.call (s : ClientState) (e : ClientEvent) : CircuitBreaker :=
  match e.breakerCall? with
  | none => s.breaker
  | some c => s.breaker.apply c

/-- The phase of its request that a step needs, and the one it leads to. -/
def ClientState.next? (s : ClientState) : ClientEvent → Option (ℕ × Phase)
  | .pass i now =>
    if s.phase i = .fresh ∧ (s.breaker.canExecute now).2 = true then some (i, .admitted) else none
  | .refuse i now =>
    if s.phase i = .fresh ∧ (s.breaker.canExecute now).2 = false then some (i, .done) else none
  | .send i _ => if s.phase i = .admitted then some (i, .sent) else none
  | .finish i _ r =>
    -- a response needs a request that was sent, an exception may come before
    if s.phase i = .sent ∨ s.phase i = .admitted ∧ r = .requestError ∨
      s.phase i = .admitted ∧ r = .otherError then some (i, .done) else none

/-- A step, if it is possible. -/
def ClientState.step? (s : ClientState) (e : ClientEvent) : Option ClientState :=
  -- the clock does not run backwards
  if s.clock ≤ e.time then
    (s.next? e).map fun (i, phase) => ⟨s.call e, e.time, Function.update s.phase i phase⟩
  else none

/-- No request yet. -/
def ClientState.new (threshold : ℕ) (recovery_timeout clock : ℚ) : ClientState :=
  ⟨.new threshold recovery_timeout, clock, fun _ => .fresh⟩

/-- The requests of one service. -/
def serviceClient (threshold : ℕ) (recovery_timeout : ℚ) : System ClientState ClientEvent where
  init s := ∃ clock, s = .new threshold recovery_timeout clock
  step s e s' := s.step? e = some s'

/-- The breaker that a history leaves. -/
def breakerIn (threshold : ℕ) (recovery_timeout : ℚ) (es : List ClientEvent) : CircuitBreaker :=
  breakerAfter threshold recovery_timeout (es.filterMap ClientEvent.breakerCall?)

variable {threshold : ℕ} {recovery_timeout : ℚ} {es : List ClientEvent} {s : ClientState}

/-- **Inversion of a step.** -/
theorem step?_eq_some {s' : ClientState} {e : ClientEvent} (h : s.step? e = some s') :
    s.clock ≤ e.time ∧ ∃ i phase, s.next? e = some (i, phase) ∧
      s' = ⟨s.call e, e.time, Function.update s.phase i phase⟩ := by
  unfold ClientState.step? at h
  split at h
  · next hclock =>
    obtain ⟨⟨i, phase⟩, hnext, rfl⟩ := Option.map_eq_some_iff.mp h
    exact ⟨hclock, i, phase, hnext, rfl⟩
  · exact absurd h (by simp)

/-! ### The breaker of a run -/

theorem breakerIn_append_singleton (es : List ClientEvent) (e : ClientEvent) :
    breakerIn threshold recovery_timeout (es ++ [e]) =
      match e.breakerCall? with
      | none => breakerIn threshold recovery_timeout es
      | some c => (breakerIn threshold recovery_timeout es).apply c := by
  unfold breakerIn
  rw [List.filterMap_append]
  cases h : e.breakerCall? with
  | none => simp [h]
  | some c =>
    rw [List.filterMap_cons_some h, List.filterMap_nil, breakerAfter_append_singleton]

/-- **The breaker of a run** is determined by its history. -/
theorem breaker_of_run (hr : (serviceClient threshold recovery_timeout).Run es s) :
    s.breaker = breakerIn threshold recovery_timeout es := by
  refine System.Run.invariant (I := fun es s => s.breaker = breakerIn threshold recovery_timeout es)
    ?_ ?_ hr
  · rintro _ ⟨clock, rfl⟩
    rfl
  · intro es s e s' _ ih hstep
    obtain ⟨-, i, phase, -, rfl⟩ := step?_eq_some hstep
    rw [breakerIn_append_singleton, ← ih]
    rfl

/-- The times of a run do not decrease. -/
theorem clock_of_run (hr : (serviceClient threshold recovery_timeout).Run es s) :
    es.Pairwise (fun e e' => e.time ≤ e'.time) ∧ ∀ e ∈ es, e.time ≤ s.clock := by
  refine hr.clocked fun s e s' hstep => ?_
  obtain ⟨hclock, i, phase, -, rfl⟩ := step?_eq_some hstep
  exact ⟨hclock, rfl⟩

theorem time_of_breakerCall? {e : ClientEvent} {c : BreakerCall} (h : e.breakerCall? = some c) :
    c.time = e.time := by
  cases e with
  | pass i now => exact congrArg BreakerCall.time (Option.some.inj h).symm
  | refuse i now => exact congrArg BreakerCall.time (Option.some.inj h).symm
  | send i now => exact absurd h (by simp [ClientEvent.breakerCall?])
  | finish i now r =>
    obtain ⟨method, -, rfl⟩ := Option.map_eq_some_iff.mp h
    rfl

/-- **The invariant of the breaker** holds along every run. -/
theorem consistent_of_run (hthr : 1 ≤ threshold)
    (hr : (serviceClient threshold recovery_timeout).Run es s) {now : ℚ} (hnow : s.clock ≤ now) :
    Consistent (trailingFailures (es.filterMap ClientEvent.breakerCall?)) now
      (breakerIn threshold recovery_timeout es) := by
  obtain ⟨hpair, hle⟩ := clock_of_run hr
  refine consistent_breakerAfter hthr _ now (List.pairwise_append.mpr
    ⟨List.pairwise_map.mpr ?_, List.pairwise_singleton _ _, ?_⟩)
  · -- leaving out the events that are no calls keeps the order
    refine hpair.filterMap _ fun e e' hee' c hc c' hc' => ?_
    rw [time_of_breakerCall? hc, time_of_breakerCall? hc']
    exact hee'
  · intro t ht t' ht'
    obtain rfl := List.mem_singleton.mp ht'
    obtain ⟨c, hc, rfl⟩ := List.mem_map.mp ht
    obtain ⟨e, he, hec⟩ := List.mem_filterMap.mp hc
    rw [time_of_breakerCall? hec]
    exact (hle e he).trans hnow

theorem breakerIn_params (threshold : ℕ) (recovery_timeout : ℚ) (es : List ClientEvent) :
    (breakerIn threshold recovery_timeout es).threshold = threshold ∧
      (breakerIn threshold recovery_timeout es).recovery_timeout = recovery_timeout :=
  breakerAfter_params threshold recovery_timeout _

theorem closed_iff_of_run (hthr : 1 ≤ threshold)
    (hr : (serviceClient threshold recovery_timeout).Run es s) :
    (breakerIn threshold recovery_timeout es).state = .closed ↔
      (trailingFailures (es.filterMap ClientEvent.breakerCall?)).length < threshold := by
  rw [(consistent_of_run hthr hr le_rfl).closed, (breakerIn_params _ _ es).1]

/-! ### Requests in flight -/

/-- Only `pass` admits a request, and only an admitted one is sent. -/
theorem phase_of_next? {e : ClientEvent} {i : ℕ} {phase : Phase}
    (h : s.next? e = some (i, phase)) (hphase : phase = .admitted ∨ phase = .sent) :
    (∃ now, e = .pass i now) ∨ s.phase i = .admitted := by
  cases e with
  | pass j now =>
    obtain ⟨-, h⟩ := Option.ite_none_right_eq_some.mp h
    obtain ⟨rfl, -⟩ := Prod.mk.inj (Option.some.inj h)
    exact .inl ⟨now, rfl⟩
  | refuse j now =>
    obtain ⟨-, h⟩ := Option.ite_none_right_eq_some.mp h
    obtain ⟨-, rfl⟩ := Prod.mk.inj (Option.some.inj h)
    exact absurd hphase (by simp)
  | send j now =>
    obtain ⟨hadm, h⟩ := Option.ite_none_right_eq_some.mp h
    obtain ⟨rfl, -⟩ := Prod.mk.inj (Option.some.inj h)
    exact .inr hadm
  | finish j now r =>
    obtain ⟨-, h⟩ := Option.ite_none_right_eq_some.mp h
    obtain ⟨-, rfl⟩ := Prod.mk.inj (Option.some.inj h)
    exact absurd hphase (by simp)

/-- A request in flight has passed `can_execute`. -/
theorem pass_mem_of_phase (hr : (serviceClient threshold recovery_timeout).Run es s) {i : ℕ}
    (hi : s.phase i = .admitted ∨ s.phase i = .sent) : ∃ v, ClientEvent.pass i v ∈ es := by
  revert i
  refine System.Run.invariant (I := fun es s => ∀ {i : ℕ},
    s.phase i = .admitted ∨ s.phase i = .sent → ∃ v, ClientEvent.pass i v ∈ es) ?_ ?_ hr
  · rintro _ ⟨clock, rfl⟩ i hi
    exact absurd hi (by simp [ClientState.new])
  · intro es s e s' _ ih hstep i hi
    obtain ⟨-, j, phase, hnext, rfl⟩ := step?_eq_some hstep
    have hbefore : ∀ {i : ℕ}, s.phase i = .admitted ∨ s.phase i = .sent →
        ∃ v, ClientEvent.pass i v ∈ es ++ [e] := fun hi =>
      (ih hi).imp fun v hv => List.mem_append_left _ hv
    change Function.update s.phase j phase i = .admitted ∨
      Function.update s.phase j phase i = .sent at hi
    by_cases hij : i = j
    · -- the step is one of the request itself
      subst hij
      rw [Function.update_self] at hi
      obtain ⟨now, rfl⟩ | hadm := phase_of_next? hnext hi
      · exact ⟨now, List.mem_append_right _ (List.mem_singleton_self _)⟩
      · exact hbefore (.inl hadm)
    · -- other requests do not touch its phase
      rw [Function.update_of_ne hij] at hi
      exact hbefore hi

/-- What a step that admits, sends or records a success needs. -/
theorem next?_of_run {pre post : List ClientEvent} {e : ClientEvent}
    (hr : (serviceClient threshold recovery_timeout).Run (pre ++ e :: post) s) :
    ∃ t, (serviceClient threshold recovery_timeout).Run pre t ∧ t.clock ≤ e.time ∧
      (t.next? e).isSome := by
  obtain ⟨t, t', ht, hstep, -⟩ := hr.step_at
  obtain ⟨hclock, i, phase, hnext, -⟩ := step?_eq_some hstep
  exact ⟨t, ht, hclock, by rw [hnext]; rfl⟩

theorem pass_mem_of_send {pre post : List ClientEvent} {i : ℕ} {u : ℚ}
    (hr : (serviceClient threshold recovery_timeout).Run (pre ++ .send i u :: post) s) :
    ∃ v, ClientEvent.pass i v ∈ pre := by
  obtain ⟨t, ht, -, hnext⟩ := next?_of_run hr
  refine pass_mem_of_phase ht (.inl ?_)
  by_contra hadm
  exact absurd hnext (by simp [ClientState.next?, hadm])

theorem pass_mem_of_finish {pre post : List ClientEvent} {i : ℕ} {u : ℚ} {r : Upstream}
    (hr : (serviceClient threshold recovery_timeout).Run (pre ++ .finish i u r :: post) s) :
    ∃ v, ClientEvent.pass i v ∈ pre := by
  obtain ⟨t, ht, -, hnext⟩ := next?_of_run hr
  refine pass_mem_of_phase ht ?_
  by_contra hflight
  obtain ⟨hadm, hsent⟩ := not_or.mp hflight
  exact absurd hnext (by simp [ClientState.next?, hadm, hsent])

theorem canExecute_of_pass {pre post : List ClientEvent} {i : ℕ} {u : ℚ}
    (hr : (serviceClient threshold recovery_timeout).Run (pre ++ .pass i u :: post) s) :
    ∃ t, (serviceClient threshold recovery_timeout).Run pre t ∧ t.clock ≤ u ∧
      ((breakerIn threshold recovery_timeout pre).canExecute u).2 = true := by
  obtain ⟨t, ht, hclock, hnext⟩ := next?_of_run hr
  refine ⟨t, ht, hclock, ?_⟩
  rw [← breaker_of_run ht]
  by_contra hrefused
  exact absurd hnext (by simp [ClientState.next?, hrefused])

/-! ### An open breaker -/

/-- After `pre`, request `i` fails at time `t`, and this leaves the breaker open. -/
def Opens (threshold : ℕ) (recovery_timeout : ℚ) (pre : List ClientEvent) (i : ℕ) (t : ℚ)
    (r : Upstream) : Prop :=
  r.method? = some .recordFailure ∧
    (breakerIn threshold recovery_timeout (pre ++ [.finish i t r])).state = .open

/-- What is guaranteed of a history from the time `t` at which the breaker opens, until a success is
recorded. -/
structure StaysOpen (threshold : ℕ) (recovery_timeout : ℚ) (es : List ClientEvent) : Prop where
  /-- No request passes `can_execute` before the recovery timeout has passed. -/
  passed : ∀ pre i t r mid j u post,
    es = pre ++ .finish i t r :: (mid ++ .pass j u :: post) →
    Opens threshold recovery_timeout pre i t r → (∀ e ∈ mid, e.isSuccess = false) →
    t + recovery_timeout < u
  /-- A request that is sent before then had passed `can_execute` before the breaker opened. -/
  sent : ∀ pre i t r mid j u post,
    es = pre ++ .finish i t r :: (mid ++ .send j u :: post) →
    Opens threshold recovery_timeout pre i t r → (∀ e ∈ mid, e.isSuccess = false) →
    u ≤ t + recovery_timeout → ∃ v, .pass j v ∈ pre
  /-- A closed breaker was closed by the success of a request that had passed `can_execute` before
  the breaker opened, or after the recovery timeout had passed. -/
  closed : ∀ pre i t r mid post,
    es = pre ++ .finish i t r :: (mid ++ post) →
    Opens threshold recovery_timeout pre i t r →
    (breakerIn threshold recovery_timeout (pre ++ .finish i t r :: mid)).state = .closed →
    ∃ mid₁ j u r' mid₂ v, mid = mid₁ ++ .finish j u r' :: mid₂ ∧
      r'.method? = some .recordSuccess ∧ (∀ e ∈ mid₁, e.isSuccess = false) ∧
      (.pass j v ∈ pre ∨ .pass j v ∈ mid₁ ∧ t + recovery_timeout < v)

theorem isSuccess_of_breakerCall? {e : ClientEvent} {c : BreakerCall} (hc : e.breakerCall? = some c)
    (hmethod : c.method = .recordSuccess) : e.isSuccess = true := by
  cases e with
  | pass i now =>
    obtain rfl := Option.some.inj hc
    exact absurd hmethod (by simp)
  | refuse i now =>
    obtain rfl := Option.some.inj hc
    exact absurd hmethod (by simp)
  | send i now => exact absurd hc (by simp [ClientEvent.breakerCall?])
  | finish i now r =>
    obtain ⟨method, hm, rfl⟩ := Option.map_eq_some_iff.mp hc
    obtain rfl : method = .recordSuccess := hmethod
    simp [ClientEvent.isSuccess, hm]

theorem method_ne_of_isSuccess {mid : List ClientEvent} (h : ∀ e ∈ mid, e.isSuccess = false) :
    ∀ c ∈ mid.filterMap ClientEvent.breakerCall?, c.method ≠ .recordSuccess := by
  intro c hc hmethod
  obtain ⟨e, he, hec⟩ := List.mem_filterMap.mp hc
  exact absurd ((h e he).symm.trans (isSuccess_of_breakerCall? hec hmethod)) (by simp)

theorem finish_of_isSuccess {e : ClientEvent} (h : e.isSuccess = true) :
    ∃ j u r, e = .finish j u r ∧ r.method? = some .recordSuccess := by
  cases e with
  | pass i now => exact absurd h (by simp [ClientEvent.isSuccess])
  | refuse i now => exact absurd h (by simp [ClientEvent.isSuccess])
  | send i now => exact absurd h (by simp [ClientEvent.isSuccess])
  | finish i now r => exact ⟨i, now, r, rfl, of_decide_eq_true h⟩

/-- The first success of a history. -/
theorem exists_first {mid : List ClientEvent} (h : ∃ e ∈ mid, e.isSuccess = true) :
    ∃ e mid₁ mid₂, mid = mid₁ ++ e :: mid₂ ∧ e.isSuccess = true ∧
      ∀ e' ∈ mid₁, e'.isSuccess = false := by
  obtain ⟨e, hfind⟩ := Option.isSome_iff_exists.mp (List.find?_isSome.mpr h)
  obtain ⟨he, mid₁, mid₂, rfl, hbefore⟩ := List.find?_eq_some_iff_append.mp hfind
  exact ⟨e, mid₁, mid₂, rfl, he, fun e' he' => by simpa using hbefore e' he'⟩

/-- The trailing failures of an open breaker: the failure that opened it, and later ones. -/
theorem trailingFailures_of_opens (hthr : 1 ≤ threshold) {pre mid : List ClientEvent} {i : ℕ} {t : ℚ}
    {r : Upstream}
    (hr : (serviceClient threshold recovery_timeout).Run (pre ++ .finish i t r :: mid) s)
    (hopens : Opens threshold recovery_timeout pre i t r) (hmid : ∀ e ∈ mid, e.isSuccess = false) :
    threshold ≤ (trailingFailures ((pre ++ .finish i t r :: mid).filterMap
        ClientEvent.breakerCall?)).length ∧
      ∃ t' ∈ (trailingFailures ((pre ++ .finish i t r :: mid).filterMap
        ClientEvent.breakerCall?)).head?, t ≤ t' := by
  obtain ⟨hfailure, hopen⟩ := hopens
  obtain ⟨-, sf, -, -, hr'⟩ := hr.step_at
  obtain ⟨hpair, -⟩ := clock_of_run hr
  -- the failure itself
  have hcall : (ClientEvent.finish i t r).breakerCall? = some ⟨t, .recordFailure⟩ := by
    simp [ClientEvent.breakerCall?, hfailure]
  have hfirst : trailingFailures ((pre ++ [ClientEvent.finish i t r]).filterMap ClientEvent.breakerCall?) =
      t :: trailingFailures (pre.filterMap ClientEvent.breakerCall?) := by
    rw [List.filterMap_append, List.filterMap_cons_some hcall, List.filterMap_nil,
      trailingFailures_append_singleton]
  have hmany : threshold ≤ (trailingFailures ((pre ++ [ClientEvent.finish i t r]).filterMap
      ClientEvent.breakerCall?)).length := by
    rw [← not_lt, ← closed_iff_of_run hthr hr', hopen]
    simp
  -- what comes after it
  have hall : trailingFailures ((pre ++ .finish i t r :: mid).filterMap ClientEvent.breakerCall?) =
      trailingFailures (mid.filterMap ClientEvent.breakerCall?) ++
        t :: trailingFailures (pre.filterMap ClientEvent.breakerCall?) := by
    rw [List.append_cons, List.filterMap_append,
      trailingFailures_append _ (method_ne_of_isSuccess hmid), hfirst]
  rw [hall]
  refine ⟨?_, ?_⟩
  · rw [hfirst] at hmany
    exact hmany.trans (List.length_append ▸ Nat.le_add_left _ _)
  · cases hlast : trailingFailures (mid.filterMap ClientEvent.breakerCall?) with
    | nil => exact ⟨t, rfl, le_refl t⟩
    | cons t' ts =>
      refine ⟨t', rfl, ?_⟩
      obtain ⟨c, hc, rfl⟩ := exists_of_mem_trailingFailures (hlast ▸ List.mem_cons_self)
      obtain ⟨e, he, hec⟩ := List.mem_filterMap.mp hc
      rw [time_of_breakerCall? hec]
      exact List.rel_of_pairwise_cons (List.pairwise_append.mp hpair).2.1 he

/-- While no success is recorded, an open breaker lets no request pass before the timeout. -/
theorem late_of_opens (hthr : 1 ≤ threshold) {pre mid post : List ClientEvent} {i j : ℕ} {t u : ℚ}
    {r : Upstream}
    (hr : (serviceClient threshold recovery_timeout).Run
      (pre ++ .finish i t r :: (mid ++ .pass j u :: post)) s)
    (hopens : Opens threshold recovery_timeout pre i t r) (hmid : ∀ e ∈ mid, e.isSuccess = false) :
    t + recovery_timeout < u := by
  have hsplit : pre ++ ClientEvent.finish i t r :: (mid ++ .pass j u :: post) =
      (pre ++ .finish i t r :: mid) ++ .pass j u :: post := by simp
  rw [hsplit] at hr
  obtain ⟨s', hr', hclock, hpass⟩ := canExecute_of_pass hr
  obtain ⟨hmany, t', ht', hle⟩ := trailingFailures_of_opens hthr hr' hopens hmid
  obtain ⟨hparam, hparam'⟩ := breakerIn_params threshold recovery_timeout
    (pre ++ .finish i t r :: mid)
  -- the last failure is the one the timeout counts from, and `can_execute` has answered true
  have hlate : ¬ u - t' ≤ recovery_timeout := by
    intro hearly
    have hrefused := ((consistent_of_run hthr hr' hclock).canExecute_eq_false_iff
      (hthr.trans_eq hparam.symm)).mpr
      ⟨hparam.trans_le hmany, t', ht', hearly.trans_eq hparam'.symm⟩
    exact absurd (hrefused.symm.trans hpass) (by simp)
  calc t + recovery_timeout
      ≤ t' + recovery_timeout := by rwa [add_le_add_iff_right]
    _ < u := by linarith

/-- Where a request that is in flight while the breaker is open passed `can_execute`. -/
theorem origin_of_opens (hthr : 1 ≤ threshold) {pre mid post : List ClientEvent} {i j : ℕ} {t v : ℚ}
    {r : Upstream}
    (hr : (serviceClient threshold recovery_timeout).Run (pre ++ .finish i t r :: (mid ++ post)) s)
    (hopens : Opens threshold recovery_timeout pre i t r) (hmid : ∀ e ∈ mid, e.isSuccess = false)
    (hv : ClientEvent.pass j v ∈ pre ++ .finish i t r :: mid) :
    .pass j v ∈ pre ∨ .pass j v ∈ mid ∧ t + recovery_timeout < v := by
  rcases List.mem_append.mp hv with hv | hv
  · exact .inl hv
  · have hv : .pass j v ∈ mid := (List.mem_cons.mp hv).resolve_left (by simp)
    obtain ⟨mid₁, mid₂, rfl⟩ := List.append_of_mem hv
    have hr : (serviceClient threshold recovery_timeout).Run
        (pre ++ .finish i t r :: (mid₁ ++ .pass j v :: (mid₂ ++ post))) s := by
      simpa using hr
    exact .inr ⟨hv, late_of_opens hthr hr hopens fun e he => hmid e (List.mem_append_left _ he)⟩

/-- **An open breaker** lets no request pass before the recovery timeout, and is closed only by a
request that passed before it opened or after the timeout. -/
theorem stays_open (threshold : ℕ) (recovery_timeout : ℚ) (hthr : 1 ≤ threshold)
    (es : List ClientEvent) (s : ClientState)
    (hr : (serviceClient threshold recovery_timeout).Run es s) :
    StaysOpen threshold recovery_timeout es where
  passed := by
    rintro pre i t r mid j u post rfl hopens hmid
    exact late_of_opens hthr hr hopens hmid
  sent := by
    rintro pre i t r mid j u post rfl hopens hmid hu
    have hsplit : pre ++ ClientEvent.finish i t r :: (mid ++ .send j u :: post) =
        (pre ++ .finish i t r :: mid) ++ .send j u :: post := by simp
    obtain ⟨v, hv⟩ := pass_mem_of_send (hsplit ▸ hr)
    refine ⟨v, (origin_of_opens hthr hr hopens hmid hv).resolve_right ?_⟩
    rintro ⟨hvmid, hlate⟩
    -- had it passed since, then after the timeout, and it would have been sent too late
    have hvu : v ≤ u := by
      have hpair := (clock_of_run (hsplit ▸ hr)).1
      exact (List.pairwise_append.mp hpair).2.2 _ hv _ List.mem_cons_self
    linarith
  closed := by
    rintro pre i t r mid post rfl hopens hclosed
    have hsplit : pre ++ ClientEvent.finish i t r :: (mid ++ post) =
        (pre ++ .finish i t r :: mid) ++ post := by simp
    obtain ⟨s', hr'⟩ := (hsplit ▸ hr).of_append
    have hsuccess : ∃ e ∈ mid, e.isSuccess = true := by
      by_contra hnone
      have hmid : ∀ e ∈ mid, e.isSuccess = false := fun e he =>
        Bool.eq_false_iff.mpr fun h => hnone ⟨e, he, h⟩
      -- without a success the failures still add up to the threshold
      have hfew := (closed_iff_of_run hthr hr').mp hclosed
      exact absurd (trailingFailures_of_opens hthr hr' hopens hmid).1 (not_le.mpr hfew)
    -- the first success since the breaker opened
    obtain ⟨e, mid₁, mid₂, rfl, he, hmid₁⟩ := exists_first hsuccess
    obtain ⟨j, u, r', rfl, hmethod⟩ := finish_of_isSuccess he
    have hr : (serviceClient threshold recovery_timeout).Run
        ((pre ++ .finish i t r :: mid₁) ++ .finish j u r' :: (mid₂ ++ post)) s := by
      simpa using hr
    obtain ⟨v, hv⟩ := pass_mem_of_finish hr
    refine ⟨mid₁, j, u, r', mid₂, v, rfl, hmethod, hmid₁, ?_⟩
    have hr : (serviceClient threshold recovery_timeout).Run
        (pre ++ .finish i t r :: (mid₁ ++ .finish j u r' :: (mid₂ ++ post))) s := by
      simpa using hr
    exact origin_of_opens hthr hr hopens hmid₁ hv

/-! ### A late success -/

/-- Steps that are possible one after the other make a run. -/
theorem run_of_foldlM {s₀ : ClientState} (h₀ : (serviceClient threshold recovery_timeout).init s₀)
    (h : es.foldlM ClientState.step? s₀ = some s) :
    (serviceClient threshold recovery_timeout).Run es s := by
  induction es using List.reverseRecOn generalizing s with
  | nil =>
    obtain rfl := Option.some.inj h
    exact .init h₀
  | append_singleton es e ih =>
    rw [List.foldlM_append] at h
    obtain ⟨s', hs', hstep⟩ := Option.bind_eq_some_iff.mp h
    have hstep : s'.step? e = some s := by simpa using hstep
    exact .step (ih hs') hstep

/-- Six requests are sent at time 0; four of them fail at time 1. -/
def lateBefore : List ClientEvent :=
  (List.range 6).flatMap (fun i => [.pass i 0, .send i 0]) ++
    (List.range 4).map (fun i => .finish (i + 1) 1 (.response 500))

/-- The fifth failure opens the breaker at time 1. The sixth of these requests succeeds at time 2, and
a request is sent at time 3. -/
def lateEvents : List ClientEvent :=
  lateBefore ++ .finish 5 1 (.response 500) ::
    ([.finish 0 2 (.response 200), .pass 6 3] ++ .send 6 3 :: [])

theorem run_lateEvents : ∃ s, (serviceClient 5 30).Run lateEvents s := by
  have hsteps : (lateEvents.foldlM ClientState.step? (.new 5 30 0)).isSome = true := by
    decide +kernel
  obtain ⟨s, hs⟩ := Option.isSome_iff_exists.mp hsteps
  exact ⟨s, run_of_foldlM ⟨0, rfl⟩ hs⟩

theorem stays_open_lateEvents : StaysOpen 5 30 lateEvents := by
  obtain ⟨s, hr⟩ := run_lateEvents
  exact stays_open 5 30 (by decide) lateEvents s hr

/-- **A late success** closes a breaker that opened one second before, and a request is sent two
seconds after it opened. No request that passed `can_execute` did so after the recovery timeout. -/
theorem late_success_closes :
    (∃ s, (serviceClient 5 30).Run lateEvents s) ∧
      lateEvents = lateBefore ++ .finish 5 1 (.response 500) ::
        ([.finish 0 2 (.response 200), .pass 6 3] ++ .send 6 3 :: []) ∧
      Opens 5 30 lateBefore 5 1 (.response 500) ∧
      (1 < (3 : ℚ) ∧ (3 : ℚ) ≤ 1 + 30) ∧
      (breakerIn 5 30 (lateBefore ++ .finish 5 1 (.response 500) ::
        [.finish 0 2 (.response 200)])).state = .closed ∧
      ∀ j v, .pass j v ∈ lateEvents → v ≤ 1 + 30 := by
  refine ⟨run_lateEvents, rfl, ?_, by norm_num, by decide +kernel, ?_⟩
  · exact ⟨rfl, by decide +kernel⟩
  · intro j v hv
    have hearly : ∀ e ∈ lateEvents, e.time ≤ 1 + 30 := by decide +kernel
    exact hearly _ hv

end Legacy

end TaxlienGateway
