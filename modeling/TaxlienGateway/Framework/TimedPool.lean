import Mathlib.Data.List.Induction
import Mathlib.Order.Basic
import TaxlienGateway.Framework.Pool

/-!
# Interleaved calls under a clock

The pool of `Framework/Pool.lean` on a server whose effects depend on the time. Each event carries the
time at which it happens, and these times do not decrease; any time may pass between two events, whether
or not calls are in flight. A state is the time of the last event and the pool.

The rules are those of the pool, with the times:

* `timed_threads_invariant` — the invariant rule for the calls in flight;
* `Obeyed.run_timed` — a call in flight obeys the rest of its rule, and `Obeyed.guarded_timed` — so every
  command in the history satisfies one;
* `Obeyed.timed_invariant` — the invariant rule for the store, whose invariant may look at the timed
  history;
* `exists_split_of_mem_ownOps`, `exists_split_of_getLast?`, `exists_start_of_thread` — where in the history
  a call has issued a command of its own, its last one, and where it was started;
* `run_timedSession` — calls that run alone, one after the other, are a run.
-/

namespace Framework

variable {C : Type} {R : C → Type} {Call : Type} {Ret : Call → Type} {σ T : Type} [Preorder T]

/-- The pool under a clock. -/
def timedPool (srv : T → Server C R σ) (body : (call : Call) → Prog C R (Ret call)) (init : σ → Prop) :
    System (T × Pool C R Call Ret σ) (T × Event C R Call Ret) where
  init s := init s.2.store ∧ s.2.threads = fun _ => none
  step s e s' := s.1 ≤ e.1 ∧ s'.1 = e.1 ∧ PoolStep (srv e.1) body s.2 e.2 s'.2

variable {srv : T → Server C R σ} {body : (call : Call) → Prog C R (Ret call)} {init : σ → Prop}
  {G : Call → List (Op C R) → C → Prop} {Q : (call : Call) → List (Op C R) → Ret call → Prop}

/-! ### The clock -/

/-- The times of a run do not decrease, and the clock shows the last of them. -/
theorem times_of_run {es : List (T × Event C R Call Ret)} {s : T × Pool C R Call Ret σ}
    (hr : (timedPool srv body init).Run es s) :
    es.Pairwise (fun e e' => e.1 ≤ e'.1) ∧ ∀ e ∈ es, e.1 ≤ s.1 := by
  refine hr.clocked ?_
  rintro s e s' ⟨hclock, hnow, -⟩
  exact ⟨hclock, hnow⟩

/-! ### The calls in flight -/

/-- **Invariant rule for the calls in flight.** -/
theorem timed_threads_invariant {J : List (T × Event C R Call Ret) → ℕ → Thread C R Call Ret → Prop}
    (h_step : ∀ es p t e p', (∀ i th, p.threads i = some th → J es i th) → PoolStep (srv t) body p e p' →
      ∀ i th, p'.threads i = some th → J (es ++ [(t, e)]) i th)
    {es : List (T × Event C R Call Ret)} {s : T × Pool C R Call Ret σ}
    (hr : (timedPool srv body init).Run es s) : ∀ i th, s.2.threads i = some th → J es i th := by
  induction hr with
  | init h =>
    intro i th hth
    rw [h.2] at hth
    exact absurd hth (by simp)
  | step hr hs ih => exact h_step _ _ _ _ _ ih hs.2.2

/-! ### Their conduct -/

/-- **Conduct along a run.** -/
theorem Obeyed.run_timed (hb : Obeyed body G Q) {es : List (T × Event C R Call Ret)}
    {s : T × Pool C R Call Ret σ} (hr : (timedPool srv body init).Run es s) :
    ∀ i th, s.2.threads i = some th →
      th.rest.Obeys (G th.call) (Q th.call) (ownOps i (es.map Prod.snd)) := by
  refine timed_threads_invariant
    (J := fun es i th => th.rest.Obeys (G th.call) (Q th.call) (ownOps i (es.map Prod.snd))) ?_ hr
  intro es p t e p' ih hs
  rw [List.map_append]
  exact hb.step hs ih

/-- A call returns what its rule allows. -/
theorem Obeyed.returns (hb : Obeyed body G Q) {pre post : List (T × Event C R Call Ret)}
    {s : T × Pool C R Call Ret σ} {t : T} {i : ℕ} {call : Call} {a : Ret call}
    (hr : (timedPool srv body init).Run (pre ++ (t, .finish i call a) :: post) s) :
    Q call (ownOps i (pre.map Prod.snd)) a := by
  obtain ⟨s₀, ⟨t₁, p₁⟩, h₀, ⟨-, -, hstep⟩, -⟩ := hr.step_at
  cases hstep with
  | finish h => exact hb.run_timed h₀ i _ h

/-- **Every command is guarded.** A command in the history is one of a call in flight, and satisfies its
rule. -/
theorem Obeyed.guarded_timed (hb : Obeyed body G Q) {pre post : List (T × Event C R Call Ret)}
    {s : T × Pool C R Call Ret σ} {t : T} {i : ℕ} {call : Call} {c : C} {o : Outcome (R c)}
    (hr : (timedPool srv body init).Run (pre ++ (t, .cmd i call c o) :: post) s) :
    ∃ s₀ th, (timedPool srv body init).Run pre s₀ ∧ s₀.2.threads i = some th ∧ th.call = call ∧
      G call (ownOps i (pre.map Prod.snd)) c := by
  obtain ⟨s₀, ⟨t₁, p₁⟩, h₀, ⟨-, -, hstep⟩, -⟩ := hr.step_at
  cases hstep with
  | cmd h hx => exact ⟨s₀, _, h₀, h, rfl, (hb.run_timed h₀ i _ h).1⟩

/-- A command whose reply was seen was executed in the state that it met. -/
theorem executed_of_seen {pre post : List (T × Event C R Call Ret)} {s : T × Pool C R Call Ret σ} {t : T}
    {i : ℕ} {call : Call} {c : C} {o : Outcome (R c)} {r : R c}
    (hr : (timedPool srv body init).Run (pre ++ (t, .cmd i call c o) :: post) s) (hseen : o.seen = .ok r) :
    ∃ s₀ s', (timedPool srv body init).Run pre s₀ ∧ (srv t).exec c s₀.2.store = (s', r) := by
  obtain ⟨s₀, ⟨t₁, p₁⟩, h₀, ⟨-, -, hstep⟩, -⟩ := hr.step_at
  rcases hstep.exec_cases with ⟨hidle, -⟩ | ⟨i', call', c', k, o', r', heq, ho, -, hx⟩
  · exact absurd hidle (by simp [Event.applied?, Outcome.effect_of_seen hseen])
  · cases heq
    rw [Outcome.effect_of_seen hseen] at ho
    obtain rfl := Option.some.inj ho
    exact ⟨s₀, p₁.store, h₀, hx⟩

/-- The calls in flight after a step, with their own histories. -/
theorem PoolStep.own_cases {srv : Server C R σ} {p p' : Pool C R Call Ret σ} {e : Event C R Call Ret}
    {i : ℕ} {th : Thread C R Call Ret} (hs : PoolStep srv body p e p') (hth : p'.threads i = some th) :
    e = .start i th.call ∨
      ∃ th₀, p.threads i = some th₀ ∧ th₀.call = th.call ∧ (∀ call, e ≠ .start i call) ∧
        ((∀ h, ownStep i h e = h) ∨
          ∃ c o, e = .cmd i th.call c o ∧ ∀ h, ownStep i h e = h ++ [⟨c, o.seen⟩]) := by
  rcases hs.thread_cases hth with ⟨hp, hown⟩ | ⟨rfl, -⟩ | ⟨c, k, o, rfl, hp, -⟩
  · refine .inr ⟨th, hp, rfl, ?_, .inl hown⟩
    rintro call rfl
    -- a start would have emptied the history
    cases hs with
    | start hfree => exact absurd (hp.symm.trans hfree) (by simp)
  · exact .inl rfl
  · exact .inr ⟨_, hp, rfl, by simp, .inr ⟨c, o, rfl, fun h => by simp [ownStep]⟩⟩

/-- A step of another call. -/
theorem PoolStep.of_index_ne {srv : Server C R σ} {p p' : Pool C R Call Ret σ} {e : Event C R Call Ret}
    {i : ℕ} {th : Thread C R Call Ret} (hs : PoolStep srv body p e p') (hi : e.index ≠ i)
    (hth : p'.threads i = some th) : p.threads i = some th ∧ ∀ h, ownStep i h e = h := by
  rcases hs.thread_cases hth with h | ⟨rfl, -⟩ | ⟨c, k, o, rfl, -, -⟩
  · exact h
  · exact absurd rfl hi
  · exact absurd rfl hi

/-- A step of a call that is still in flight starts it, or answers a command. -/
theorem PoolStep.of_index_eq {srv : Server C R σ} {p p' : Pool C R Call Ret σ} {e : Event C R Call Ret}
    {i : ℕ} {th : Thread C R Call Ret} (hs : PoolStep srv body p e p') (hi : e.index = i)
    (hth : p'.threads i = some th) : e = .start i th.call ∨ ∃ c o, e = .cmd i th.call c o := by
  subst hi
  cases hs with
  | @start j call hfree =>
    obtain rfl : th = ⟨call, body call⟩ := by simpa [Event.index, eq_comm] using hth
    exact .inl rfl
  | @cmd j call c k f s' o hj hx =>
    obtain rfl : th = ⟨call, k o.seen⟩ := by simpa [Event.index, eq_comm] using hth
    exact .inr ⟨c, o, rfl⟩
  -- the index is free afterwards
  | finish hj => exact absurd hth (by simp [Event.index])
  | crash hj => exact absurd hth (by simp [Event.index])

omit [Preorder T] in
/-- An event that is not the start of a call does not start it anew. -/
theorem start_notMem_append {post : List (T × Event C R Call Ret)} {t : T} {e : Event C R Call Ret} {i : ℕ}
    (hpost : ∀ t' call, (t', Event.start i call) ∉ post) (he : ∀ call, e ≠ .start i call) :
    ∀ t' call, (t', Event.start i call) ∉ post ++ [(t, e)] := by
  intro t' call hmem
  rcases List.mem_append.mp hmem with hmem | hmem
  · exact hpost t' call hmem
  · exact he call (Prod.mk.inj (List.mem_singleton.mp hmem)).2.symm

/-- **Where a call has issued a command of its own.** Since then the call has not been started anew. -/
theorem exists_split_of_mem_ownOps {es : List (T × Event C R Call Ret)}
    {s : T × Pool C R Call Ret σ} (hr : (timedPool srv body init).Run es s) :
    ∀ i th, s.2.threads i = some th → ∀ op ∈ ownOps i (es.map Prod.snd),
      ∃ (pre : List (T × Event C R Call Ret)) (t : T) (o : Outcome (R op.1))
        (post : List (T × Event C R Call Ret)), es = pre ++ (t, .cmd i th.call op.1 o) :: post ∧
        o.seen = op.2 ∧ ∀ t' call, (t', Event.start i call) ∉ post := by
  refine timed_threads_invariant (J := fun es i th => ∀ op ∈ ownOps i (es.map Prod.snd),
    ∃ (pre : List (T × Event C R Call Ret)) (t : T) (o : Outcome (R op.1))
      (post : List (T × Event C R Call Ret)), es = pre ++ (t, .cmd i th.call op.1 o) :: post ∧
      o.seen = op.2 ∧ ∀ t' call, (t', Event.start i call) ∉ post) ?_ hr
  intro es p t e p' ih hs i th hth op hop
  rw [List.map_append, List.map_singleton, ownOps_append_singleton] at hop
  rcases hs.own_cases hth with rfl | ⟨th₀, hp, hcall, hstart, hown⟩
  · -- a start empties the history
    exact absurd hop (by simp [ownStep])
  · -- a command of before the step is still in its place
    have hbefore : op ∈ ownOps i (es.map Prod.snd) →
        ∃ (pre : List (T × Event C R Call Ret)) (t' : T) (o : Outcome (R op.1))
          (post : List (T × Event C R Call Ret)), es ++ [(t, e)] = pre ++ (t', .cmd i th.call op.1 o) :: post ∧
          o.seen = op.2 ∧ ∀ t' call, (t', Event.start i call) ∉ post := by
      intro hop
      obtain ⟨pre, t', o, post, rfl, hseen, hpost⟩ := ih i th₀ hp op hop
      rw [hcall]
      exact ⟨pre, t', o, post ++ [(t, e)], by simp, hseen, start_notMem_append hpost hstart⟩
    rcases hown with hown | ⟨c, o, rfl, hown⟩
    · rw [hown] at hop
      exact hbefore hop
    · rw [hown] at hop
      rcases List.mem_append.mp hop with hop | hop
      · exact hbefore hop
      · -- the command of this step is the last event
        obtain rfl := List.mem_singleton.mp hop
        exact ⟨es, t, o, [], rfl, rfl, by simp⟩

/-- The same, for a call that returns. -/
theorem exists_split_of_finish {pre post : List (T × Event C R Call Ret)} {s : T × Pool C R Call Ret σ}
    {t : T} {i : ℕ} {call : Call} {a : Ret call}
    (hr : (timedPool srv body init).Run (pre ++ (t, .finish i call a) :: post) s) {op : Op C R}
    (hop : op ∈ ownOps i (pre.map Prod.snd)) :
    ∃ (pre₁ : List (T × Event C R Call Ret)) (t' : T) (o : Outcome (R op.1))
      (pre₂ : List (T × Event C R Call Ret)), pre = pre₁ ++ (t', .cmd i call op.1 o) :: pre₂ ∧
      o.seen = op.2 ∧ ∀ t' call, (t', Event.start i call) ∉ pre₂ := by
  obtain ⟨s₀, ⟨t₁, p₁⟩, h₀, ⟨-, -, hstep⟩, -⟩ := hr.step_at
  cases hstep with
  | finish h => exact exists_split_of_mem_ownOps h₀ i _ h op hop

/-- **The last command of a call in flight.** Since then the call has done nothing. -/
theorem exists_split_of_getLast? {es : List (T × Event C R Call Ret)}
    {s : T × Pool C R Call Ret σ} (hr : (timedPool srv body init).Run es s) :
    ∀ i th, s.2.threads i = some th → ∀ op ∈ (ownOps i (es.map Prod.snd)).getLast?,
      ∃ (pre : List (T × Event C R Call Ret)) (t : T) (o : Outcome (R op.1))
        (post : List (T × Event C R Call Ret)), es = pre ++ (t, .cmd i th.call op.1 o) :: post ∧
        o.seen = op.2 ∧ ∀ e ∈ post, e.2.index ≠ i := by
  refine timed_threads_invariant (J := fun es i th => ∀ op ∈ (ownOps i (es.map Prod.snd)).getLast?,
    ∃ (pre : List (T × Event C R Call Ret)) (t : T) (o : Outcome (R op.1))
      (post : List (T × Event C R Call Ret)), es = pre ++ (t, .cmd i th.call op.1 o) :: post ∧
      o.seen = op.2 ∧ ∀ e ∈ post, e.2.index ≠ i) ?_ hr
  intro es p t e p' ih hs i th hth op hop
  rw [List.map_append, List.map_singleton, ownOps_append_singleton] at hop
  by_cases hi : e.index = i
  · rcases hs.of_index_eq hi hth with rfl | ⟨c, o, rfl⟩
    · -- a start empties the history
      exact absurd hop (by simp [ownStep])
    · obtain rfl : ⟨c, o.seen⟩ = op := by simpa [ownStep] using hop
      exact ⟨es, t, o, [], rfl, rfl, by simp⟩
  · -- another call
    obtain ⟨hp, hown⟩ := hs.of_index_ne hi hth
    rw [hown] at hop
    obtain ⟨pre, t', o, post, rfl, hseen, hpost⟩ := ih i th hp op hop
    refine ⟨pre, t', o, post ++ [(t, e)], by simp, hseen, fun e' he' => ?_⟩
    rcases List.mem_append.mp he' with he' | he'
    · exact hpost e' he'
    · obtain rfl := List.mem_singleton.mp he'
      exact hi

omit [Preorder T] in
/-- Conversely, what a call has issued since it was last started is in its own history. -/
theorem mem_ownOps_of_split {pre post : List (T × Event C R Call Ret)} {t : T} {i : ℕ} {call : Call}
    {c : C} {o : Outcome (R c)} (h : ∀ t' call', (t', Event.start i call') ∉ post) :
    (⟨c, o.seen⟩ : Op C R) ∈ ownOps i ((pre ++ (t, .cmd i call c o) :: post).map Prod.snd) := by
  induction post using List.reverseRecOn with
  | nil =>
    rw [List.map_append, List.map_cons, List.map_nil, ownOps_append_singleton]
    simp [ownStep]
  | append_singleton post e ih =>
    have ih := ih fun t' call' hmem => h t' call' (List.mem_append_left _ hmem)
    obtain ⟨t', e⟩ := e
    rw [← List.cons_append, ← List.append_assoc, List.map_append, List.map_singleton,
      ownOps_append_singleton]
    cases e with
    | start j call' =>
      -- by hypothesis it is another call that starts
      have hne : j ≠ i := by
        rintro rfl
        exact h t' call' (by simp)
      simpa [ownStep, hne] using ih
    | cmd j call' c' o' =>
      simp only [ownStep]
      split
      · exact List.mem_append_left _ ih
      · exact ih
    | finish j call' a => exact ih
    | crash j call' => exact ih

/-- **Where a call in flight was last started.** -/
theorem exists_start_of_thread {es : List (T × Event C R Call Ret)} {s : T × Pool C R Call Ret σ}
    (hr : (timedPool srv body init).Run es s) : ∀ i th, s.2.threads i = some th →
      ∃ (pre : List (T × Event C R Call Ret)) (t : T) (post : List (T × Event C R Call Ret)),
        es = pre ++ (t, .start i th.call) :: post ∧ ∀ t' call, (t', Event.start i call) ∉ post := by
  refine timed_threads_invariant (J := fun es i th =>
    ∃ (pre : List (T × Event C R Call Ret)) (t : T) (post : List (T × Event C R Call Ret)),
      es = pre ++ (t, .start i th.call) :: post ∧ ∀ t' call, (t', Event.start i call) ∉ post) ?_ hr
  intro es p t e p' ih hs i th hth
  rcases hs.own_cases hth with rfl | ⟨th₀, hp, hcall, hstart, -⟩
  · exact ⟨es, t, [], rfl, by simp⟩
  · -- a start of before the step is still the last one
    obtain ⟨pre, t', post, rfl, hpost⟩ := ih i th₀ hp
    rw [hcall]
    exact ⟨pre, t', post ++ [(t, e)], by simp, start_notMem_append hpost hstart⟩

/-! ### Invariants of the store -/

/-- **Invariant rule for the store.** `I` holds along every run if it holds initially, is kept by events
that execute nothing, and is kept by every executed command that its call's rule allows. -/
theorem Obeyed.timed_invariant (hb : Obeyed body G Q)
    {I : List (T × Event C R Call Ret) → σ → Prop} (h_init : ∀ s, init s → I [] s)
    (h_idle : ∀ es s t (e : Event C R Call Ret), I es s → e.applied? = none → I (es ++ [(t, e)]) s)
    (h_exec : ∀ es s t i call (c : C) k o r s', (timedPool srv body init).Run es s → I es s.2.store →
      s.1 ≤ t → s.2.threads i = some ⟨call, .cmd c k⟩ → G call (ownOps i (es.map Prod.snd)) c →
      o.effect = some r → (srv t).exec c s.2.store = (s', r) → I (es ++ [(t, .cmd i call c o)]) s')
    {es : List (T × Event C R Call Ret)} {s : T × Pool C R Call Ret σ}
    (hr : (timedPool srv body init).Run es s) : I es s.2.store := by
  induction hr with
  | init h => exact h_init _ h.1
  | @step es s e s' hr hs ih =>
    obtain ⟨t, e⟩ := e
    obtain ⟨hclock, -, hs⟩ := hs
    rcases hs.exec_cases with ⟨he, hstore⟩ | ⟨i, call, c, k, o, r, rfl, ho, hth, hx⟩
    · rw [hstore]
      exact h_idle es _ t e ih he
    · exact h_exec es s t i call c k o r _ hr ih hclock hth (hb.run_timed hr i _ hth).1 ho hx

/-! ### Single steps -/

section Steps

variable {es : List (T × Event C R Call Ret)} {s : T × Pool C R Call Ret σ} {t : T} {i : ℕ} {call : Call}

theorem run_started (hr : (timedPool srv body init).Run es s) (hclock : s.1 ≤ t)
    (hfree : s.2.threads i = none) :
    (timedPool srv body init).Run (es ++ [(t, .start i call)])
      (t, ⟨s.2.store, Function.update s.2.threads i (some ⟨call, body call⟩)⟩) :=
  hr.step ⟨hclock, rfl, PoolStep.start hfree⟩

theorem run_answered {c : C} {k : Except String (R c) → Prog C R (Ret call)} {f : Option Fault} {s' : σ}
    {o : Outcome (R c)} (hr : (timedPool srv body init).Run es s) (hclock : s.1 ≤ t)
    (hth : s.2.threads i = some ⟨call, .cmd c k⟩) (hx : (srv t).answer f c s.2.store = (s', o)) :
    (timedPool srv body init).Run (es ++ [(t, .cmd i call c o)])
      (t, ⟨s', Function.update s.2.threads i (some ⟨call, k o.seen⟩)⟩) :=
  hr.step ⟨hclock, rfl, PoolStep.cmd hth hx⟩

theorem run_finished {a : Ret call} (hr : (timedPool srv body init).Run es s) (hclock : s.1 ≤ t)
    (hth : s.2.threads i = some ⟨call, .done a⟩) :
    (timedPool srv body init).Run (es ++ [(t, .finish i call a)])
      (t, ⟨s.2.store, Function.update s.2.threads i none⟩) :=
  hr.step ⟨hclock, rfl, PoolStep.finish hth⟩

theorem run_crashed {th : Thread C R Call Ret} (hr : (timedPool srv body init).Run es s)
    (hclock : s.1 ≤ t) (hth : s.2.threads i = some th) :
    (timedPool srv body init).Run (es ++ [(t, .crash i th.call)])
      (t, ⟨s.2.store, Function.update s.2.threads i none⟩) :=
  hr.step ⟨hclock, rfl, PoolStep.crash hth⟩

end Steps

/-! ### Calls that run alone -/

/-- The rest of a call may run alone, at a time that has not passed. -/
theorem run_rest_timed {call : Call} {i : ℕ} {t : T} (q : Prog C R (Ret call)) :
    ∀ {es : List (T × Event C R Call Ret)} {s : T × Pool C R Call Ret σ} (faults : ℕ → Option Fault),
      (timedPool srv body init).Run es s → s.1 ≤ t → s.2.threads i = some ⟨call, q⟩ →
      (timedPool srv body init).Run
        (es ++ (q.events (srv t) i call faults s.2.store).map (t, ·))
        (t, ⟨(q.run (srv t) faults s.2.store).1, Function.update s.2.threads i none⟩) := by
  induction q with
  | done a =>
    intro es s faults hr hclock hth
    exact run_finished hr hclock hth
  | cmd c k ih =>
    intro es s faults hr hclock hth
    have hstep := run_answered (f := faults 0) hr hclock hth rfl
    have hrest := ih _ (fun n => faults (n + 1)) hstep (le_refl t) (Function.update_self ..)
    -- the last update of index `i` counts
    rw [List.append_assoc, Function.update_idem] at hrest
    exact hrest

/-- The store after calls that run alone, each at its time and without a fault. -/
def timedStore (srv : T → Server C R σ) (body : (call : Call) → Prog C R (Ret call)) :
    List (T × Call) → σ → σ
  | [], s => s
  | (t, call) :: calls, s => timedStore srv body calls ((body call).runOk (srv t) s).1

/-- Their events. -/
def timedSession (srv : T → Server C R σ) (body : (call : Call) → Prog C R (Ret call)) :
    List (T × Call) → σ → List (T × Event C R Call Ret)
  | [], _ => []
  | (t, call) :: calls, s =>
    (t, .start 0 call) :: ((body call).events (srv t) 0 call (fun _ => none) s).map (t, ·) ++
      timedSession srv body calls ((body call).runOk (srv t) s).1

/-- **Calls that run alone are a run**, if their times do not decrease. -/
theorem run_timedSession (calls : List (T × Call)) {t₀ : T} {s : σ} (hs : init s)
    (htimes : List.IsChain (· ≤ ·) (t₀ :: calls.map Prod.fst)) :
    ∃ t, (timedPool srv body init).Run (timedSession srv body calls s)
      (t, ⟨timedStore srv body calls s, fun _ => none⟩) := by
  suffices h : ∀ (calls : List (T × Call)) (es : List (T × Event C R Call Ret)) (t₀ : T) (s : σ),
      List.IsChain (· ≤ ·) (t₀ :: calls.map Prod.fst) →
      (timedPool srv body init).Run es (t₀, ⟨s, fun _ => none⟩) →
      ∃ t, (timedPool srv body init).Run (es ++ timedSession srv body calls s)
        (t, ⟨timedStore srv body calls s, fun _ => none⟩) by
    exact h calls [] t₀ s htimes (.init ⟨hs, rfl⟩)
  intro calls
  induction calls with
  | nil =>
    intro es t₀ s _ hr
    rw [timedSession, List.append_nil]
    exact ⟨t₀, hr⟩
  | cons call calls ih =>
    intro es t₀ s htimes hr
    obtain ⟨t, call⟩ := call
    rw [List.map_cons, List.isChain_cons_cons] at htimes
    have hstart : (timedPool srv body init).Run (es ++ [(t, .start 0 call)]) (t, _) :=
      run_started hr htimes.1 rfl
    have hcall := run_rest_timed (body call) (fun _ => none) hstart (le_refl t) (Function.update_self ..)
    -- the call is over, and its index is free for the next one
    have hnone : Function.update (fun _ => none : ℕ → Option (Thread C R Call Ret)) 0 none =
        fun _ => none := Function.update_eq_self 0 _
    rw [Function.update_idem, hnone] at hcall
    obtain ⟨t', hrun⟩ := ih _ t _ htimes.2 hcall
    refine ⟨t', ?_⟩
    rw [timedSession, List.cons_append, List.append_cons, ← List.append_assoc]
    exact hrun

end Framework
