import Mathlib.Logic.Function.Basic
import TaxlienGateway.Framework.Server
import TaxlienGateway.Framework.System

/-!
# Interleaved calls on a shared server

Any number of calls run against one server. Each call executes a program (`body call`); the calls
in flight sit in a pool indexed by `ℕ`, and a step of the pool is one of

* `start` — a call is accepted and gets a free index,
* `cmd` — one call issues its next command, which the server executes atomically, or which meets a
  `Fault`,
* `finish` — a call whose program has ended returns its value,
* `crash` — a call disappears, whatever it was doing.

The pool is a `System` whose labels are these events, so a run `(pool srv body init).Run es p` keeps
the full history `es`.

## How a property of every interleaving is proved

* `threads_invariant` — a predicate that every step keeps of all calls in flight holds of each of them;
* `Obeyed.run` — if each body obeys its rule of conduct (`Prog.Obeys`), then every call in flight
  obeys the rest of it, after the history `ownOps i es` of its own commands.
* `Obeyed.guarded` — hence every command in the history satisfies its call's rule.
* `Obeyed.applied_invariant` — an invariant of the store holds along every run as soon as it holds
  initially and every command allowed by some rule carries it, since nothing else touches the store.
-/

namespace Framework

/-- A call in flight: what was asked and what is left of its program. -/
structure Thread (C : Type) (R : C → Type) (Call : Type) (Ret : Call → Type) where
  call : Call
  rest : Prog C R (Ret call)

/-- The shared store and the calls in flight. -/
structure Pool (C : Type) (R : C → Type) (Call : Type) (Ret : Call → Type) (σ : Type) where
  store : σ
  threads : ℕ → Option (Thread C R Call Ret)

/-- The events of a pool; `i` is the index of the call in the pool. -/
inductive Event (C : Type) (R : C → Type) (Call : Type) (Ret : Call → Type) where
  | start (i : ℕ) (call : Call)
  | cmd (i : ℕ) (call : Call) (c : C) (o : Outcome (R c))
  | finish (i : ℕ) (call : Call) (a : Ret call)
  | crash (i : ℕ) (call : Call)

/-- An executed command: by whom, which, and the reply of the server. -/
structure Applied (C : Type) (R : C → Type) (Call : Type) where
  call : Call
  cmd : C
  reply : R cmd

variable {C : Type} {R : C → Type} {Call : Type} {Ret : Call → Type} {σ : Type}

/-- The steps of a pool. -/
inductive PoolStep (srv : Server C R σ) (body : (call : Call) → Prog C R (Ret call)) :
    Pool C R Call Ret σ → Event C R Call Ret → Pool C R Call Ret σ → Prop
  | start {p : Pool C R Call Ret σ} {i : ℕ} {call : Call} (h : p.threads i = none) :
      PoolStep srv body p (.start i call)
        { p with threads := Function.update p.threads i (some ⟨call, body call⟩) }
  | cmd {p : Pool C R Call Ret σ} {i : ℕ} {call : Call} {c : C}
      {k : Except String (R c) → Prog C R (Ret call)} {f : Option Fault} {s' : σ}
      {o : Outcome (R c)} (h : p.threads i = some ⟨call, .cmd c k⟩)
      (hx : srv.answer f c p.store = (s', o)) :
      PoolStep srv body p (.cmd i call c o)
        { store := s', threads := Function.update p.threads i (some ⟨call, k o.seen⟩) }
  | finish {p : Pool C R Call Ret σ} {i : ℕ} {call : Call} {a : Ret call}
      (h : p.threads i = some ⟨call, .done a⟩) :
      PoolStep srv body p (.finish i call a)
        { p with threads := Function.update p.threads i none }
  | crash {p : Pool C R Call Ret σ} {i : ℕ} {th : Thread C R Call Ret}
      (h : p.threads i = some th) :
      PoolStep srv body p (.crash i th.call)
        { p with threads := Function.update p.threads i none }

/-- The pool as a labelled transition system, starting with no call in flight. -/
def pool (srv : Server C R σ) (body : (call : Call) → Prog C R (Ret call)) (init : σ → Prop) :
    System (Pool C R Call Ret σ) (Event C R Call Ret) where
  init p := init p.store ∧ p.threads = fun _ => none
  step := PoolStep srv body

/-! ### Reading a history -/

/-- The call that an event belongs to. -/
def Event.call : Event C R Call Ret → Call
  | .start _ call => call
  | .cmd _ call _ _ => call
  | .finish _ call _ => call
  | .crash _ call => call

/-- The index of that call. -/
def Event.index : Event C R Call Ret → ℕ
  | .start i _ => i
  | .cmd i _ _ _ => i
  | .finish i _ _ => i
  | .crash i _ => i

/-- The executed command of an event, if it is one. -/
def Event.applied? : Event C R Call Ret → Option (Applied C R Call)
  | .cmd _ call c o => o.effect.map fun r => ⟨call, c, r⟩
  | _ => none

/-- The commands a history executed, in order. -/
def applied (es : List (Event C R Call Ret)) : List (Applied C R Call) :=
  es.filterMap Event.applied?

@[simp] theorem applied_nil : applied ([] : List (Event C R Call Ret)) = [] := rfl

theorem applied_append_singleton (es : List (Event C R Call Ret)) (e : Event C R Call Ret) :
    applied (es ++ [e]) = applied es ++ e.applied?.toList := by
  unfold applied
  rw [List.filterMap_append]
  cases h : e.applied? <;> simp [h]

/-- An executed command comes from a `cmd` event. -/
theorem exists_cmd_of_mem_applied {es : List (Event C R Call Ret)} {a : Applied C R Call}
    (h : a ∈ applied es) :
    ∃ i o, Event.cmd i a.call a.cmd o ∈ es ∧ o.effect = some a.reply := by
  obtain ⟨e, he, hea⟩ := List.mem_filterMap.mp h
  cases e with
  | cmd i call c o =>
    obtain ⟨r, hr, rfl⟩ := Option.map_eq_some_iff.mp hea
    exact ⟨i, o, he, hr⟩
  | start i call => simp [Event.applied?] at hea
  | finish i call a => simp [Event.applied?] at hea
  | crash i call => simp [Event.applied?] at hea

/-- One event, read as part of the own history of call index `i`. -/
def ownStep (i : ℕ) (h : List (Op C R)) : Event C R Call Ret → List (Op C R)
  | .start j _ => if j = i then [] else h
  | .cmd j _ c o => if j = i then h ++ [⟨c, o.seen⟩] else h
  | _ => h

/-- The commands call index `i` has issued since it was last started, with what it saw. -/
def ownOps (i : ℕ) (es : List (Event C R Call Ret)) : List (Op C R) :=
  es.foldl (ownStep i) []

theorem ownOps_append_singleton (i : ℕ) (es : List (Event C R Call Ret))
    (e : Event C R Call Ret) : ownOps i (es ++ [e]) = ownStep i (ownOps i es) e := by
  unfold ownOps
  rw [List.foldl_append, List.foldl_cons, List.foldl_nil]

/-! ### What one step can do -/

variable {srv : Server C R σ} {body : (call : Call) → Prog C R (Ret call)} {init : σ → Prop}

/-- **Inversion, call by call.** A call in flight after a step was in flight before it and untouched,
has just been started, or has just had a command answered. -/
theorem PoolStep.thread_cases {p p' : Pool C R Call Ret σ} {e : Event C R Call Ret} {i : ℕ}
    {th : Thread C R Call Ret} (hs : PoolStep srv body p e p') (hth : p'.threads i = some th) :
    (p.threads i = some th ∧ ∀ h, ownStep i h e = h) ∨
    (e = .start i th.call ∧ th = ⟨th.call, body th.call⟩) ∨
    (∃ c k o, e = .cmd i th.call c o ∧ p.threads i = some ⟨th.call, .cmd c k⟩ ∧
      th = ⟨th.call, k o.seen⟩) := by
  cases hs with
  | @start j call hfree =>
    by_cases hij : j = i
    · subst hij
      obtain rfl : th = ⟨call, body call⟩ := by simpa [eq_comm] using hth
      exact .inr (.inl ⟨rfl, rfl⟩)
    · exact .inl ⟨by simpa [Function.update_of_ne (Ne.symm hij)] using hth, by simp [ownStep, hij]⟩
  | @cmd j call c k f s' o hj hx =>
    by_cases hij : j = i
    · -- what is left of the program is chosen by the answer
      subst hij
      obtain rfl : th = ⟨call, k o.seen⟩ := by simpa [eq_comm] using hth
      exact .inr (.inr ⟨c, k, o, rfl, hj, rfl⟩)
    · exact .inl ⟨by simpa [Function.update_of_ne (Ne.symm hij)] using hth, by simp [ownStep, hij]⟩
  | @finish j call a hj =>
    by_cases hij : j = i
    · -- the index is free afterwards
      subst hij
      exact absurd hth (by simp)
    · exact .inl ⟨by simpa [Function.update_of_ne (Ne.symm hij)] using hth, by simp [ownStep]⟩
  | @crash j th' hj =>
    by_cases hij : j = i
    · subst hij
      exact absurd hth (by simp)
    · exact .inl ⟨by simpa [Function.update_of_ne (Ne.symm hij)] using hth, by simp [ownStep]⟩

/-- **Inversion, at the store, with the event.** A step either leaves the store alone or executes the
next command of a call in flight. -/
theorem PoolStep.exec_cases {p p' : Pool C R Call Ret σ} {e : Event C R Call Ret}
    (hs : PoolStep srv body p e p') :
    (e.applied? = none ∧ p'.store = p.store) ∨
    (∃ i call c k o r, e = .cmd i call c o ∧ o.effect = some r ∧
      p.threads i = some ⟨call, .cmd c k⟩ ∧ srv.exec c p.store = (p'.store, r)) := by
  cases hs with
  | start h => exact .inl ⟨rfl, rfl⟩
  | @cmd i call c k f s' o h hx =>
    cases ho : o.effect with
    | none => exact .inl ⟨by simp [Event.applied?, ho], Server.eq_of_answer hx ho⟩
    | some r => exact .inr ⟨i, call, c, k, o, r, rfl, ho, h, Server.exec_of_answer hx ho⟩
  | finish h => exact .inl ⟨rfl, rfl⟩
  | crash h => exact .inl ⟨rfl, rfl⟩

/-- **Inversion, at the store.** The same, for the executed commands of a history. -/
theorem PoolStep.store_cases {p p' : Pool C R Call Ret σ} {e : Event C R Call Ret}
    (hs : PoolStep srv body p e p') :
    (e.applied? = none ∧ p'.store = p.store) ∨
    (∃ i call c k r, e.applied? = some ⟨call, c, r⟩ ∧ p.threads i = some ⟨call, .cmd c k⟩ ∧
      srv.exec c p.store = (p'.store, r)) := by
  rcases hs.exec_cases with h | ⟨i, call, c, k, o, r, rfl, ho, hth, hx⟩
  · exact .inl h
  · exact .inr ⟨i, call, c, k, r, by simp [Event.applied?, ho], hth, hx⟩

/-! ### The calls in flight -/

/-- **Invariant rule for the calls in flight.** There are none at first, so a predicate that every step
keeps of all of them holds of each of them along every run. -/
theorem threads_invariant {J : List (Event C R Call Ret) → ℕ → Thread C R Call Ret → Prop}
    (h_step : ∀ es p e p', (∀ i th, p.threads i = some th → J es i th) → PoolStep srv body p e p' →
      ∀ i th, p'.threads i = some th → J (es ++ [e]) i th)
    {es : List (Event C R Call Ret)} {p : Pool C R Call Ret σ} (hr : (pool srv body init).Run es p) :
    ∀ i th, p.threads i = some th → J es i th := by
  induction hr with
  | init h =>
    intro i th hth
    rw [h.2] at hth
    exact absurd hth (by simp)
  | step hr hs ih => exact h_step _ _ _ _ ih hs

/-! ### Their conduct -/

/-- Every body obeys the rule `G` of its call and ends in `Q`. -/
def Obeyed (body : (call : Call) → Prog C R (Ret call))
    (G : Call → List (Op C R) → C → Prop)
    (Q : (call : Call) → List (Op C R) → Ret call → Prop) : Prop :=
  ∀ call, (body call).Obeys (G call) (Q call) []

variable {G : Call → List (Op C R) → C → Prop}
  {Q : (call : Call) → List (Op C R) → Ret call → Prop}

/-- **Conduct in one step.** A call in flight obeys the rest of its rule after a step, if the calls in
flight before it did. -/
theorem Obeyed.step (hb : Obeyed body G Q) {es : List (Event C R Call Ret)}
    {p p' : Pool C R Call Ret σ} {e : Event C R Call Ret} (hs : PoolStep srv body p e p')
    (ih : ∀ i th, p.threads i = some th → th.rest.Obeys (G th.call) (Q th.call) (ownOps i es)) :
    ∀ i th, p'.threads i = some th →
      th.rest.Obeys (G th.call) (Q th.call) (ownOps i (es ++ [e])) := by
  intro i th hth
  rw [ownOps_append_singleton]
  rcases hs.thread_cases hth with ⟨hp, hown⟩ | ⟨rfl, hth'⟩ | ⟨c, k, o, rfl, hp, hth'⟩
  · rw [hown]
    exact ih i th hp
  · -- a call that was just started has no commands of its own yet
    rw [hth']
    simpa [ownStep] using hb th.call
  · -- the rule holds of what is left for every answer, hence for the one that was seen
    rw [hth']
    simpa [ownStep] using (ih i _ hp).2 o.seen

/-- **Conduct along a run.** Every call in flight obeys its rule from where it stands. -/
theorem Obeyed.run (hb : Obeyed body G Q) {es : List (Event C R Call Ret)}
    {p : Pool C R Call Ret σ} (hr : (pool srv body init).Run es p) :
    ∀ i th, p.threads i = some th → th.rest.Obeys (G th.call) (Q th.call) (ownOps i es) :=
  threads_invariant (J := fun es i th => th.rest.Obeys (G th.call) (Q th.call) (ownOps i es))
    (fun _ _ _ _ ih hs => hb.step hs ih) hr

/-- **Every command is guarded.** A command in the history satisfies the rule of the call that
issued it, after that call's own history. -/
theorem Obeyed.guarded (hb : Obeyed body G Q) {pre post : List (Event C R Call Ret)}
    {p : Pool C R Call Ret σ} {i : ℕ} {call : Call} {c : C} {o : Outcome (R c)}
    (hr : (pool srv body init).Run (pre ++ .cmd i call c o :: post) p) :
    G call (ownOps i pre) c := by
  obtain ⟨t, t', ht, hstep, -⟩ := hr.step_at
  cases hstep with
  | cmd h hx => exact (hb.run ht i _ h).1

/-- A command in a call's own history is a `cmd` event of that call. -/
theorem exists_cmd_of_mem_ownOps {es : List (Event C R Call Ret)} {p : Pool C R Call Ret σ}
    (hr : (pool srv body init).Run es p) :
    ∀ i th, p.threads i = some th → ∀ op ∈ ownOps i es,
      ∃ o : Outcome (R op.1), Event.cmd i th.call op.1 o ∈ es ∧ o.seen = op.2 := by
  refine threads_invariant (J := fun es i th => ∀ op ∈ ownOps i es,
    ∃ o : Outcome (R op.1), Event.cmd i th.call op.1 o ∈ es ∧ o.seen = op.2) ?_ hr
  intro es p e p' ih hs i th hth op hop
  rw [ownOps_append_singleton] at hop
  rcases hs.thread_cases hth with ⟨hp, hown⟩ | ⟨rfl, -⟩ | ⟨c, k, o, rfl, hp, -⟩
  · rw [hown] at hop
    obtain ⟨o, ho, hseen⟩ := ih i th hp op hop
    exact ⟨o, List.mem_append_left _ ho, hseen⟩
  · simp [ownStep] at hop
  · simp only [ownStep, ↓reduceIte, List.mem_append, List.mem_singleton] at hop
    -- an older command, or the command of this step
    rcases hop with hop | rfl
    · obtain ⟨o', ho', hseen⟩ := ih i _ hp op hop
      exact ⟨o', List.mem_append_left _ ho', hseen⟩
    · exact ⟨o, by simp, rfl⟩

/-- A call in flight was started. -/
theorem start_mem_of_thread {es : List (Event C R Call Ret)} {p : Pool C R Call Ret σ}
    (hr : (pool srv body init).Run es p) :
    ∀ i th, p.threads i = some th → Event.start i th.call ∈ es := by
  refine threads_invariant (J := fun es i th => Event.start i th.call ∈ es) ?_ hr
  intro es p e p' ih hs i th hth
  rcases hs.thread_cases hth with ⟨hp, -⟩ | ⟨rfl, -⟩ | ⟨c, k, o, rfl, hp, -⟩
  · exact List.mem_append_left _ (ih i th hp)
  · exact List.mem_append_right _ List.mem_cons_self
  · exact List.mem_append_left _ (ih i ⟨th.call, .cmd c k⟩ hp)

/-- The call of a command in the history is in flight at that point. -/
theorem exists_thread_of_cmd {pre post : List (Event C R Call Ret)} {p : Pool C R Call Ret σ}
    {i : ℕ} {call : Call} {c : C} {o : Outcome (R c)}
    (hr : (pool srv body init).Run (pre ++ .cmd i call c o :: post) p) :
    ∃ t th, (pool srv body init).Run pre t ∧ t.threads i = some th ∧ th.call = call := by
  obtain ⟨t, t', ht, hstep, -⟩ := hr.step_at
  cases hstep with
  | cmd h hx => exact ⟨t, _, ht, h, rfl⟩

/-- The call of an executed command was started. -/
theorem start_mem_of_applied {es : List (Event C R Call Ret)} {p : Pool C R Call Ret σ}
    (hr : (pool srv body init).Run es p) {a : Applied C R Call} (ha : a ∈ applied es) :
    ∃ i, Event.start i a.call ∈ es := by
  obtain ⟨i, o, he, -⟩ := exists_cmd_of_mem_applied ha
  obtain ⟨pre, post, rfl⟩ := List.append_of_mem he
  obtain ⟨t, th, hpre, hth, hcall⟩ := exists_thread_of_cmd hr
  have hstart := start_mem_of_thread hpre i th hth
  rw [hcall] at hstart
  exact ⟨i, List.mem_append_left _ hstart⟩

/-! ### Invariants of the store -/

/-- **Invariant rule for the store.** If `I` holds of the initial stores and every executed command
that its call's rule allows carries `I`, then `I` holds of the store along every run. -/
theorem Obeyed.applied_invariant (hb : Obeyed body G Q)
    {I : List (Applied C R Call) → σ → Prop} (h_init : ∀ s, init s → I [] s)
    (h_exec : ∀ hist s call own (c : C) s' r, I hist s → G call own c →
      srv.exec c s = (s', r) → I (hist ++ [⟨call, c, r⟩]) s')
    {es : List (Event C R Call Ret)} {p : Pool C R Call Ret σ}
    (hr : (pool srv body init).Run es p) : I (applied es) p.store := by
  induction hr with
  | init h => exact h_init _ h.1
  | @step es p e p' hr hs ih =>
    rw [applied_append_singleton]
    rcases hs.store_cases with ⟨he, hstore⟩ | ⟨i, call, c, k, r, he, hp, hx⟩
    · rw [he, hstore]
      simpa using ih
    · -- the command is the next one of a call in flight, so its rule allows it
      rw [he]
      exact h_exec _ _ _ _ c _ r ih (hb.run hr i _ hp).1 hx

/-! ### Calls that run alone

A call executed from start to finish with nothing in between is the special case of a sequential
run (`Prog.run`): `run_alone` says that its events continue any run with a free index, and
`run_session` that a sequence of such calls is a run.
-/

/-- The events of call index `i` while the rest `q` of its program runs alone. -/
def Prog.events (srv : Server C R σ) (i : ℕ) (call : Call) :
    (faults : ℕ → Option Fault) → Prog C R (Ret call) → σ → List (Event C R Call Ret)
  | _, .done a, _ => [.finish i call a]
  | faults, .cmd c k, s =>
    .cmd i call c (srv.answer (faults 0) c s).2 ::
      events srv i call (fun n => faults (n + 1)) (k (srv.answer (faults 0) c s).2.seen)
        (srv.answer (faults 0) c s).1

/-- The rest of a call may run alone from any state of the pool. -/
theorem run_rest {call : Call} {i : ℕ} (q : Prog C R (Ret call)) :
    ∀ {es : List (Event C R Call Ret)} {p : Pool C R Call Ret σ} (faults : ℕ → Option Fault),
      (pool srv body init).Run es p → p.threads i = some ⟨call, q⟩ →
      (pool srv body init).Run (es ++ q.events srv i call faults p.store)
        ⟨(q.run srv faults p.store).1, Function.update p.threads i none⟩ := by
  induction q with
  | done a =>
    intro es p faults hr hth
    exact hr.step (PoolStep.finish hth)
  | cmd c k ih =>
    intro es p faults hr hth
    have hstep := hr.step (PoolStep.cmd (f := faults 0) hth rfl)
    have hrest := ih _ (fun n => faults (n + 1)) hstep (Function.update_self ..)
    -- the last update of index `i` counts
    rw [List.append_assoc, Function.update_idem] at hrest
    exact hrest

/-- **A call may run alone.** -/
theorem run_alone {es : List (Event C R Call Ret)} {p : Pool C R Call Ret σ} {i : ℕ} (call : Call)
    (faults : ℕ → Option Fault) (hr : (pool srv body init).Run es p) (hfree : p.threads i = none) :
    (pool srv body init).Run
      (es ++ .start i call :: (body call).events srv i call faults p.store)
      ⟨((body call).run srv faults p.store).1, p.threads⟩ := by
  have hstart : (pool srv body init).Run (es ++ [.start i call]) _ :=
    hr.step (PoolStep.start hfree)
  have hrest := run_rest (body call) faults hstart (Function.update_self ..)
  rw [List.append_assoc, Function.update_idem, ← hfree, Function.update_eq_self] at hrest
  exact hrest

/-- The store after a sequence of calls that run alone and meet no fault. -/
def sessionStore (srv : Server C R σ) (body : (call : Call) → Prog C R (Ret call)) :
    List Call → σ → σ
  | [], s => s
  | call :: calls, s => sessionStore srv body calls ((body call).runOk srv s).1

/-- The events of such a sequence. -/
def sessionEvents (srv : Server C R σ) (body : (call : Call) → Prog C R (Ret call)) :
    List Call → σ → List (Event C R Call Ret)
  | [], _ => []
  | call :: calls, s =>
    .start 0 call :: (body call).events srv 0 call (fun _ => none) s ++
      sessionEvents srv body calls ((body call).runOk srv s).1

/-- **A sequence of calls is a run.** -/
theorem run_session (calls : List Call) {s : σ} (hs : init s) :
    (pool srv body init).Run (sessionEvents srv body calls s)
      ⟨sessionStore srv body calls s, fun _ => none⟩ := by
  suffices h : ∀ (calls : List Call) (es : List (Event C R Call Ret)) (s : σ),
      (pool srv body init).Run es ⟨s, fun _ => none⟩ →
      (pool srv body init).Run (es ++ sessionEvents srv body calls s)
        ⟨sessionStore srv body calls s, fun _ => none⟩ by
    exact h calls [] s (.init ⟨hs, rfl⟩)
  intro calls
  induction calls with
  | nil =>
    intro es s hr
    rw [sessionEvents, List.append_nil]
    exact hr
  | cons call calls ih =>
    intro es s hr
    have hcall := run_alone (i := 0) call (fun _ => none) hr rfl
    rw [sessionEvents, List.cons_append, ← List.cons_append, ← List.append_assoc]
    exact ih _ _ hcall

end Framework
