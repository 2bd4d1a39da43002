import TaxlienGateway.Framework.TimedPool

/-!
# Promised commands

Some replies commit the program that sees them to a further command: `promise c r = some d` says that a
reply `r` to `c` promises `d`. A program keeps its promises (`Prog.Keeps`) if the promised command is
always its very next one.

In a pool of such programs a promise can only be broken by a fault: the reply is lost, the promised
command fails, or the call crashes. `Keeps.bind` composes programs that keep their promises, and
`keeps_of_run` says that every call in flight does.
-/

namespace Framework

variable {C : Type} {R : C → Type} {α β : Type}

namespace Prog

/-- The next command of a program, if it has not ended. -/
def next? : Prog C R α → Option C
  | done _ => none
  | cmd c _ => some c

@[simp] theorem next?_done (a : α) : (done a : Prog C R α).next? = none := rfl

@[simp] theorem next?_cmd (c : C) (k : Except String (R c) → Prog C R α) :
    (cmd c k).next? = some c := rfl

theorem next?_bind {p : Prog C R α} {c : C} (h : p.next? = some c) (f : α → Prog C R β) :
    (p >>= f).next? = some c := by
  cases p with
  | done a => exact absurd h (by simp)
  | cmd c' k => exact h

/-- Whenever a reply promises a command, that command comes next. -/
def Keeps (promise : (c : C) → R c → Option C) : Prog C R α → Prop
  | done _ => True
  | cmd c k => (∀ r d, promise c r = some d → (k (.ok r)).next? = some d) ∧
      ∀ r, (k r).Keeps promise

variable {promise : (c : C) → R c → Option C}

@[simp] theorem keeps_done (a : α) : (done a : Prog C R α).Keeps promise := trivial

/-- A command that promises nothing. -/
theorem keeps_cmd_of_none {c : C} {k : Except String (R c) → Prog C R α}
    (hnone : ∀ r, promise c r = none) (hk : ∀ r, (k r).Keeps promise) : (cmd c k).Keeps promise :=
  ⟨fun r d hd => absurd hd (by simp [hnone r]), hk⟩

/-- **Rule of sequencing.** -/
theorem Keeps.bind {p : Prog C R α} {f : α → Prog C R β} (hp : p.Keeps promise)
    (hf : ∀ a, (f a).Keeps promise) : (p >>= f).Keeps promise := by
  induction p with
  | done a => exact hf a
  | cmd c k ih => exact ⟨fun r d hd => next?_bind (hp.1 r d hd) f, fun r => ih r (hp.2 r)⟩

end Prog

variable {Call : Type} {Ret : Call → Type} {σ T : Type} [Preorder T] {srv : T → Server C R σ}
  {body : (call : Call) → Prog C R (Ret call)} {init : σ → Prop} {promise : (c : C) → R c → Option C}

/-- Call index `j` is about to issue the command `c`. -/
def Pool.About (p : Pool C R Call Ret σ) (j : ℕ) (c : C) : Prop :=
  ∃ th, p.threads j = some th ∧ th.rest.next? = some c

/-- **Every call in flight keeps its promises.** -/
theorem keeps_of_run (hb : ∀ call, (body call).Keeps promise) {es : List (T × Event C R Call Ret)}
    {s : T × Pool C R Call Ret σ} (hr : (timedPool srv body init).Run es s) :
    ∀ i th, s.2.threads i = some th → th.rest.Keeps promise := by
  refine timed_threads_invariant (J := fun _ _ th => th.rest.Keeps promise) ?_ hr
  intro es p t e p' ih hs i th hth
  rcases hs.thread_cases hth with ⟨hp, -⟩ | ⟨-, hth'⟩ | ⟨c, k, o, -, hp, hth'⟩
  · exact ih i th hp
  · rw [hth']
    exact hb th.call
  · rw [hth']
    exact (ih i _ hp).2 o.seen

/-- **What one step does to the calls that are about to issue a command.** Only the call of the event
itself can move on. -/
theorem PoolStep.about {srv : Server C R σ} {p p' : Pool C R Call Ret σ} {e : Event C R Call Ret} {j : ℕ}
    {c : C} (hs : PoolStep srv body p e p') (h : p.About j c) (hj : e.index ≠ j) : p'.About j c := by
  obtain ⟨th, hth, hnext⟩ := h
  refine ⟨th, ?_, hnext⟩
  cases hs with
  | start hfree => exact (Function.update_of_ne hj.symm ..).trans hth
  | cmd hi hx => exact (Function.update_of_ne hj.symm ..).trans hth
  | finish hi => exact (Function.update_of_ne hj.symm ..).trans hth
  | crash hi => exact (Function.update_of_ne hj.symm ..).trans hth

/-- A call that sees a reply which promises a command is about to issue it. -/
theorem PoolStep.about_promised {srv : Server C R σ} {p p' : Pool C R Call Ret σ} {i : ℕ} {call : Call}
    {c d : C} {r : R c} (hs : PoolStep srv body p (.cmd i call c (.ok r)) p')
    (hkeeps : ∀ i th, p.threads i = some th → th.rest.Keeps promise) (hd : promise c r = some d) :
    p'.About i d := by
  cases hs with
  | cmd hi hx => exact ⟨_, Function.update_self .., (hkeeps i _ hi).1 r d hd⟩

end Framework
