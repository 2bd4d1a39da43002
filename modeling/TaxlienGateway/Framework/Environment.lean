import TaxlienGateway.Framework.Server

/-!
# Runs in an environment

A fault pattern `ℕ → Option Fault` numbers the commands of a run, so which command a fault meets depends
on what the run does before. An environment (`Env`) decides from the history and the command instead: it
can say which faults meet the commands of one kind, or of one part of a program.

* `runIn` — a program alone against a server in an environment, with the history it leaves behind;
* `runIn_bind` — the rule of sequencing, and `Obeys.of_runIn` the rule of conduct;
* `run_eq_runIn`, `exists_faults_of_runIn` — the two kinds of runs are the same runs.
-/

namespace Framework

/-- What goes wrong with the next command, after a history. -/
abbrev Env (C : Type) (R : C → Type) : Type := List (Op C R) → C → Option Fault

/-- How a run has ended. -/
structure Ended (C : Type) (R : C → Type) (σ α : Type) where
  state : σ
  value : α
  history : List (Op C R)

namespace Prog

variable {C : Type} {R : C → Type} {σ α β : Type} (srv : Server C R σ) (env : Env C R)

/-- Run a program alone in an environment, after the history `h`. -/
def runIn : (h : List (Op C R)) → Prog C R α → σ → Ended C R σ α
  | h, done a, s => ⟨s, a, h⟩
  | h, cmd c k, s =>
    runIn (h ++ [⟨c, (srv.answer (env h c) c s).2.seen⟩]) (k (srv.answer (env h c) c s).2.seen)
      (srv.answer (env h c) c s).1

variable {srv env}

/-- **Rule of sequencing.** -/
theorem runIn_bind (p : Prog C R α) (f : α → Prog C R β) (h : List (Op C R)) (s : σ) :
    runIn srv env h (p >>= f) s =
      runIn srv env (runIn srv env h p s).history (f (runIn srv env h p s).value)
        (runIn srv env h p s).state := by
  induction p generalizing h s with
  | done a => rfl
  | cmd c k ih => exact ih _ _ _

/-- **Conduct of a run.** -/
theorem Obeys.of_runIn {G : List (Op C R) → C → Prop} {Q : List (Op C R) → α → Prop} {p : Prog C R α}
    {h : List (Op C R)} (hp : p.Obeys G Q h) (s : σ) :
    Q (runIn srv env h p s).history (runIn srv env h p s).value := by
  induction p generalizing h s with
  | done a => exact hp
  | cmd c k ih => exact ih _ (hp.2 _) _

/-- A run under a fault pattern is a run in the environment that counts the commands. -/
theorem run_eq_runIn (faults : ℕ → Option Fault) (p : Prog C R α) (s : σ) :
    run srv faults p s =
      ((runIn srv (fun h _ => faults h.length) [] p s).state,
        (runIn srv (fun h _ => faults h.length) [] p s).value) := by
  suffices hgen : ∀ (h : List (Op C R)) (s : σ), run srv (fun n => faults (h.length + n)) p s =
      ((runIn srv (fun h _ => faults h.length) h p s).state,
        (runIn srv (fun h _ => faults h.length) h p s).value) by
    simpa using hgen [] s
  induction p with
  | done a => exact fun _ _ => rfl
  | cmd c k ih =>
    intro h s
    rw [runIn, run, ← ih]
    simp only [Nat.add_zero, List.length_append, List.length_singleton, Nat.add_assoc, Nat.add_comm 1]

/-- Conversely, every run in an environment is the run under some fault pattern. -/
theorem exists_faults_of_runIn (env : Env C R) (p : Prog C R α) (h : List (Op C R)) (s : σ) :
    ∃ faults, run srv faults p s = ((runIn srv env h p s).state, (runIn srv env h p s).value) := by
  induction p generalizing h s with
  | done a => exact ⟨fun _ => none, rfl⟩
  | cmd c k ih =>
    obtain ⟨faults, hrun⟩ := ih (srv.answer (env h c) c s).2.seen
      (h ++ [⟨c, (srv.answer (env h c) c s).2.seen⟩]) (srv.answer (env h c) c s).1
    exact ⟨fun n => if n = 0 then env h c else faults (n - 1), hrun⟩

end Prog

end Framework
