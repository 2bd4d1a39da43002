import TaxlienGateway.Framework.Prog

/-!
# Servers, faults and sequential runs

A `Server` executes one command at a time, atomically and deterministically. What can go wrong is
kept outside of it: a command may be lost on the way (`Fault.failed`, the server never executes it)
or its answer may be lost on the way back (`Fault.lost`, executed all the same). In both cases the
issuer sees an error. `Outcome` records which of the three happened, so that what the issuer saw
(`Outcome.seen`) and what the server did (`Outcome.effect`) are told apart.

`Prog.run srv faults p s` runs a program alone against a server under a given fault pattern: the
`n`-th command it issues meets the fault `faults n`.
-/

namespace Framework

/-- A server with state `σ`, executing commands `C` with replies `R`. -/
structure Server (C : Type) (R : C → Type) (σ : Type) where
  exec : (c : C) → σ → σ × R c

/-- What can go wrong with one command; `e` is the error its issuer sees. -/
inductive Fault where
  /-- The command is executed, but its reply does not arrive. -/
  | lost (e : String)
  /-- The command is not executed. -/
  | failed (e : String)
  deriving DecidableEq

/-- What became of one command with replies in `ρ`. -/
inductive Outcome (ρ : Type) where
  | ok (r : ρ)
  | lost (r : ρ) (e : String)
  | failed (e : String)
  deriving DecidableEq

namespace Outcome

variable {ρ : Type}

/-- What the issuer of the command sees. -/
def seen : Outcome ρ → Except String ρ
  | ok r => .ok r
  | lost _ e => .error e
  | failed e => .error e

/-- The reply of the server, if it executed the command. -/
def effect : Outcome ρ → Option ρ
  | ok r => some r
  | lost r _ => some r
  | failed _ => none

@[simp] theorem seen_ok (r : ρ) : (ok r).seen = .ok r := rfl
@[simp] theorem seen_lost (r : ρ) (e : String) : (lost r e).seen = .error e := rfl
@[simp] theorem seen_failed (e : String) : (failed e : Outcome ρ).seen = .error e := rfl
@[simp] theorem effect_ok (r : ρ) : (ok r).effect = some r := rfl
@[simp] theorem effect_lost (r : ρ) (e : String) : (lost r e).effect = some r := rfl
@[simp] theorem effect_failed (e : String) : (failed e : Outcome ρ).effect = none := rfl

/-- Only `ok` shows a reply. -/
theorem eq_of_seen {o : Outcome ρ} {r : ρ} (h : o.seen = .ok r) : o = .ok r := by
  cases o with
  | ok r' => exact congrArg ok (Except.ok.inj h)
  | lost r' e => exact absurd h (by simp)
  | failed e => exact absurd h (by simp)

/-- A reply that was seen was given. -/
theorem effect_of_seen {o : Outcome ρ} {r : ρ} (h : o.seen = .ok r) : o.effect = some r := by
  rw [eq_of_seen h, effect_ok]

end Outcome

namespace Server

variable {C : Type} {R : C → Type} {σ : Type} (srv : Server C R σ)

/-- One command under a fault: the state after it and what became of it. -/
def answer : Option Fault → (c : C) → σ → σ × Outcome (R c)
  | none, c, s => ((srv.exec c s).1, .ok (srv.exec c s).2)
  | some (.lost e), c, s => ((srv.exec c s).1, .lost (srv.exec c s).2 e)
  | some (.failed e), _, s => (s, .failed e)

variable {srv}

/-- An executed command leaves the state and gives the reply of `exec`. -/
theorem exec_of_answer {f : Option Fault} {c : C} {s s' : σ} {o : Outcome (R c)} {r : R c}
    (h : srv.answer f c s = (s', o)) (ho : o.effect = some r) : srv.exec c s = (s', r) := by
  match f with
  | none =>
    obtain ⟨rfl, rfl⟩ := Prod.mk.inj h
    exact Prod.ext rfl (Option.some.inj ho)
  | some (.lost e) =>
    obtain ⟨rfl, rfl⟩ := Prod.mk.inj h
    exact Prod.ext rfl (Option.some.inj ho)
  | some (.failed e) =>
    obtain ⟨rfl, rfl⟩ := Prod.mk.inj h
    exact absurd ho (by simp)

/-- A command that was not executed leaves the state as it was. -/
theorem eq_of_answer {f : Option Fault} {c : C} {s s' : σ} {o : Outcome (R c)}
    (h : srv.answer f c s = (s', o)) (ho : o.effect = none) : s' = s := by
  match f with
  | none =>
    obtain ⟨rfl, rfl⟩ := Prod.mk.inj h
    exact absurd ho (by simp)
  | some (.lost e) =>
    obtain ⟨rfl, rfl⟩ := Prod.mk.inj h
    exact absurd ho (by simp)
  | some (.failed e) =>
    obtain ⟨rfl, rfl⟩ := Prod.mk.inj h
    rfl

end Server

namespace Prog

variable {C : Type} {R : C → Type} {σ α β : Type} (srv : Server C R σ)

/-- Run a program alone: the `n`-th command it issues meets the fault `faults n`. -/
def run : (faults : ℕ → Option Fault) → Prog C R α → σ → σ × α
  | _, done a, s => (s, a)
  | faults, cmd c k, s =>
    run (fun n => faults (n + 1)) (k (srv.answer (faults 0) c s).2.seen)
      (srv.answer (faults 0) c s).1

@[simp] theorem run_done (faults : ℕ → Option Fault) (a : α) (s : σ) :
    run srv faults (done a : Prog C R α) s = (s, a) := rfl

/-- The first command of a run. -/
theorem run_of_answer {faults : ℕ → Option Fault} {c : C} {k : Except String (R c) → Prog C R α}
    {s s' : σ} {o : Outcome (R c)} (h : srv.answer (faults 0) c s = (s', o)) :
    run srv faults (cmd c k) s = run srv (fun n => faults (n + 1)) (k o.seen) s' := by
  rw [run, h]

/-- Running without any fault. -/
abbrev runOk (p : Prog C R α) (s : σ) : σ × α := run srv (fun _ => none) p s

theorem runOk_cmd (c : C) (k : Except String (R c) → Prog C R α) (s : σ) :
    runOk srv (cmd c k) s = runOk srv (k (.ok (srv.exec c s).2)) (srv.exec c s).1 := rfl

/-- Without faults, a sequence runs its first part and then its second. -/
theorem runOk_bind (p : Prog C R α) (f : α → Prog C R β) (s : σ) :
    runOk srv (p >>= f) s = runOk srv (f (runOk srv p s).2) (runOk srv p s).1 := by
  induction p generalizing s with
  | done a => rfl
  | cmd c k ih => exact ih _ _

/-- The history of a run: the commands the program issues, with what it sees of each. -/
def ops : (faults : ℕ → Option Fault) → Prog C R α → σ → List (Op C R)
  | _, done _, _ => []
  | faults, cmd c k, s =>
    ⟨c, (srv.answer (faults 0) c s).2.seen⟩ ::
      ops (fun n => faults (n + 1)) (k (srv.answer (faults 0) c s).2.seen)
        (srv.answer (faults 0) c s).1

/-- **Conduct of a run.** A program that obeys ends its run as its conduct says. -/
theorem Obeys.of_run {G : List (Op C R) → C → Prop} {Q : List (Op C R) → α → Prop}
    {p : Prog C R α} {h : List (Op C R)} (hp : p.Obeys G Q h) (srv : Server C R σ)
    (faults : ℕ → Option Fault) (s : σ) :
    Q (h ++ ops srv faults p s) (run srv faults p s).2 := by
  induction p generalizing h faults s with
  | done a =>
    rw [ops, List.append_nil]
    exact hp
  | cmd c k ih =>
    rw [ops, List.append_cons]
    exact ih _ (hp.2 _) _ _

end Prog

end Framework
