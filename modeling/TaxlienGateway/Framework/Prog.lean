import Mathlib.Data.List.Basic

/-!
# Programs that issue commands

`Prog C R α` is a sequential program over a command alphabet `C`. Issuing a command `c` hands the
program either a reply of type `R c` or an error, and the program continues on what it got; it ends
with a value of type `α`. The type says nothing about who answers: a program is a tree with one
branch for every answer, so the same definition is run alone against a store (`Prog.run`) and
interleaved with others (`Framework/Pool.lean`).

## Rules

`Prog.Obeys G Q h p` is the rule-of-conduct judgement: whatever is answered, every command `c` that
`p` issues after a history `h` of commands and answers satisfies `G h c`, and the value it ends
with satisfies `Q` of the history. It has one rule for each program former (`obeys_done`,
`obeys_cmd`, `Obeys.bind`), a rule of consequence (`Obeys.mono`) and rules for what the commands keep
(`Obeys.guard_preserved`, `Obeys.and_preserved`).
-/

namespace Framework

/-- A program over commands `C` answered in `R`, ending with an `α`. -/
inductive Prog (C : Type) (R : C → Type) (α : Type) : Type
  | done (a : α)
  | cmd (c : C) (k : Except String (R c) → Prog C R α)

/-- A command together with the answer its issuer saw. -/
abbrev Op (C : Type) (R : C → Type) : Type := (c : C) × Except String (R c)

namespace Prog

variable {C : Type} {R : C → Type} {α β : Type}

/-- Sequencing: run `p`, then continue with its value. -/
def bind : Prog C R α → (α → Prog C R β) → Prog C R β
  | done a, f => f a
  | cmd c k, f => cmd c fun r => (k r).bind f

instance : Monad (Prog C R) where
  pure := done
  bind := bind

/-- The program that issues one command and returns its answer. -/
def issue (c : C) : Prog C R (Except String (R c)) := cmd c done

@[simp] theorem pure_eq (a : α) : (pure a : Prog C R α) = done a := rfl

@[simp] theorem done_bind (a : α) (f : α → Prog C R β) : (done a >>= f) = f a := rfl

@[simp] theorem cmd_bind (c : C) (k : Except String (R c) → Prog C R α) (f : α → Prog C R β) :
    (cmd c k >>= f) = cmd c fun r => k r >>= f := rfl

@[simp] theorem issue_bind (c : C) (f : Except String (R c) → Prog C R β) :
    (issue c >>= f) = cmd c f := rfl

theorem bind_assoc {γ : Type} (p : Prog C R α) (f : α → Prog C R β) (g : β → Prog C R γ) :
    (p >>= f) >>= g = p >>= fun a => f a >>= g := by
  induction p with
  | done a => rfl
  | cmd c k ih => exact congrArg (cmd c) (funext ih)

/-! ### The conduct of a program -/

/-- `Obeys G Q h p`: after the history `h`, every command `p` issues satisfies `G` of the history
at that point, and the value it ends with satisfies `Q`, whatever is answered. -/
def Obeys (G : List (Op C R) → C → Prop) (Q : List (Op C R) → α → Prop) :
    List (Op C R) → Prog C R α → Prop
  | h, done a => Q h a
  | h, cmd c k => G h c ∧ ∀ r, Obeys G Q (h ++ [⟨c, r⟩]) (k r)

variable {G G' : List (Op C R) → C → Prop} {Q Q' : List (Op C R) → α → Prop}

@[simp] theorem obeys_done {h : List (Op C R)} {a : α} : Obeys G Q h (done a) ↔ Q h a := Iff.rfl

@[simp] theorem obeys_cmd {h : List (Op C R)} {c : C} {k : Except String (R c) → Prog C R α} :
    Obeys G Q h (cmd c k) ↔ G h c ∧ ∀ r, Obeys G Q (h ++ [⟨c, r⟩]) (k r) := Iff.rfl

/-- **Rule of consequence.** -/
theorem Obeys.mono {h : List (Op C R)} {p : Prog C R α} (hp : Obeys G Q h p)
    (hG : ∀ h c, G h c → G' h c) (hQ : ∀ h a, Q h a → Q' h a) : Obeys G' Q' h p := by
  induction p generalizing h with
  | done a => exact hQ h a hp
  | cmd c k ih => exact ⟨hG h c hp.1, fun r => ih r (hp.2 r)⟩

/-- **Rule of sequencing.** -/
theorem Obeys.bind {Q₁ : List (Op C R) → β → Prop} {h : List (Op C R)} {p : Prog C R α}
    {f : α → Prog C R β} (hp : Obeys G Q h p) (hf : ∀ h a, Q h a → Obeys G Q₁ h (f a)) :
    Obeys G Q₁ h (p >>= f) := by
  induction p generalizing h with
  | done a => exact hf h a hp
  | cmd c k ih => exact ⟨hp.1, fun r => ih r (hp.2 r)⟩

/-- **Rule of preservation.** What every allowed command keeps of the history holds at every command. -/
theorem Obeys.guard_preserved {P : List (Op C R) → Prop} {h : List (Op C R)} {p : Prog C R α}
    (hp : Obeys G Q h p) (hP : P h) (hstep : ∀ h c r, G h c → P h → P (h ++ [⟨c, r⟩])) :
    Obeys (fun h c => G h c ∧ P h) (fun h a => Q h a ∧ P h) h p := by
  induction p generalizing h with
  | done a => exact ⟨hp, hP⟩
  | cmd c k ih => exact ⟨⟨hp.1, hP⟩, fun r => ih r (hp.2 r) (hstep h c r hp.1 hP)⟩

/-- And in the end. -/
theorem Obeys.and_preserved {P : List (Op C R) → Prop} {h : List (Op C R)} {p : Prog C R α}
    (hp : Obeys G Q h p) (hP : P h) (hstep : ∀ h c r, G h c → P h → P (h ++ [⟨c, r⟩])) :
    Obeys G (fun h a => Q h a ∧ P h) h p :=
  (hp.guard_preserved hP hstep).mono (fun _ _ h => h.1) fun _ _ h => h

end Prog

end Framework
