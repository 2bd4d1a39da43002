import TaxlienGateway.Framework.TimedPool

/-!
# Executing a schedule

The pool leaves open whose turn it is. A schedule fixes it: a list of moves, each of which starts a call,
lets a call take its next step under a given fault, or drops a call. A move that is not possible is
skipped, so every schedule can be executed, and what it executes is a run (`run_of_schedule`), and a
restricted one if every step is allowed (`run_of_permits`). Under a clock every move has its time
(`run_of_timedSchedule`).
-/

namespace Framework

/-- Whose turn it is, and what happens. -/
inductive Move (Call : Type) where
  | start (i : ℕ) (call : Call)
  /-- The next command of a call, or its return. -/
  | next (i : ℕ) (fault : Option Fault)
  | drop (i : ℕ)

variable {C : Type} {R : C → Type} {Call : Type} {Ret : Call → Type} {σ : Type}
  (srv : Server C R σ) (body : (call : Call) → Prog C R (Ret call))

/-- The next step of a call in flight. -/
def Pool.advance (p : Pool C R Call Ret σ) (i : ℕ) (fault : Option Fault) :
    Thread C R Call Ret → Event C R Call Ret × Pool C R Call Ret σ
  | ⟨call, .done a⟩ => (.finish i call a, { p with threads := Function.update p.threads i none })
  | ⟨call, .cmd c k⟩ =>
    let (s', o) := srv.answer fault c p.store
    (.cmd i call c o, ⟨s', Function.update p.threads i (some ⟨call, k o.seen⟩)⟩)

/-- One move, if it is possible. -/
def Pool.move (p : Pool C R Call Ret σ) :
    Move Call → Option (Event C R Call Ret × Pool C R Call Ret σ)
  | .start i call =>
    if (p.threads i).isSome then none
    else some (.start i call,
      { p with threads := Function.update p.threads i (some ⟨call, body call⟩) })
  | .next i fault => (p.threads i).map (p.advance srv i fault)
  | .drop i => (p.threads i).map fun th =>
      (.crash i th.call, { p with threads := Function.update p.threads i none })

/-- The moves of a schedule, one after the other. -/
def schedule : List (Move Call) → Pool C R Call Ret σ → List (Event C R Call Ret) × Pool C R Call Ret σ
  | [], p => ([], p)
  | m :: moves, p =>
    match p.move srv body m with
    | none => schedule moves p
    | some (e, p') => (e :: (schedule moves p').1, (schedule moves p').2)

variable {srv body} {init : σ → Prop}

/-- **A move is a step.** -/
theorem step_of_move {p p' : Pool C R Call Ret σ} {m : Move Call} {e : Event C R Call Ret}
    (h : p.move srv body m = some (e, p')) : PoolStep srv body p e p' := by
  cases m with
  | start i call =>
    change (if (p.threads i).isSome then none else _) = _ at h
    split at h
    · exact absurd h (by simp)
    · next hfree =>
      obtain ⟨rfl, rfl⟩ := Prod.mk.inj (Option.some.inj h)
      exact .start (Option.not_isSome_iff_eq_none.mp hfree)
  | next i fault =>
    obtain ⟨⟨call, rest⟩, hth, hadvance⟩ := Option.map_eq_some_iff.mp h
    cases rest with
    | done a =>
      obtain ⟨rfl, rfl⟩ := Prod.mk.inj hadvance
      exact .finish hth
    | cmd c k =>
      obtain ⟨rfl, rfl⟩ := Prod.mk.inj hadvance
      exact .cmd hth rfl
  | drop i =>
    obtain ⟨th, hth, hdrop⟩ := Option.map_eq_some_iff.mp h
    obtain ⟨rfl, rfl⟩ := Prod.mk.inj hdrop
    exact .crash hth

variable (srv body) in
/-- Every step that a schedule takes is allowed. -/
def Permits (allowed : Pool C R Call Ret σ → Event C R Call Ret → Prop) :
    List (Move Call) → Pool C R Call Ret σ → Prop
  | [], _ => True
  | m :: moves, p =>
    match p.move srv body m with
    | none => Permits allowed moves p
    | some (e, p') => allowed p e ∧ Permits allowed moves p'

instance decidablePermits {allowed : Pool C R Call Ret σ → Event C R Call Ret → Prop}
    [∀ p e, Decidable (allowed p e)] :
    ∀ (moves : List (Move Call)) (p : Pool C R Call Ret σ), Decidable (Permits srv body allowed moves p)
  | [], _ => isTrue trivial
  | m :: moves, p =>
    match hm : p.move srv body m with
    | none =>
      have : Decidable (Permits srv body allowed moves p) := decidablePermits moves p
      decidable_of_iff (Permits srv body allowed moves p) (by rw [Permits, hm])
    | some (e, p') =>
      have : Decidable (Permits srv body allowed moves p') := decidablePermits moves p'
      decidable_of_iff (allowed p e ∧ Permits srv body allowed moves p') (by rw [Permits, hm])

/-- A schedule of allowed steps continues a restricted run. -/
theorem run_restrict_schedule {allowed : Pool C R Call Ret σ → Event C R Call Ret → Prop}
    (moves : List (Move Call)) :
    ∀ {es : List (Event C R Call Ret)} {p : Pool C R Call Ret σ},
      ((pool srv body init).restrict allowed).Run es p → Permits srv body allowed moves p →
      ((pool srv body init).restrict allowed).Run (es ++ (schedule srv body moves p).1)
        (schedule srv body moves p).2 := by
  induction moves with
  | nil =>
    intro es p hr _
    rwa [schedule, List.append_nil]
  | cons m moves ih =>
    intro es p hr hpermits
    unfold Permits at hpermits
    unfold schedule
    split
    · next hmove =>
      rw [hmove] at hpermits
      exact ih hr hpermits
    · next e p' hmove =>
      rw [hmove] at hpermits
      show ((pool srv body init).restrict allowed).Run (es ++ e :: (schedule srv body moves p').1) _
      rw [List.append_cons]
      exact ih (hr.step ⟨step_of_move hmove, hpermits.1⟩) hpermits.2

theorem permits_true (moves : List (Move Call)) :
    ∀ p : Pool C R Call Ret σ, Permits srv body (fun _ _ => True) moves p := by
  induction moves with
  | nil => exact fun _ => trivial
  | cons m moves ih =>
    intro p
    unfold Permits
    split
    · exact ih p
    · exact ⟨trivial, ih _⟩

/-- **A schedule is a run**, from the beginning. -/
theorem run_of_schedule (moves : List (Move Call)) {s : σ} (hs : init s) :
    (pool srv body init).Run (schedule srv body moves ⟨s, fun _ => none⟩).1
      (schedule srv body moves ⟨s, fun _ => none⟩).2 :=
  (run_restrict_schedule moves (.init ⟨hs, rfl⟩) (permits_true moves _)).of_restrict

/-- **A schedule of allowed steps is a restricted run**, from the beginning. -/
theorem run_of_permits {allowed : Pool C R Call Ret σ → Event C R Call Ret → Prop}
    (moves : List (Move Call)) {s : σ} (hs : init s)
    (h : Permits srv body allowed moves ⟨s, fun _ => none⟩) :
    ((pool srv body init).restrict allowed).Run (schedule srv body moves ⟨s, fun _ => none⟩).1
      (schedule srv body moves ⟨s, fun _ => none⟩).2 :=
  run_restrict_schedule moves (.init ⟨hs, rfl⟩) h

/-! ### Under a clock -/

variable {T : Type}

/-- The moves of a schedule, each at its time. -/
def timedSchedule (srv : T → Server C R σ) (body : (call : Call) → Prog C R (Ret call)) :
    List (T × Move Call) → Pool C R Call Ret σ → List (T × Event C R Call Ret) × Pool C R Call Ret σ
  | [], p => ([], p)
  | (t, m) :: moves, p =>
    match p.move (srv t) body m with
    | none => timedSchedule srv body moves p
    | some (e, p') => ((t, e) :: (timedSchedule srv body moves p').1, (timedSchedule srv body moves p').2)

/-- **A schedule whose times do not decrease is a run**, from the beginning. -/
theorem run_of_timedSchedule [Preorder T] {srv : T → Server C R σ} (moves : List (T × Move Call)) {t₀ : T} {s : σ}
    (hs : init s) (htimes : List.IsChain (· ≤ ·) (t₀ :: moves.map Prod.fst)) :
    ∃ t, (timedPool srv body init).Run (timedSchedule srv body moves ⟨s, fun _ => none⟩).1
      (t, (timedSchedule srv body moves ⟨s, fun _ => none⟩).2) := by
  suffices h : ∀ (moves : List (T × Move Call)) (es : List (T × Event C R Call Ret)) (t₀ t₁ : T)
      (p : Pool C R Call Ret σ), List.IsChain (· ≤ ·) (t₀ :: moves.map Prod.fst) → t₁ ≤ t₀ →
      (timedPool srv body init).Run es (t₁, p) →
      ∃ t, (timedPool srv body init).Run (es ++ (timedSchedule srv body moves p).1)
        (t, (timedSchedule srv body moves p).2) by
    exact h moves [] t₀ t₀ _ htimes (le_refl t₀) (.init ⟨hs, rfl⟩)
  intro moves
  induction moves with
  | nil =>
    intro es t₀ t₁ p _ _ hr
    refine ⟨t₁, ?_⟩
    rwa [timedSchedule, List.append_nil]
  | cons m moves ih =>
    intro es t₀ t₁ p htimes hclock hr
    obtain ⟨t, m⟩ := m
    rw [List.map_cons, List.isChain_cons_cons] at htimes
    unfold timedSchedule
    split
    · -- the move is skipped, and its time passes
      exact ih es t t₁ p htimes.2 (hclock.trans htimes.1) hr
    · next e p' hmove =>
      have hstep : (timedPool srv body init).Run (es ++ [(t, e)]) (t, p') :=
        hr.step ⟨hclock.trans htimes.1, rfl, step_of_move hmove⟩
      obtain ⟨t', hrun⟩ := ih _ t t p' htimes.2 (le_refl t) hstep
      refine ⟨t', ?_⟩
      rw [List.append_cons]
      exact hrun

end Framework
