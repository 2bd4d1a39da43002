import Mathlib.Data.List.Induction
import Mathlib.Order.Basic

/-!
# Labelled transition systems and their runs

A `System` is a set of initial states and a labelled step relation. A run is recorded by the list
of labels it took: `sys.Run ls s` says that `s` is reached from an initial state by steps labelled
`ls`, in order. The label list is the history of the run, so an invariant may relate the state to
everything that has happened before (`Run.invariant`) without any ghost field in the state.

* `Run.invariant` — the induction rule for history-aware invariants;
* `Run.of_append` — every prefix of a run is a run;
* `Run.step_at` — the step taken at a given position of a run;
* `Run.clocked` — the order of the times of a run, in a system with a clock;
* `restrict` — the runs whose steps all meet a condition.
-/

namespace Framework

/-- A labelled transition system over states `State` and labels `Label`. -/
structure System (State Label : Type) where
  /-- The initial states. -/
  init : State → Prop
  step : State → Label → State → Prop

namespace System

variable {State Label : Type} {sys : System State Label}

/-- `sys.Run ls s`: the state `s` is reached from an initial state along the labels `ls`. -/
inductive Run (sys : System State Label) : List Label → State → Prop
  | init {s : State} (h : sys.init s) : Run sys [] s
  | step {ls : List Label} {s : State} {l : Label} {s' : State}
      (hr : Run sys ls s) (hs : sys.step s l s') : Run sys (ls ++ [l]) s'

/-- **Invariant rule.** A predicate on histories and states that holds initially and is carried
by every step from a reachable state holds along every run. -/
theorem Run.invariant {I : List Label → State → Prop}
    (h_init : ∀ s, sys.init s → I [] s)
    (h_step : ∀ ls s l s', sys.Run ls s → I ls s → sys.step s l s' → I (ls ++ [l]) s')
    {ls : List Label} {s : State} (h : sys.Run ls s) : I ls s := by
  induction h with
  | init h => exact h_init _ h
  | step hr hs ih => exact h_step _ _ _ _ hr ih hs

/-- Inverting the last step of a run. -/
theorem Run.of_append_singleton {ls : List Label} {l : Label} {s' : State}
    (h : sys.Run (ls ++ [l]) s') : ∃ s, sys.Run ls s ∧ sys.step s l s' := by
  generalize hL : ls ++ [l] = L at h
  cases h with
  | init h => exact absurd hL (by simp)
  | step hr hs =>
    obtain ⟨rfl, hl⟩ := List.append_inj' hL rfl
    obtain rfl := List.singleton_inj.mp hl
    exact ⟨_, hr, hs⟩

/-- Runs of a system are runs of one that allows more. -/
theorem Run.mono {sys' : System State Label} {ls : List Label} {s : State} (h : sys.Run ls s)
    (hinit : ∀ s, sys.init s → sys'.init s) (hstep : ∀ s l s', sys.step s l s' → sys'.step s l s') :
    sys'.Run ls s := by
  induction h with
  | init h => exact .init (hinit _ h)
  | step hr hs ih => exact ih.step (hstep _ _ _ hs)

/-- Every prefix of a run is a run. -/
theorem Run.of_append {pre post : List Label} {s : State} (h : sys.Run (pre ++ post) s) :
    ∃ t, sys.Run pre t := by
  induction post using List.reverseRecOn generalizing s with
  | nil => exact ⟨s, by simpa using h⟩
  | append_singleton post l ih =>
    rw [← List.append_assoc] at h
    obtain ⟨t, ht, -⟩ := h.of_append_singleton
    exact ih ht

/-- The step a run takes at a given position of its history. -/
theorem Run.step_at {pre post : List Label} {l : Label} {s : State}
    (h : sys.Run (pre ++ l :: post) s) :
    ∃ t t', sys.Run pre t ∧ sys.step t l t' ∧ sys.Run (pre ++ [l]) t' := by
  rw [List.append_cons] at h
  obtain ⟨t', ht'⟩ := h.of_append
  obtain ⟨t, ht, hstep⟩ := ht'.of_append_singleton
  exact ⟨t, t', ht, hstep, ht'⟩

/-- **Clocks.** If the label of a step carries its time, and no step is taken before the time that the clock
shows, then the times of a run do not decrease, and the clock shows the last of them. -/
theorem Run.clocked {T : Type} [Preorder T] {clock : State → T} {time : Label → T}
    (h_step : ∀ s l s', sys.step s l s' → clock s ≤ time l ∧ clock s' = time l)
    {ls : List Label} {s : State} (h : sys.Run ls s) :
    ls.Pairwise (fun l l' => time l ≤ time l') ∧ ∀ l ∈ ls, time l ≤ clock s := by
  induction h with
  | init h => exact ⟨List.Pairwise.nil, fun l hl => absurd hl (by simp)⟩
  | @step ls s l s' hr hs ih =>
    obtain ⟨hpair, hle⟩ := ih
    obtain ⟨hclock, hnow⟩ := h_step _ _ _ hs
    -- the clock has passed every label, and the new one is not before it
    have hbefore : ∀ l' ∈ ls, time l' ≤ time l := fun l' hl' => (hle l' hl').trans hclock
    refine ⟨List.pairwise_append.mpr ⟨hpair, List.pairwise_singleton _ _, ?_⟩, ?_⟩
    · intro l' hl' l'' hl''
      obtain rfl := List.mem_singleton.mp hl''
      exact hbefore l' hl'
    · intro l' hl'
      rw [hnow]
      rcases List.mem_append.mp hl' with hl' | hl'
      · exact hbefore l' hl'
      · obtain rfl := List.mem_singleton.mp hl'
        exact le_refl _

/-! ### Restriction -/

/-- The runs of `sys` all of whose steps are allowed in the state they are taken in. -/
def restrict (sys : System State Label) (allowed : State → Label → Prop) : System State Label where
  init := sys.init
  step s l s' := sys.step s l s' ∧ allowed s l

theorem Run.of_restrict {allowed : State → Label → Prop} {ls : List Label} {s : State}
    (h : (sys.restrict allowed).Run ls s) : sys.Run ls s := by
  induction h with
  | init h => exact .init h
  | step hr hs ih => exact ih.step hs.1

/-- A condition on the labels alone. -/
theorem Run.restrict {allowed : Label → Prop} {ls : List Label} {s : State} (h : sys.Run ls s)
    (hall : ∀ l ∈ ls, allowed l) : (sys.restrict fun _ l => allowed l).Run ls s := by
  induction h with
  | init h => exact .init h
  | step hr hs ih =>
    exact (ih fun l hl => hall l (List.mem_append_left _ hl)).step
      ⟨hs, hall _ (List.mem_append_right _ (List.mem_singleton_self _))⟩

end System

end Framework
