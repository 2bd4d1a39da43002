import TaxlienGateway.Framework.TimedPool

/-!
# Commands that are programs

A program over commands `C` may run on a server that has some of these commands only as programs, over its
own commands and those of a component with commands `D`: `implement impl` replaces each command by its
implementation. While an implementation runs, other calls go on, so what was one step becomes several.

An implementation is a command as far as anybody can see if it acts once at most: it consults the component
any number of times, then issues the command itself, and after that consults the component only, on its way to
return what it has seen (`Prog.Pending`, `Prog.Settled`). Or it gives up before the command is issued, and
returns an error.

* `implement_refines` — then every run of the programs that are implemented is a run of the programs
  themselves, in which a call that gives up has a command that fails;
* `Prog.Obeys.implement` — what the implementations do shows what the implemented programs do;
* `Reads` — how the histories of the two runs belong together;
* `Reads.filterMap_eq` — they agree on everything but these commands.
-/

namespace Framework

variable {C D : Type} {R : C → Type} {S : D → Type} {α β : Type}

/-- The replies to the commands of a server and of a component. -/
abbrev BothReply (R : C → Type) (S : D → Type) : C ⊕ D → Type
  | .inl c => R c
  | .inr d => S d

/-- A server and a component with a state of its own. -/
def Server.beside {σ τ : Type} (srv : Server C R σ) (component : Server D S τ) :
    Server (C ⊕ D) (BothReply R S) (σ × τ) where
  exec
    | .inl c, s => (((srv.exec c s.1).1, s.2), (srv.exec c s.1).2)
    | .inr d, s => ((s.1, (component.exec d s.2).1), (component.exec d s.2).2)

namespace Server

variable {σ τ : Type} {srv : Server C R σ} {component : Server D S τ}

/-- A command of the server leaves the component alone. -/
theorem answer_of_inl {f : Option Fault} {c : C} {s s' : σ × τ} {o : Outcome (R c)}
    (h : (srv.beside component).answer f (.inl c) s = (s', o)) :
    srv.answer f c s.1 = (s'.1, o) ∧ s'.2 = s.2 := by
  match f with
  | none =>
    obtain ⟨rfl, rfl⟩ := Prod.mk.inj h
    exact ⟨rfl, rfl⟩
  | some (.lost e) =>
    obtain ⟨rfl, rfl⟩ := Prod.mk.inj h
    exact ⟨rfl, rfl⟩
  | some (.failed e) =>
    obtain ⟨rfl, rfl⟩ := Prod.mk.inj h
    exact ⟨rfl, rfl⟩

/-- A command of the component leaves the server alone. -/
theorem answer_of_inr {f : Option Fault} {d : D} {s s' : σ × τ} {o : Outcome (S d)}
    (h : (srv.beside component).answer f (.inr d) s = (s', o)) :
    component.answer f d s.2 = (s'.2, o) ∧ s'.1 = s.1 := by
  match f with
  | none =>
    obtain ⟨rfl, rfl⟩ := Prod.mk.inj h
    exact ⟨rfl, rfl⟩
  | some (.lost e) =>
    obtain ⟨rfl, rfl⟩ := Prod.mk.inj h
    exact ⟨rfl, rfl⟩
  | some (.failed e) =>
    obtain ⟨rfl, rfl⟩ := Prod.mk.inj h
    exact ⟨rfl, rfl⟩

end Server

/-! ### Implementations -/

namespace Prog

/-- A program whose commands are implemented. -/
def implement (impl : (c : C) → Prog (C ⊕ D) (BothReply R S) (Except String (R c))) :
    Prog C R α → Prog (C ⊕ D) (BothReply R S) α
  | done a => done a
  | cmd c k => (impl c).bind fun r => (k r).implement impl

/-- The command has been issued, or will not be: what is left consults the component and returns `r`. -/
def Settled (r : β) : Prog (C ⊕ D) (BothReply R S) β → Prop
  | done b => b = r
  | cmd (.inl _) _ => False
  | cmd (.inr _) k => ∀ x, (k x).Settled r

/-- The command is still to be issued. -/
def Pending (c : C) : Prog (C ⊕ D) (BothReply R S) (Except String (R c)) → Prop
  | done _ => False
  | cmd (.inl c') k => ∃ h : c' = c, ∀ r, (k r).Settled (h ▸ r)
  -- an answer of the component may be the end of it
  | cmd (.inr _) k => ∀ x, (k x).Pending c ∨ ∃ e, (k x).Settled (.error e)

variable {impl : (c : C) → Prog (C ⊕ D) (BothReply R S) (Except String (R c))}

/-- **Rule for implementations.** `P` relates the history of a program to the one of the program that is
implemented. -/
theorem Obeys.implement {P : List (Op C R) → List (Op (C ⊕ D) (BothReply R S)) → Prop}
    {G : List (Op C R) → C → Prop} {Q : List (Op C R) → α → Prop}
    {G' : List (Op (C ⊕ D) (BothReply R S)) → C ⊕ D → Prop} {p : Prog C R α} {h : List (Op C R)}
    {h' : List (Op (C ⊕ D) (BothReply R S))} (hp : p.Obeys G Q h) (hP : P h h')
    (himpl : ∀ c h h', P h h' → G h c → (impl c).Obeys G' (fun h' r => P (h ++ [⟨c, r⟩]) h') h') :
    (p.implement impl).Obeys G' (fun h' a => ∃ h, P h h' ∧ Q h a) h' := by
  induction p generalizing h h' with
  | done a => exact ⟨h, hP, hp⟩
  | cmd c k ih => exact (himpl c h h' hP hp.1).bind fun h' r hP => ih r (hp.2 r) hP

/-- A command that is its own implementation. -/
theorem pending_issue (c : C) : (cmd (.inl c) done : Prog (C ⊕ D) (BothReply R S) _).Pending c :=
  ⟨rfl, fun _ => rfl⟩

/-- What is left of an implemented program, beside what is left of the program itself. -/
inductive Tracks (impl : (c : C) → Prog (C ⊕ D) (BothReply R S) (Except String (R c))) :
    Prog C R α → Prog (C ⊕ D) (BothReply R S) α → Prop
  | pending {c : C} {k : Except String (R c) → Prog C R α} {p : Prog (C ⊕ D) (BothReply R S) _}
      (hp : p.Pending c) : Tracks impl (cmd c k) (p.bind fun r => (k r).implement impl)
  | settled {c : C} {k : Except String (R c) → Prog C R α} {r : Except String (R c)}
      {p : Prog (C ⊕ D) (BothReply R S) _} (hp : p.Settled r) :
      Tracks impl (k r) (p.bind fun r => (k r).implement impl)
  | ended (a : α) : Tracks impl (done a) (done a)

section Tracks

variable (himpl : ∀ c, (impl c).Pending c)
include himpl

theorem tracks_implement (p : Prog C R α) : Tracks impl p (p.implement impl) := by
  cases p with
  | done a => exact .ended a
  | cmd c k => exact .pending (himpl c)

/-- **Inversion.** The program has ended, or its next command is still to be issued, or its implementation
is on its way back. -/
theorem Tracks.cases {p : Prog C R α} {q : Prog (C ⊕ D) (BothReply R S) α} (h : Tracks impl p q) :
    (∃ a, p = done a ∧ q = done a) ∨
    (∃ c k, ∃ i : Prog (C ⊕ D) (BothReply R S) (Except String (R c)), p = cmd c k ∧ i.Pending c ∧
      q = i.bind fun r => (k r).implement impl) ∨
    (∃ d k, q = cmd (.inr d) k ∧ ∀ x, Tracks impl p (k x)) := by
  cases h with
  | pending hp => exact .inr (.inl ⟨_, _, _, rfl, hp, rfl⟩)
  | ended a => exact .inl ⟨a, rfl, rfl⟩
  | @settled c k r i hi =>
    cases i with
    | done r' =>
      obtain rfl : r' = r := hi
      cases hk : k r' with
      | done a => exact .inl ⟨a, rfl, by rw [bind, hk]; rfl⟩
      | cmd c' k' => exact .inr (.inl ⟨c', k', impl c', rfl, himpl c', by rw [bind, hk]; rfl⟩)
    | cmd d k' =>
      cases d with
      | inl c' => exact absurd hi id
      | inr d => exact .inr (.inr ⟨d, _, rfl, fun x => .settled (hi x)⟩)

/-- A program that has ended. -/
theorem Tracks.of_done {p : Prog C R α} {a : α} (h : Tracks impl p (done a)) : p = done a := by
  rcases h.cases himpl with ⟨b, rfl, hb⟩ | ⟨c, k, i, -, hi, heq⟩ | ⟨d, k, heq, -⟩
  · exact congrArg done (done.inj hb).symm
  · cases i with
    | done r => exact absurd hi id
    | cmd d k' => exact absurd heq (by simp [bind])
  · exact absurd heq (by simp)

/-- **The command is issued.** -/
theorem Tracks.of_inl {p : Prog C R α} {c : C}
    {k' : Except String (R c) → Prog (C ⊕ D) (BothReply R S) α} (h : Tracks impl p (cmd (.inl c) k')) :
    ∃ k, p = cmd c k ∧ ∀ r, Tracks impl (k r) (k' r) := by
  rcases h.cases himpl with ⟨b, -, hb⟩ | ⟨c', k, i, rfl, hi, heq⟩ | ⟨d, k, heq, -⟩
  · exact absurd hb (by simp)
  · cases i with
    | done r => exact absurd hi id
    | cmd d k'' =>
      obtain ⟨rfl, heq⟩ := cmd.inj heq
      obtain ⟨rfl, hsettled⟩ := hi
      obtain rfl := eq_of_heq heq
      exact ⟨k, rfl, fun r => .settled (c := c) (hsettled r)⟩
  · exact absurd (cmd.inj heq).1 (by simp)

/-- **The component is consulted.** The program stays where it is, or its command fails. -/
theorem Tracks.of_inr {p : Prog C R α} {d : D}
    {k' : Except String (S d) → Prog (C ⊕ D) (BothReply R S) α} (h : Tracks impl p (cmd (.inr d) k'))
    (x : Except String (S d)) :
    Tracks impl p (k' x) ∨ ∃ c k e, p = cmd c k ∧ Tracks impl (k (.error e)) (k' x) := by
  rcases h.cases himpl with ⟨b, -, hb⟩ | ⟨c, k, i, rfl, hi, heq⟩ | ⟨d', k, heq, htracks⟩
  · exact absurd hb (by simp)
  · cases i with
    | done r => exact absurd hi id
    | cmd d' k'' =>
      obtain ⟨rfl, heq⟩ := cmd.inj heq
      obtain rfl := eq_of_heq heq
      rcases hi x with hpending | ⟨e, hsettled⟩
      · exact .inl (.pending hpending)
      · exact .inr ⟨c, k, e, rfl, .settled (c := c) hsettled⟩
  · obtain ⟨hd, heq⟩ := cmd.inj heq
    obtain rfl := Sum.inr.inj hd
    obtain rfl := eq_of_heq heq
    exact .inl (htracks x)

end Tracks

end Prog

/-! ### Histories -/

variable {Call : Type} {Ret : Call → Type} {σ τ T : Type}

/-- An event, unless the component is consulted. -/
def Event.outer? : Event (C ⊕ D) (BothReply R S) Call Ret → Option (Event C R Call Ret)
  | .start i call => some (.start i call)
  | .cmd i call (.inl c) o => some (.cmd i call c o)
  | .cmd _ _ (.inr _) _ => none
  | .finish i call a => some (.finish i call a)
  | .crash i call => some (.crash i call)

/-- A history of implemented programs, read as a history of the programs. -/
inductive Reads : List (T × Event (C ⊕ D) (BothReply R S) Call Ret) → List (T × Event C R Call Ret) → Prop
  | nil : Reads [] []
  | outer {es' : List (T × Event (C ⊕ D) (BothReply R S) Call Ret)} {es : List (T × Event C R Call Ret)} {t : T}
      {e' : Event (C ⊕ D) (BothReply R S) Call Ret} {e : Event C R Call Ret} (h : Reads es' es)
      (he : e'.outer? = some e) : Reads (es' ++ [(t, e')]) (es ++ [(t, e)])
  | inner {es' : List (T × Event (C ⊕ D) (BothReply R S) Call Ret)} {es : List (T × Event C R Call Ret)} {t : T}
      {i : ℕ} {call : Call} {d : D} {o : Outcome (S d)} (h : Reads es' es) :
      Reads (es' ++ [(t, .cmd i call (.inr d) o)]) es
  /-- A call gives up before its command is issued. -/
  | refused {es' : List (T × Event (C ⊕ D) (BothReply R S) Call Ret)} {es : List (T × Event C R Call Ret)} {t : T}
      {i : ℕ} {call : Call} {d : D} {o : Outcome (S d)} {c : C} {e : String} (h : Reads es' es) :
      Reads (es' ++ [(t, .cmd i call (.inr d) o)]) (es ++ [(t, .cmd i call c (.failed e))])

/-- **What a history says** is the same in both readings, where a command that fails says nothing. -/
theorem Reads.filterMap_eq {ρ : Type} {f : T × Event C R Call Ret → Option ρ}
    (hf : ∀ t i call c e, f (t, .cmd i call c (.failed e)) = none)
    {es' : List (T × Event (C ⊕ D) (BothReply R S) Call Ret)} {es : List (T × Event C R Call Ret)}
    (h : Reads es' es) : es.filterMap f = es'.filterMap fun e' => e'.2.outer?.bind fun e => f (e'.1, e) := by
  induction h with
  | nil => rfl
  | outer h he ih =>
    rw [List.filterMap_append, List.filterMap_append, ih]
    simp [List.filterMap_cons, he]
  | inner h ih =>
    rw [List.filterMap_append, ih]
    simp [Event.outer?]
  | refused h ih =>
    rw [List.filterMap_append, List.filterMap_append, ih]
    simp [Event.outer?, hf]

/-! ### Runs -/

section Runs

variable [Preorder T] {srv : T → Server C R σ} {component : T → Server D S τ}
  {body : (call : Call) → Prog C R (Ret call)} {init : σ → Prop} {init' : σ × τ → Prop}
  {impl : (c : C) → Prog (C ⊕ D) (BothReply R S) (Except String (R c))}

/-- Calls whose commands are implemented, beside a component. -/
def implemented (srv : T → Server C R σ) (component : T → Server D S τ)
    (impl : (c : C) → Prog (C ⊕ D) (BothReply R S) (Except String (R c)))
    (body : (call : Call) → Prog C R (Ret call)) (init' : σ × τ → Prop) :
    System (T × Pool (C ⊕ D) (BothReply R S) Call Ret (σ × τ))
      (T × Event (C ⊕ D) (BothReply R S) Call Ret) :=
  timedPool (fun t => (srv t).beside (component t)) (fun call => (body call).implement impl) init'

/-- A call in flight, in both readings. -/
inductive ThreadTracks (impl : (c : C) → Prog (C ⊕ D) (BothReply R S) (Except String (R c))) :
    Option (Thread C R Call Ret) → Option (Thread (C ⊕ D) (BothReply R S) Call Ret) → Prop
  | none : ThreadTracks impl none none
  | some {call : Call} {p : Prog C R (Ret call)} {q : Prog (C ⊕ D) (BothReply R S) (Ret call)}
      (h : p.Tracks impl q) : ThreadTracks impl (some ⟨call, p⟩) (some ⟨call, q⟩)

/-- The states that two runs have reached. -/
structure PoolTracks (impl : (c : C) → Prog (C ⊕ D) (BothReply R S) (Except String (R c)))
    (s : T × Pool C R Call Ret σ) (s' : T × Pool (C ⊕ D) (BothReply R S) Call Ret (σ × τ)) : Prop where
  clock : s.1 ≤ s'.1
  store : s.2.store = s'.2.store.1
  threads : ∀ i, ThreadTracks impl (s.2.threads i) (s'.2.threads i)

theorem ThreadTracks.update {th : ℕ → Option (Thread C R Call Ret)}
    {th' : ℕ → Option (Thread (C ⊕ D) (BothReply R S) Call Ret)} {i : ℕ}
    {x : Option (Thread C R Call Ret)} {x' : Option (Thread (C ⊕ D) (BothReply R S) Call Ret)}
    (h : ∀ j, ThreadTracks impl (th j) (th' j)) (hx : ThreadTracks impl x x') (j : ℕ) :
    ThreadTracks impl (Function.update th i x j) (Function.update th' i x' j) := by
  by_cases hj : j = i
  · subst hj
    rwa [Function.update_self, Function.update_self]
  · rw [Function.update_of_ne hj, Function.update_of_ne hj]
    exact h j

theorem ThreadTracks.of_none {x : Option (Thread C R Call Ret)} (h : ThreadTracks impl x Option.none) :
    x = Option.none := by
  cases h with
  | none => rfl

/-- A call in flight is one in both readings. -/
theorem ThreadTracks.of_some {x : Option (Thread C R Call Ret)} {call : Call}
    {q : Prog (C ⊕ D) (BothReply R S) (Ret call)} (h : ThreadTracks impl x (Option.some ⟨call, q⟩)) :
    ∃ p, x = Option.some ⟨call, p⟩ ∧ p.Tracks impl q := by
  cases h with
  | some h => exact ⟨_, rfl, h⟩

/-- **Step.** One step of the implemented programs is a step of the programs, or none. -/
theorem PoolTracks.step (himpl : ∀ c, (impl c).Pending c) {es : List (T × Event C R Call Ret)}
    {es' : List (T × Event (C ⊕ D) (BothReply R S) Call Ret)} {s : T × Pool C R Call Ret σ}
    {s' s₁' : T × Pool (C ⊕ D) (BothReply R S) Call Ret (σ × τ)}
    {e' : T × Event (C ⊕ D) (BothReply R S) Call Ret} (hr : (timedPool srv body init).Run es s)
    (hreads : Reads es' es) (h : PoolTracks impl s s')
    (hs : (implemented srv component impl body init').step s' e' s₁') :
    ∃ es₁ s₁, (timedPool srv body init).Run es₁ s₁ ∧ Reads (es' ++ [e']) es₁ ∧ PoolTracks impl s₁ s₁' := by
  obtain ⟨t, e'⟩ := e'
  obtain ⟨now, p₁'⟩ := s₁'
  obtain ⟨hclock, rfl, hs⟩ := hs
  have hclock := h.clock.trans hclock
  cases hs with
  | @start i call hfree =>
    have hnone : s.2.threads i = none := ThreadTracks.of_none (hfree ▸ h.threads i)
    exact ⟨_, _, run_started hr hclock hnone, hreads.outer rfl, le_rfl, h.store,
      ThreadTracks.update h.threads (.some (Prog.tracks_implement himpl _))⟩
  | @cmd i call c k f s' o hth hx =>
    obtain ⟨p, hp, htracks⟩ := ThreadTracks.of_some (hth ▸ h.threads i)
    cases c with
    | inl c =>
      -- the implementation issues the command itself
      obtain ⟨k₀, rfl, hk⟩ := htracks.of_inl himpl
      obtain ⟨hx, -⟩ := Server.answer_of_inl hx
      rw [← h.store] at hx
      exact ⟨_, _, run_answered hr hclock hp hx, hreads.outer rfl, le_rfl, rfl,
        ThreadTracks.update h.threads (.some (hk _))⟩
    | inr d =>
      obtain ⟨-, hstore⟩ := Server.answer_of_inr hx
      rcases htracks.of_inr himpl o.seen with hstay | ⟨c, k₀, err, rfl, hk⟩
      · -- a command of the component is no step of the programs
        refine ⟨es, s, hr, hreads.inner, hclock, h.store.trans hstore.symm, fun j => ?_⟩
        rw [← Function.update_eq_self i s.2.threads, hp]
        exact ThreadTracks.update h.threads (.some hstay) j
      · -- the command fails without having been executed
        have hx : (srv now).answer (some (.failed err)) c s.2.store = (s.2.store, .failed err) := rfl
        exact ⟨_, _, run_answered hr hclock hp hx, hreads.refused, le_rfl, h.store.trans hstore.symm,
          ThreadTracks.update h.threads (.some hk)⟩
  | @finish i call a hth =>
    obtain ⟨p, hp, htracks⟩ := ThreadTracks.of_some (hth ▸ h.threads i)
    -- both have come to the same result
    obtain rfl := htracks.of_done himpl
    exact ⟨_, _, run_finished hr hclock hp, hreads.outer rfl, le_rfl, h.store,
      ThreadTracks.update h.threads .none⟩
  | @crash i th hth =>
    obtain ⟨call, q⟩ := th
    obtain ⟨p, hp, -⟩ := ThreadTracks.of_some (hth ▸ h.threads i)
    exact ⟨_, _, run_crashed hr hclock hp, hreads.outer rfl, le_rfl, h.store,
      ThreadTracks.update h.threads .none⟩

/-- **Refinement.** A run of the implemented programs is a run of the programs. -/
theorem implement_refines (himpl : ∀ c, (impl c).Pending c) (hinit : ∀ s, init' s → init s.1)
    {es' : List (T × Event (C ⊕ D) (BothReply R S) Call Ret)}
    {s' : T × Pool (C ⊕ D) (BothReply R S) Call Ret (σ × τ)}
    (hr : (implemented srv component impl body init').Run es' s') :
    ∃ es s, (timedPool srv body init).Run es s ∧ Reads es' es ∧ PoolTracks impl s s' := by
  induction hr with
  | @init s' h =>
    refine ⟨[], (s'.1, ⟨s'.2.store.1, fun _ => none⟩), .init ⟨hinit _ h.1, rfl⟩, .nil, le_rfl, rfl, ?_⟩
    rw [h.2]
    exact fun _ => .none
  | step hr hs ih =>
    obtain ⟨es, s, hr, hreads, htracks⟩ := ih
    exact htracks.step himpl hr hreads hs

end Runs

end Framework
