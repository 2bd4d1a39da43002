import TaxlienGateway.Framework.TimedPool

/-!
# The lifetime of a call in a history

A call is in flight from its start to the event that ends it, and in between the events of its index are
commands of its own (`StaysInFlight`). This module locates commands in histories of the pool without a
clock.

* `exists_cmd_of_finish` — a call that returns has issued each command of its own history somewhere, and
  has stayed in flight since; conversely `ownOps_append`, `mem_ownOps_of_staysInFlight`;
* `in_flight_or_over` — a call that has issued a command is still in flight, or its end is in the history;
* `run_unclocked` — a run of the pool is a run under a clock that stands still.
-/

namespace Framework

variable {C : Type} {R : C → Type} {Call : Type} {Ret : Call → Type} {σ : Type}
  {srv : Server C R σ} {body : (call : Call) → Prog C R (Ret call)} {init : σ → Prop}

/-- Of the call at index `i` these events are commands only: it has neither been started nor ended. -/
def StaysInFlight (i : ℕ) (es : List (Event C R Call Ret)) : Prop :=
  ∀ e ∈ es, e.index = i → ∃ call c o, e = .cmd i call c o

/-- The event with which a call at index `i` is over. -/
inductive Event.IsEnd (i : ℕ) (call : Call) : Event C R Call Ret → Prop
  | finish (a : Ret call) : IsEnd i call (.finish i call a)
  | crash : IsEnd i call (.crash i call)

theorem staysInFlight_nil (i : ℕ) : StaysInFlight i ([] : List (Event C R Call Ret)) :=
  fun e he => absurd he (by simp)

theorem staysInFlight_append_singleton {i : ℕ} {es : List (Event C R Call Ret)}
    {e : Event C R Call Ret} : StaysInFlight i (es ++ [e]) ↔
      StaysInFlight i es ∧ (e.index = i → ∃ call c o, e = .cmd i call c o) := by
  simp only [StaysInFlight, List.mem_append, List.mem_singleton, or_imp, forall_and, forall_eq]

theorem StaysInFlight.append_cmd {i j : ℕ} {es es' : List (Event C R Call Ret)} {call : Call} {c : C}
    {o : Outcome (R c)} (h : StaysInFlight i es) (h' : StaysInFlight i es') :
    StaysInFlight i (es ++ .cmd j call c o :: es') := by
  intro e he hi
  rcases List.mem_append.mp he with he | he
  · exact h e he hi
  · rcases List.mem_cons.mp he with rfl | he
    · exact ⟨call, c, o, by rw [← hi]; rfl⟩
    · exact h' e he hi

/-- **What a step does to a call in flight.** It stays in flight, the events of its index being commands,
or the step ends it. -/
theorem PoolStep.fate {p p' : Pool C R Call Ret σ} {e : Event C R Call Ret} {i : ℕ}
    {th : Thread C R Call Ret} (hs : PoolStep srv body p e p') (hth : p.threads i = some th) :
    (∃ th', p'.threads i = some th' ∧ th'.call = th.call ∧
      (e.index = i → ∃ call c o, e = .cmd i call c o)) ∨
    (p'.threads i = none ∧ e.IsEnd i th.call) := by
  cases hs with
  | @start j call hfree =>
    have hne : j ≠ i := by
      rintro rfl
      exact absurd (hth.symm.trans hfree) (by simp)
    exact .inl ⟨th, (Function.update_of_ne hne.symm ..).trans hth, rfl, fun h => absurd h hne⟩
  | @cmd j call c k f s' o hj hx =>
    by_cases hne : j = i
    · subst hne
      obtain rfl : th = ⟨call, .cmd c k⟩ := Option.some.inj (hth.symm.trans hj)
      exact .inl ⟨_, Function.update_self .., rfl, fun _ => ⟨call, c, o, rfl⟩⟩
    · exact .inl ⟨th, (Function.update_of_ne (Ne.symm hne) ..).trans hth, rfl, fun h => absurd h hne⟩
  | @finish j call a hj =>
    by_cases hne : j = i
    · subst hne
      obtain rfl : th = ⟨call, .done a⟩ := Option.some.inj (hth.symm.trans hj)
      exact .inr ⟨Function.update_self .., .finish a⟩
    · exact .inl ⟨th, (Function.update_of_ne (Ne.symm hne) ..).trans hth, rfl, fun h => absurd h hne⟩
  | @crash j th' hj =>
    by_cases hne : j = i
    · subst hne
      obtain rfl := Option.some.inj (hth.symm.trans hj)
      exact .inr ⟨Function.update_self .., .crash⟩
    · exact .inl ⟨th, (Function.update_of_ne (Ne.symm hne) ..).trans hth, rfl, fun h => absurd h hne⟩

/-- A call that has not been started in the meantime has been in flight all the time. -/
theorem staysInFlight_of_thread {pre post : List (Event C R Call Ret)} :
    ∀ {p : Pool C R Call Ret σ} {i : ℕ} {th : Thread C R Call Ret},
      (pool srv body init).Run (pre ++ post) p → p.threads i = some th →
      (∀ call, Event.start i call ∉ post) → StaysInFlight i post := by
  induction post using List.reverseRecOn with
  | nil => exact fun _ _ _ => staysInFlight_nil _
  | append_singleton post e ih =>
    intro p i th hr hth hstart
    rw [← List.append_assoc] at hr
    obtain ⟨p₀, h₀, hstep⟩ := hr.of_append_singleton
    rcases hstep.own_cases hth with rfl | ⟨th₀, hth₀, -, -, -⟩
    · exact absurd (List.mem_append_right _ List.mem_cons_self) (hstart th.call)
    · refine staysInFlight_append_singleton.mpr
        ⟨ih h₀ hth₀ fun call hmem => hstart call (List.mem_append_left _ hmem), ?_⟩
      rcases hstep.fate hth₀ with ⟨-, -, -, he⟩ | ⟨hnone, -⟩
      · exact he
      · exact absurd (hth.symm.trans hnone) (by simp)

/-- **The fate of a call.** After a command of its own it is in flight until it ends. -/
theorem in_flight_or_over {pre post : List (Event C R Call Ret)} {i : ℕ} {call : Call} {c : C}
    {o : Outcome (R c)} : ∀ {p : Pool C R Call Ret σ},
      (pool srv body init).Run (pre ++ .cmd i call c o :: post) p →
      (StaysInFlight i post ∧ ∃ th, p.threads i = some th ∧ th.call = call) ∨
      ∃ post₁ e post₂, post = post₁ ++ e :: post₂ ∧ StaysInFlight i post₁ ∧ e.IsEnd i call := by
  induction post using List.reverseRecOn with
  | nil =>
    intro p hr
    obtain ⟨p₀, -, hstep⟩ := hr.of_append_singleton
    cases hstep with
    | cmd h hx => exact .inl ⟨staysInFlight_nil i, _, Function.update_self .., rfl⟩
  | append_singleton post e ih =>
    intro p hr
    rw [← List.cons_append, ← List.append_assoc] at hr
    obtain ⟨p₀, h₀, hstep⟩ := hr.of_append_singleton
    rcases ih h₀ with ⟨hstays, th, hth, rfl⟩ | ⟨post₁, e', post₂, rfl, hstays, hend⟩
    · rcases hstep.fate hth with ⟨th', hth', hcall, he⟩ | ⟨-, hend⟩
      · exact .inl ⟨staysInFlight_append_singleton.mpr ⟨hstays, he⟩, th', hth', hcall⟩
      · exact .inr ⟨post, e, [], rfl, hstays, hend⟩
    · exact .inr ⟨post₁, e', post₂ ++ [e], by simp, hstays, hend⟩

/-! ### Commands of a call's own -/

/-- What the clock that stands still adds to a history. -/
theorem map_snd_unclocked {T : Type} (now : T) (es : List (Event C R Call Ret)) :
    (es.map fun e => (now, e)).map Prod.snd = es := by
  rw [List.map_map]
  exact List.map_id es

/-- A run of the pool, read under a clock that stands still. -/
theorem run_unclocked {T : Type} [Preorder T] (now : T) {es : List (Event C R Call Ret)}
    {p : Pool C R Call Ret σ} (hr : (pool srv body init).Run es p) :
    (timedPool (fun _ : T => srv) body init).Run (es.map (now, ·)) (now, p) := by
  induction hr with
  | init h => exact .init h
  | step hr hs ih =>
    rw [List.map_append]
    exact ih.step ⟨le_refl _, rfl, hs⟩

/-- A call returns what its rule allows. -/
theorem Obeyed.returned {G : Call → List (Op C R) → C → Prop}
    {Q : (call : Call) → List (Op C R) → Ret call → Prop} (hb : Obeyed body G Q)
    {pre post : List (Event C R Call Ret)} {p : Pool C R Call Ret σ} {i : ℕ} {call : Call} {a : Ret call}
    (hr : (pool srv body init).Run (pre ++ .finish i call a :: post) p) : Q call (ownOps i pre) a := by
  obtain ⟨t, t', ht, hstep, -⟩ := hr.step_at
  cases hstep with
  | finish h => exact hb.run ht i _ h

/-- **Where a call in flight has issued a command of its own.** -/
theorem exists_cmd_of_thread {es : List (Event C R Call Ret)} {p : Pool C R Call Ret σ} {i : ℕ}
    {th : Thread C R Call Ret} (hr : (pool srv body init).Run es p) (hth : p.threads i = some th)
    {op : Op C R} (hop : op ∈ ownOps i es) :
    ∃ (pre : List (Event C R Call Ret)) (o : Outcome (R op.1)) (post : List (Event C R Call Ret)),
      es = pre ++ .cmd i th.call op.1 o :: post ∧ o.seen = op.2 ∧ StaysInFlight i post := by
  rw [← map_snd_unclocked () es] at hop
  obtain ⟨pre, _, o, post, hes, hseen, hstart⟩ :=
    exists_split_of_mem_ownOps (run_unclocked () hr) i th hth op hop
  -- without the clock
  have hes : es = pre.map Prod.snd ++ .cmd i th.call op.1 o :: post.map Prod.snd := by
    rw [← map_snd_unclocked () es, hes, List.map_append, List.map_cons]
  refine ⟨_, o, _, hes, hseen, ?_⟩
  rw [List.append_cons] at hes
  refine staysInFlight_of_thread (hes ▸ hr) hth fun call hmem => ?_
  obtain ⟨⟨t, e⟩, he, rfl⟩ := List.mem_map.mp hmem
  exact hstart t call he

/-- The same, for a call that returns. -/
theorem exists_cmd_of_finish {pre post : List (Event C R Call Ret)} {p : Pool C R Call Ret σ} {i : ℕ}
    {call : Call} {a : Ret call} (hr : (pool srv body init).Run (pre ++ .finish i call a :: post) p)
    {op : Op C R} (hop : op ∈ ownOps i pre) :
    ∃ (pre₁ : List (Event C R Call Ret)) (o : Outcome (R op.1)) (pre₂ : List (Event C R Call Ret)),
      pre = pre₁ ++ .cmd i call op.1 o :: pre₂ ∧ o.seen = op.2 ∧ StaysInFlight i pre₂ := by
  obtain ⟨t, t', ht, hstep, -⟩ := hr.step_at
  cases hstep with
  | finish h => exact exists_cmd_of_thread ht h hop

/-- While a call stays in flight its own history grows. -/
theorem ownOps_append {i : ℕ} {pre post : List (Event C R Call Ret)} (h : StaysInFlight i post) :
    ∃ own, ownOps i (pre ++ post) = ownOps i pre ++ own := by
  induction post using List.reverseRecOn with
  | nil => exact ⟨[], by simp⟩
  | append_singleton post e ih =>
    obtain ⟨hpost, he⟩ := staysInFlight_append_singleton.mp h
    obtain ⟨own, hown⟩ := ih hpost
    rw [← List.append_assoc, ownOps_append_singleton, hown]
    by_cases hi : e.index = i
    · obtain ⟨call, c, o, rfl⟩ := he hi
      exact ⟨own ++ [⟨c, o.seen⟩], by simp [ownStep]⟩
    · refine ⟨own, ?_⟩
      cases e with
      | start j call => exact if_neg hi
      | cmd j call c o => exact if_neg hi
      | finish j call a => rfl
      | crash j call => rfl

/-- Conversely, what a call has issued while in flight is in its own history. -/
theorem mem_ownOps_of_staysInFlight {pre post : List (Event C R Call Ret)} {i : ℕ} {call : Call} {c : C}
    {o : Outcome (R c)} (h : StaysInFlight i post) :
    (⟨c, o.seen⟩ : Op C R) ∈ ownOps i (pre ++ .cmd i call c o :: post) := by
  obtain ⟨own, hown⟩ := ownOps_append h
  rw [List.append_cons, hown, ownOps_append_singleton]
  simp [ownStep]

end Framework
