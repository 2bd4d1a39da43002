import Mathlib.Data.List.Infix
import TaxlienGateway.Framework.Accounting
import TaxlienGateway.Framework.Lifetime

/-!
# Calls that lie within a part of a history

`withPast es` is a history with each event beside what came before it, so that occurrences of an event can be
counted by their past. `wholeCalls` counts the calls that end in a part of a history and were started there,
whatever was in flight when it began, and

* `wholeCalls_le_countP` — if each of these calls has issued a command of some kind, there are at least as many
  commands of this kind in that part of the history.

Two calls do not share a command: between it and the end of its call, no other call ends at the same index.
-/

namespace Framework

variable {E : Type}

/-- A history, each event with what came before it. -/
def withPast (es : List E) : List (List E × E) := es.inits.zip es

theorem withPast_append_singleton (es : List E) (e : E) : withPast (es ++ [e]) = withPast es ++ [(es, e)] := by
  unfold withPast
  -- the last of the `inits` is the whole list, with no event left for it
  have hinits : es.inits = es.inits.dropLast ++ [es] := by
    induction es using List.reverseRecOn with
    | nil => rfl
    | append_singleton es e => simp [List.inits_append]
  have hlen : es.inits.dropLast.length = es.length := by simp
  have hzip : es.inits.zip es = es.inits.dropLast.zip es := by
    conv_lhs => rw [hinits, ← List.append_nil es, List.zip_append (by simp)]
    simp
  have happend : (es ++ [e]).inits = es.inits.dropLast ++ [es, es ++ [e]] := by
    rw [List.inits_append, List.append_cons, ← hinits]
    simp
  rw [hzip, happend, List.zip_append hlen]
  rfl

theorem map_snd_withPast (es : List E) : (withPast es).map Prod.snd = es := by
  induction es using List.reverseRecOn with
  | nil => rfl
  | append_singleton es e ih => rw [withPast_append_singleton, List.map_append, ih, List.map_singleton]

/-- What stands beside an event is its past. -/
theorem of_withPast {es past : List E} {e : E} :
    ∀ {pre post : List (List E × E)}, withPast es = pre ++ (past, e) :: post →
      pre = withPast past ∧ ∃ rest, es = past ++ e :: rest := by
  induction es using List.reverseRecOn with
  | nil => exact fun h => absurd h (by simp [withPast])
  | append_singleton es e' ih =>
    intro pre post h
    rw [withPast_append_singleton] at h
    rcases List.eq_nil_or_concat post with rfl | ⟨post, x, rfl⟩
    · obtain ⟨rfl, hlast⟩ := List.append_inj' h rfl
      obtain ⟨rfl, rfl⟩ := Prod.mk.inj (List.singleton_inj.mp hlast)
      exact ⟨rfl, [], rfl⟩
    · rw [List.concat_eq_append, ← List.cons_append, ← List.append_assoc] at h
      obtain ⟨hpre, rest, rfl⟩ := ih (List.append_inj' h rfl).1
      exact ⟨hpre, rest ++ [e'], by simp⟩

variable {C : Type} {R : C → Type} {Call : Type} {Ret : Call → Type} {σ : Type}
  {srv : Server C R σ} {body : (call : Call) → Prog C R (Ret call)} {init : σ → Prop}

/-- A call is started at index `i`. -/
def Event.startsAt (i : ℕ) : Event C R Call Ret → Bool
  | start j _ => j == i
  | _ => false

/-- The calls that are started in this history and end in it with an event that meets `use`. -/
def wholeCalls (use : Event C R Call Ret → Bool) (es : List (Event C R Call Ret)) : ℕ :=
  (withPast es).countP fun pe => use pe.2 && pe.1.any (Event.startsAt pe.2.index)

/-- A call that was started in the second part of a history has issued its commands there. -/
theorem exists_cmd_within {es₁ pre post : List (Event C R Call Ret)} {p : Pool C R Call Ret σ} {i : ℕ} {call : Call}
    {a : Ret call} (hr : (pool srv body init).Run (es₁ ++ pre ++ .finish i call a :: post) p)
    (hstart : pre.any (Event.startsAt i) = true) {op : Op C R} (hop : op ∈ ownOps i (es₁ ++ pre)) :
    ∃ (pre₁ : List (Event C R Call Ret)) (o : Outcome (R op.1)) (pre₂ : List (Event C R Call Ret)),
      pre = pre₁ ++ .cmd i call op.1 o :: pre₂ ∧ o.seen = op.2 ∧ StaysInFlight i pre₂ := by
  obtain ⟨pre₁, o, pre₂, hes, hseen, hstays⟩ := exists_cmd_of_finish hr hop
  obtain ⟨e, he, hestart⟩ := List.any_eq_true.mp hstart
  rcases List.append_eq_append_iff.mp hes with ⟨c, rfl, rfl⟩ | ⟨c, rfl, hc⟩
  · exact ⟨c, o, pre₂, rfl, hseen, hstays⟩
  · cases c with
    | nil => exact ⟨[], o, pre₂, hc.symm, hseen, hstays⟩
    | cons g c =>
      -- otherwise the call was started after its command
      obtain ⟨-, rfl⟩ := List.cons.inj hc
      cases e with
      | start j call' =>
        obtain ⟨_, _, _, hcmd⟩ := hstays _ (List.mem_append_right _ he) (eq_of_beq hestart)
        exact absurd hcmd (by simp)
      | cmd j call' c o => exact absurd hestart (by simp [Event.startsAt])
      | finish j call' a => exact absurd hestart (by simp [Event.startsAt])
      | crash j call' => exact absurd hestart (by simp [Event.startsAt])

/-- **Counting whole calls.** -/
theorem wholeCalls_le_countP {use grant : Event C R Call Ret → Bool} {es₁ es₂ : List (Event C R Call Ret)}
    {p : Pool C R Call Ret σ} (hr : (pool srv body init).Run (es₁ ++ es₂) p)
    (huse : ∀ e, use e = true → ∃ i call a, e = .finish i call a)
    (hgrant : ∀ pre i call a post, es₁ ++ es₂ = pre ++ .finish i call a :: post → use (.finish i call a) = true →
      ∃ op ∈ ownOps i pre, ∀ o : Outcome (R op.1), o.seen = op.2 → grant (.cmd i call op.1 o) = true) :
    wholeCalls use es₂ ≤ es₂.countP grant := by
  refine @countP_le_of_paid _ ℕ (fun pe => grant pe.2) _ (fun pe => pe.2.index) _ _ ?_
  rintro pre ⟨past, e⟩ post hes hwhole
  obtain ⟨hu, hstart⟩ := Bool.and_eq_true_iff.mp hwhole
  obtain ⟨i, call, a, rfl⟩ := huse e hu
  obtain ⟨rfl, rest, rfl⟩ := of_withPast hes
  -- the call has issued such a command since it was started
  rw [← List.append_assoc] at hr
  obtain ⟨op, hop, hall⟩ := hgrant (es₁ ++ past) i call a rest (List.append_assoc _ _ _).symm hu
  obtain ⟨pre₁, o, pre₂, rfl, hseen, hstays⟩ := exists_cmd_within hr hstart hop
  obtain ⟨qs₁, qs, hqs, rfl, hqs'⟩ := List.map_eq_append_iff.mp (map_snd_withPast (pre₁ ++ .cmd i call op.1 o :: pre₂))
  obtain ⟨⟨past', _⟩, qs₂, rfl, rfl, rfl⟩ := List.map_eq_cons_iff.mp hqs'
  refine ⟨qs₁, _, qs₂, hqs, hall o hseen, ?_, rfl, ?_⟩
  · have hrank : qs₁.countP (fun pe => grant pe.2) = (qs₁.map Prod.snd).countP grant := List.countP_map.symm
    rw [hrank, List.countP_append, List.countP_append, List.countP_cons_of_pos (hall o hseen)]
    omega
  · -- and no call has ended at this index since
    rintro ⟨past'', e'⟩ he' hwhole' howner
    obtain ⟨j, call', a', rfl⟩ := huse e' (Bool.and_eq_true_iff.mp hwhole').1
    obtain ⟨_, _, _, hcmd⟩ := hstays _ (List.mem_map_of_mem he') howner
    exact absurd hcmd (by simp)

end Framework
