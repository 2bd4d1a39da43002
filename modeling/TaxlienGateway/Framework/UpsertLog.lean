import Mathlib.Data.List.Induction
import Mathlib.Logic.Function.Basic

/-!
# Tables that are only upserted

A table with a unique key, whose rows have an identity and a value. A write makes a row, or gives the row that
is there another value; rows are not deleted. Each write draws a new identity from a sequence, whether or not
it is used.

What a sequence of writes leaves can be said without executing it: a row has the value of the last write of its
key (`lastWrite`), and the identity that its first write drew (`firstWrite`).

* `replay_eq` — this description;
* `replay_identity_inj` — rows that share an identity are the same row;
* `replay_append_identity` — further writes leave the identities alone.
-/

namespace Framework

variable {K I V : Type} [DecidableEq K]

/-- A write, which draws the identity `i`. -/
def upsertRow (rows : K → Option (I × V)) (i : I) (k : K) (v : V) : K → Option (I × V) :=
  Function.update rows k (some ((rows k).elim i Prod.fst, v))

/-- A sequence of writes; `ident` is the sequence of identities. -/
def replay : (rows : K → Option (I × V)) → (ident : ℕ → I) → List (K × V) → K → Option (I × V)
  | rows, _, [] => rows
  | rows, ident, (k, v) :: log => replay (upsertRow rows (ident 0) k v) (fun n => ident (n + 1)) log

/-- The value that was written last under a key. -/
def lastWrite (k : K) (log : List (K × V)) : Option V := (log.filter (·.1 = k)).getLast?.map Prod.snd

/-- The position of the first write of a key. -/
def firstWrite (k : K) (log : List (K × V)) : ℕ := log.findIdx (·.1 = k)

variable {rows : K → Option (I × V)} {ident : ℕ → I} {log : List (K × V)} {k k' : K} {v : V}

theorem replay_append_singleton (rows : K → Option (I × V)) (ident : ℕ → I) (log : List (K × V)) (k : K) (v : V) :
    replay rows ident (log ++ [(k, v)]) = upsertRow (replay rows ident log) (ident log.length) k v := by
  induction log generalizing rows ident with
  | nil => rfl
  | cons w log ih => exact ih _ _

@[simp] theorem upsertRow_self (rows : K → Option (I × V)) (i : I) (k : K) (v : V) :
    upsertRow rows i k v k = some ((rows k).elim i Prod.fst, v) := Function.update_self ..

theorem upsertRow_of_ne (i : I) (v : V) (h : k' ≠ k) : upsertRow rows i k v k' = rows k' :=
  Function.update_of_ne h ..

/-! ### The first and the last write -/

theorem lastWrite_append_self (log : List (K × V)) (k : K) (v : V) : lastWrite k (log ++ [(k, v)]) = some v := by
  simp [lastWrite]

theorem lastWrite_append_of_ne (log : List (K × V)) (v : V) (h : k' ≠ k) :
    lastWrite k' (log ++ [(k, v)]) = lastWrite k' log := by
  simp [lastWrite, h.symm]

theorem lastWrite_eq_none_iff : lastWrite k log = none ↔ ∀ w ∈ log, w.1 ≠ k := by
  simp [lastWrite]

theorem mem_of_lastWrite (h : lastWrite k log = some v) : (k, v) ∈ log := by
  obtain ⟨⟨k', v'⟩, hw, rfl⟩ := Option.map_eq_some_iff.mp h
  obtain ⟨hmem, hk⟩ := List.mem_filter.mp (List.mem_of_getLast? hw)
  obtain rfl : k' = k := of_decide_eq_true hk
  exact hmem

/-- A key that has been written was written first at a position of the sequence. -/
theorem firstWrite_lt_of_mem {w : K × V} (hw : w ∈ log) (hk : w.1 = k) : firstWrite k log < log.length :=
  List.findIdx_lt_length_of_exists ⟨w, hw, decide_eq_true hk⟩

theorem firstWrite_append_of_mem {w : K × V} (hw : w ∈ log) (hk : w.1 = k) (log' : List (K × V)) :
    firstWrite k (log ++ log') = firstWrite k log := by
  unfold firstWrite
  rw [List.findIdx_append, if_pos (List.findIdx_lt_length_of_exists ⟨w, hw, decide_eq_true hk⟩)]

theorem firstWrite_append_of_notMem (h : ∀ w ∈ log, w.1 ≠ k) (v : V) :
    firstWrite k (log ++ [(k, v)]) = log.length := by
  have hnone : ¬ log.findIdx (·.1 = k) < log.length := by
    rw [List.findIdx_lt_length]
    rintro ⟨w, hw, hk⟩
    exact h w hw (of_decide_eq_true hk)
  unfold firstWrite
  rw [List.findIdx_append, if_neg hnone]
  simp

/-- Keys whose first writes are at the same position are the same. -/
theorem eq_of_firstWrite_eq (hk : firstWrite k log < log.length) (h : firstWrite k log = firstWrite k' log) :
    k = k' := by
  have hfirst : (log.get ⟨_, hk⟩).1 = k := of_decide_eq_true (List.findIdx_getElem (w := hk))
  have hk' : firstWrite k' log < log.length := h ▸ hk
  have hfirst' : (log.get ⟨_, hk'⟩).1 = k' := of_decide_eq_true (List.findIdx_getElem (w := hk'))
  rw [← hfirst, ← hfirst']
  congr 2
  exact Fin.ext h

/-! ### The rows -/

/-- **Rows.** A row has the value that was written last, and the identity that was drawn first. -/
theorem replay_eq (rows : K → Option (I × V)) (ident : ℕ → I) (log : List (K × V)) (k : K) :
    replay rows ident log k = (lastWrite k log).elim (rows k) fun v =>
      some ((rows k).elim (ident (firstWrite k log)) Prod.fst, v) := by
  induction log using List.reverseRecOn with
  | nil => rfl
  | append_singleton log w ih =>
    obtain ⟨k', v⟩ := w
    rw [replay_append_singleton]
    by_cases hk : k = k'
    · subst hk
      rw [upsertRow_self, lastWrite_append_self, ih, Option.elim_some]
      cases hlast : lastWrite k log with
      | none =>
        -- the first write of the key
        rw [Option.elim_none, firstWrite_append_of_notMem (lastWrite_eq_none_iff.mp hlast)]
      | some v' =>
        rw [Option.elim_some, Option.elim_some, firstWrite_append_of_mem (mem_of_lastWrite hlast) rfl]
    · rw [upsertRow_of_ne _ _ hk, lastWrite_append_of_ne _ _ hk, ih]
      cases hlast : lastWrite k log with
      | none => rfl
      | some v' => rw [Option.elim_some, Option.elim_some, firstWrite_append_of_mem (mem_of_lastWrite hlast) rfl]

/-- The identity of a row: its own from before, or the one that its first write drew. -/
theorem identity_of_replay {row : I × V} (h : replay rows ident log k = some row) :
    (∃ v, rows k = some (row.1, v)) ∨
      rows k = none ∧ firstWrite k log < log.length ∧ row.1 = ident (firstWrite k log) := by
  rw [replay_eq] at h
  cases hlast : lastWrite k log with
  | none =>
    rw [hlast, Option.elim_none] at h
    exact .inl ⟨row.2, h⟩
  | some v =>
    rw [hlast, Option.elim_some] at h
    obtain rfl := Option.some.inj h
    cases hrow : rows k with
    | some old => exact .inl ⟨old.2, rfl⟩
    | none => exact .inr ⟨rfl, firstWrite_lt_of_mem (mem_of_lastWrite hlast) rfl, rfl⟩

/-- **Identities are unique**, by any part `f` of them by which they were and the sequence draws new ones. -/
theorem replay_identity_inj {J : Type} {f : I → J}
    (hrows : ∀ k k' row row', rows k = some row → rows k' = some row' → f row.1 = f row'.1 → k = k')
    (hident : Function.Injective fun n => f (ident n))
    (hnew : ∀ k row n, rows k = some row → f row.1 ≠ f (ident n)) {row row' : I × V}
    (h : replay rows ident log k = some row) (h' : replay rows ident log k' = some row')
    (heq : f row.1 = f row'.1) : k = k' := by
  rcases identity_of_replay h with ⟨v, hrow⟩ | ⟨-, hlt, hdrawn⟩
  · rcases identity_of_replay h' with ⟨v', hrow'⟩ | ⟨-, -, hdrawn'⟩
    · exact hrows k k' _ _ hrow hrow' heq
    · exact absurd (heq.trans (congrArg f hdrawn')) (hnew k (row.1, v) _ hrow)
  · rcases identity_of_replay h' with ⟨v', hrow'⟩ | ⟨-, -, hdrawn'⟩
    · exact absurd (heq.symm.trans (congrArg f hdrawn)) (hnew k' (row'.1, v') _ hrow')
    · rw [hdrawn, hdrawn'] at heq
      exact eq_of_firstWrite_eq hlt (hident heq)

/-- **Further writes** keep a row and its identity. -/
theorem replay_append_identity {row : I × V} (h : replay rows ident log k = some row) (log' : List (K × V)) :
    ∃ v, replay rows ident (log ++ log') k = some (row.1, v) := by
  induction log' using List.reverseRecOn with
  | nil => exact ⟨row.2, by rwa [List.append_nil]⟩
  | append_singleton log' w ih =>
    obtain ⟨v, ih⟩ := ih
    obtain ⟨k', v'⟩ := w
    rw [← List.append_assoc, replay_append_singleton]
    by_cases hk : k = k'
    · subst hk
      exact ⟨v', by rw [upsertRow_self, ih, Option.elim_some]⟩
    · exact ⟨v, by rw [upsertRow_of_ne _ _ hk, ih]⟩

end Framework
