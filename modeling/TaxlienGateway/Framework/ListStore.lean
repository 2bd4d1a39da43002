import Mathlib.Algebra.BigOperators.Finprod
import Mathlib.Algebra.Order.Group.Multiset
import Mathlib.Tactic.Abel

/-!
# A store of lists

A `ListStore κ ν` maps keys to lists of values, all but finitely many of them empty: a key that was
never written, or whose list has become empty, does not exist. The operations are the four list
commands `LPUSH`, `RPOPLPUSH`, `LRANGE key 0 -1` and `LREM key 1 value`, each one atomic. The head
of a list is its left end.

`content st P` is the multiset of all values stored under the keys satisfying `P`, counted with
multiplicity. It is what conservation laws are about: `content_lpush` adds one value,
`content_rpoplpush` moves one and keeps the content, `content_lrem` gives back what was removed.
The order inside one list is described by `reverse_lpush` and `reverse_rpoplpush`: read from the
right, a list is a first-in first-out queue.
-/

namespace Framework

/-- A finitely supported map from keys to lists. -/
structure ListStore (κ ν : Type) where
  lists : κ → List ν
  /-- Only finitely many keys exist. -/
  finite : {k | lists k ≠ []}.Finite

namespace ListStore

variable {κ ν : Type} [DecidableEq κ]

omit [DecidableEq κ] in
@[ext] theorem ext {st st' : ListStore κ ν} (h : ∀ k, st.lists k = st'.lists k) : st = st' := by
  obtain ⟨l, hl⟩ := st
  obtain ⟨l', hl'⟩ := st'
  obtain rfl : l = l' := funext h
  rfl

omit [DecidableEq κ] in
/-- The store without keys. -/
def empty : ListStore κ ν := ⟨fun _ => [], by simp⟩

/-- Write a whole list. -/
def set (st : ListStore κ ν) (k : κ) (l : List ν) : ListStore κ ν where
  lists := Function.update st.lists k l
  finite := by
    refine (st.finite.union (Set.finite_singleton k)).subset ?_
    intro j hj
    by_cases hjk : j = k
    · exact .inr hjk
    · refine .inl ?_
      simpa [Function.update_of_ne hjk] using hj

omit [DecidableEq κ] in
@[simp] theorem lists_empty (k : κ) : (empty : ListStore κ ν).lists k = [] := rfl

@[simp] theorem lists_set_self (st : ListStore κ ν) (k : κ) (l : List ν) :
    (st.set k l).lists k = l := Function.update_self ..

theorem lists_set_of_ne (st : ListStore κ ν) {k j : κ} (l : List ν) (h : j ≠ k) :
    (st.set k l).lists j = st.lists j := Function.update_of_ne h ..

/-! ### The list commands -/

/-- `LPUSH k v`. -/
def lpush (st : ListStore κ ν) (k : κ) (v : ν) : ListStore κ ν :=
  st.set k (v :: st.lists k)

/-- `RPOPLPUSH src dst`: the rightmost value of `src`, if any, becomes the leftmost of `dst`. -/
def rpoplpush (st : ListStore κ ν) (src dst : κ) : ListStore κ ν × Option ν :=
  match (st.lists src).getLast? with
  | none => (st, none)
  | some v => ((st.set src (st.lists src).dropLast).lpush dst v, some v)

/-- `LREM k 1 v`: drop the leftmost `v`; the reply is the number of values dropped. -/
def lrem [DecidableEq ν] (st : ListStore κ ν) (k : κ) (v : ν) : ListStore κ ν × ℕ :=
  (st.set k ((st.lists k).erase v), if v ∈ st.lists k then 1 else 0)

@[simp] theorem lists_lpush_self (st : ListStore κ ν) (k : κ) (v : ν) :
    (st.lpush k v).lists k = v :: st.lists k := lists_set_self ..

theorem lists_lpush_of_ne (st : ListStore κ ν) {k j : κ} (v : ν) (h : j ≠ k) :
    (st.lpush k v).lists j = st.lists j := lists_set_of_ne _ _ h

/-- An answer `nil` means an empty source and an unchanged store. -/
theorem rpoplpush_none {st st' : ListStore κ ν} {src dst : κ}
    (h : st.rpoplpush src dst = (st', none)) : st.lists src = [] ∧ st' = st := by
  unfold rpoplpush at h
  cases hl : (st.lists src).getLast? with
  | none =>
    rw [hl] at h
    exact ⟨List.getLast?_eq_none_iff.mp hl, (Prod.mk.inj h).1.symm⟩
  | some v =>
    rw [hl] at h
    exact absurd (Prod.mk.inj h).2 (by simp)

/-- An answer `v` means that `v` was the last value of the source and has been moved. -/
theorem rpoplpush_some {st st' : ListStore κ ν} {src dst : κ} {v : ν}
    (h : st.rpoplpush src dst = (st', some v)) :
    ∃ l, st.lists src = l ++ [v] ∧ st' = (st.set src l).lpush dst v := by
  unfold rpoplpush at h
  cases hl : (st.lists src).getLast? with
  | none =>
    rw [hl] at h
    exact absurd (Prod.mk.inj h).2 (by simp)
  | some w =>
    rw [hl] at h
    obtain ⟨hst, hv⟩ := Prod.mk.inj h
    obtain rfl := Option.some.inj hv
    -- the source has a last value, so it is not empty
    have hne : st.lists src ≠ [] := by
      intro h0
      rw [h0] at hl
      simp at hl
    have hlast : (st.lists src).getLast hne = w := by
      rw [List.getLast?_eq_some_getLast hne] at hl
      exact Option.some.inj hl
    refine ⟨(st.lists src).dropLast, ?_, hst.symm⟩
    rw [← hlast, List.dropLast_append_getLast hne]

@[simp] theorem lists_lrem_self [DecidableEq ν] (st : ListStore κ ν) (k : κ) (v : ν) :
    (st.lrem k v).1.lists k = (st.lists k).erase v := lists_set_self ..

theorem lists_lrem_of_ne [DecidableEq ν] (st : ListStore κ ν) {k j : κ} (v : ν) (h : j ≠ k) :
    (st.lrem k v).1.lists j = st.lists j := lists_set_of_ne _ _ h

/-- `LREM` reports what it takes out of its list. -/
theorem coe_lists_lrem [DecidableEq ν] (st : ListStore κ ν) (k : κ) (v : ν) :
    ((st.lrem k v).1.lists k : Multiset ν) + Multiset.replicate (st.lrem k v).2 v =
      (st.lists k : Multiset ν) := by
  rw [lists_lrem_self]
  unfold lrem
  by_cases hv : v ∈ st.lists k
  · rw [if_pos hv, Multiset.replicate_one, ← Multiset.coe_erase, add_comm,
      Multiset.singleton_add, Multiset.cons_erase (Multiset.mem_coe.mpr hv)]
  · rw [if_neg hv, List.erase_of_not_mem hv, Multiset.replicate_zero, add_zero]

/-! ### One list as a queue -/

/-- Read from the right, `LPUSH` appends. -/
theorem reverse_lpush (st : ListStore κ ν) (k : κ) (v : ν) :
    ((st.lpush k v).lists k).reverse = (st.lists k).reverse ++ [v] := by
  rw [lists_lpush_self, List.reverse_cons]

/-- Read from the right, `RPOPLPUSH` takes the first value of its source. -/
theorem reverse_rpoplpush {st st' : ListStore κ ν} {src dst : κ} {v : ν} (hne : src ≠ dst)
    (h : st.rpoplpush src dst = (st', some v)) :
    (st.lists src).reverse = v :: (st'.lists src).reverse := by
  obtain ⟨l, hl, rfl⟩ := rpoplpush_some h
  rw [lists_lpush_of_ne _ _ hne, lists_set_self, hl, List.reverse_append]
  rfl

/-- The destination of a successful `RPOPLPUSH`. -/
theorem lists_rpoplpush_dst {st st' : ListStore κ ν} {src dst : κ} {v : ν} (hne : src ≠ dst)
    (h : st.rpoplpush src dst = (st', some v)) : st'.lists dst = v :: st.lists dst := by
  obtain ⟨l, -, rfl⟩ := rpoplpush_some h
  rw [lists_lpush_self, lists_set_of_ne _ _ hne.symm]

/-- What `RPOPLPUSH` hands out was in its source. -/
theorem mem_of_rpoplpush {st st' : ListStore κ ν} {src dst : κ} {v : ν}
    (h : st.rpoplpush src dst = (st', some v)) : v ∈ st.lists src := by
  obtain ⟨l, hl, -⟩ := rpoplpush_some h
  rw [hl]
  exact List.mem_append_right _ List.mem_cons_self

/-- `RPOPLPUSH` touches its source and its destination only. -/
theorem lists_rpoplpush_of_ne {st st' : ListStore κ ν} {src dst k : κ} {r : Option ν}
    (hsrc : k ≠ src) (hdst : k ≠ dst) (h : st.rpoplpush src dst = (st', r)) :
    st'.lists k = st.lists k := by
  cases r with
  | none => rw [(rpoplpush_none h).2]
  | some v =>
    obtain ⟨l, -, rfl⟩ := rpoplpush_some h
    rw [lists_lpush_of_ne _ _ hdst, lists_set_of_ne _ _ hsrc]

/-! ### The content of the store -/

/-- The values stored under the keys satisfying `P`. -/
noncomputable def content (st : ListStore κ ν) (P : κ → Prop) : Multiset ν :=
  open Classical in ∑ᶠ k, if P k then (st.lists k : Multiset ν) else 0

omit [DecidableEq κ] in
/-- Any finite set of keys that covers the existing ones computes the content. -/
theorem content_eq_sum (st : ListStore κ ν) (P : κ → Prop) [DecidablePred P] {S : Finset κ}
    (hS : ∀ k, st.lists k ≠ [] → k ∈ S) :
    st.content P = ∑ k ∈ S, if P k then (st.lists k : Multiset ν) else 0 := by
  unfold content
  rw [finsum_eq_sum_of_support_subset (s := S)]
  · exact Finset.sum_congr rfl fun k _ => by congr
  · intro k hk
    refine hS k fun h0 => hk ?_
    simp [h0]

omit [DecidableEq κ] in
/-- Empty lists have no content. -/
theorem content_eq_zero {st : ListStore κ ν} {P : κ → Prop} (h : ∀ k, P k → st.lists k = []) :
    st.content P = 0 := by
  unfold content
  refine finsum_eq_zero_of_forall_eq_zero fun k => ?_
  by_cases hk : P k
  · rw [if_pos hk, h k hk]
    rfl
  · rw [if_neg hk]

/-- Replacing one list replaces its part of the content. -/
theorem content_set (st : ListStore κ ν) {P : κ → Prop} {k : κ} (l : List ν) (hP : P k) :
    (st.set k l).content P + (st.lists k : Multiset ν) = st.content P + (l : Multiset ν) := by
  classical
  set S : Finset κ := insert k st.finite.toFinset with hS
  have hcover : ∀ j, st.lists j ≠ [] → j ∈ S := fun j hj => by simp [hS, hj]
  have hcover' : ∀ j, (st.set k l).lists j ≠ [] → j ∈ S := by
    intro j hj
    by_cases hjk : j = k
    · simp [hS, hjk]
    · exact hcover j (by simpa [lists_set_of_ne st l hjk] using hj)
  have hk : k ∈ S := by simp [hS]
  -- only the summand of `k` differs
  rw [content_eq_sum _ P hcover, content_eq_sum _ P hcover',
    ← Finset.add_sum_erase S _ hk, ← Finset.add_sum_erase S _ hk]
  have hrest : ∑ j ∈ S.erase k, (if P j then ((st.set k l).lists j : Multiset ν) else 0)
      = ∑ j ∈ S.erase k, if P j then (st.lists j : Multiset ν) else 0 :=
    Finset.sum_congr rfl fun j hj => by rw [lists_set_of_ne st l (Finset.ne_of_mem_erase hj)]
  rw [hrest, lists_set_self, if_pos hP, if_pos hP]
  abel

/-- A list outside of `P` does not count. -/
theorem content_set_of_not (st : ListStore κ ν) {P : κ → Prop} {k : κ} (l : List ν) (hP : ¬ P k) :
    (st.set k l).content P = st.content P := by
  unfold content
  refine finsum_congr fun j => ?_
  by_cases hj : P j
  · have hne : j ≠ k := by
      rintro rfl
      exact hP hj
    rw [if_pos hj, if_pos hj, lists_set_of_ne st l hne]
  · rw [if_neg hj, if_neg hj]

omit [DecidableEq κ] in
@[simp] theorem content_empty (P : κ → Prop) : (empty : ListStore κ ν).content P = 0 := by
  unfold content
  simp

/-- `LPUSH` adds its value to the content. -/
theorem content_lpush (st : ListStore κ ν) {P : κ → Prop} {k : κ} (v : ν) (hP : P k) :
    (st.lpush k v).content P = st.content P + {v} := by
  have h := st.content_set (v :: st.lists k) hP
  rw [← Multiset.cons_coe, ← Multiset.singleton_add, ← add_assoc] at h
  exact add_right_cancel h

/-- `RPOPLPUSH` keeps the content. -/
theorem content_rpoplpush {st st' : ListStore κ ν} {P : κ → Prop} {src dst : κ} {r : Option ν}
    (hsrc : P src) (hdst : P dst) (h : st.rpoplpush src dst = (st', r)) :
    st'.content P = st.content P := by
  cases r with
  | none => rw [(rpoplpush_none h).2]
  | some v =>
    obtain ⟨l, hl, rfl⟩ := rpoplpush_some h
    have hset := st.content_set l hsrc
    rw [hl, ← Multiset.coe_add, add_comm (l : Multiset ν), ← add_assoc] at hset
    rw [content_lpush _ v hdst]
    exact add_right_cancel hset

/-- `RPOPLPUSH` to a key outside of `P` takes its value out of the content. -/
theorem content_rpoplpush_out {st st' : ListStore κ ν} {P : κ → Prop} {src dst : κ} {r : Option ν}
    (hsrc : P src) (hdst : ¬ P dst) (h : st.rpoplpush src dst = (st', r)) :
    st'.content P + (r.toList : Multiset ν) = st.content P := by
  cases r with
  | none =>
    rw [(rpoplpush_none h).2]
    exact add_zero _
  | some v =>
    obtain ⟨l, hl, rfl⟩ := rpoplpush_some h
    have hset := st.content_set l hsrc
    have hpush : ((st.set src l).lpush dst v).content P = (st.set src l).content P :=
      content_set_of_not _ _ hdst
    rw [hl, ← Multiset.coe_add, add_comm (l : Multiset ν), ← add_assoc] at hset
    rw [hpush]
    exact add_right_cancel hset

/-- `LREM` takes out of the content what it reports as removed. -/
theorem content_lrem [DecidableEq ν] (st : ListStore κ ν) {P : κ → Prop} {k : κ} (v : ν)
    (hP : P k) :
    (st.lrem k v).1.content P + Multiset.replicate (st.lrem k v).2 v = st.content P := by
  have hset := st.content_set ((st.lists k).erase v) hP
  have hlist := st.coe_lists_lrem k v
  rw [lists_lrem_self] at hlist
  -- both sides differ from the two halves of `hset` by the list left under `k`
  rw [← hlist, add_comm (((st.lists k).erase v : List ν) : Multiset ν), ← add_assoc] at hset
  exact add_right_cancel hset

end ListStore

end Framework
