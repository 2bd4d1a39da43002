import Mathlib.Data.List.Nodup

/-!
# Dictionaries that keep insertion order

A dictionary is the list of its items, in the order in which their keys were first set. `Dict.ofItems`
builds one from a list of items with repetitions: each key once, with its last value.

* `Dict.nodup_ofItems` — no key occurs twice.
* `Dict.ofItems_eq_self_iff` — the list is kept as it is exactly if no key of it occurs twice.
-/

namespace Framework

namespace Dict

variable {κ α : Type} [DecidableEq κ]

/-- `d[key] = value`: in place, or at the end if the key is new. -/
def set (key : κ) (value : α) : List (κ × α) → List (κ × α)
  | [] => [(key, value)]
  | (k, v) :: d => if k = key then (key, value) :: d else (k, v) :: set key value d

/-- Set the items one after the other. -/
def ofItems (items : List (κ × α)) : List (κ × α) :=
  items.foldl (fun d item => set item.1 item.2 d) []

/-- A new key goes to the end. -/
theorem set_of_notMem {key : κ} {d : List (κ × α)} (h : key ∉ d.map Prod.fst) (value : α) :
    set key value d = d ++ [(key, value)] := by
  induction d with
  | nil => rfl
  | cons item d ih =>
    obtain ⟨hne, hd⟩ := not_or.mp (mt List.mem_cons.mpr h)
    rw [set, if_neg (Ne.symm hne), ih hd, List.cons_append]

/-- A known key keeps its place. -/
theorem keys_set_of_mem {key : κ} {d : List (κ × α)} (h : key ∈ d.map Prod.fst) (value : α) :
    (set key value d).map Prod.fst = d.map Prod.fst := by
  induction d with
  | nil => exact absurd h (by simp)
  | cons item d ih =>
    rw [set]
    split
    · next heq => rw [List.map_cons, List.map_cons, heq]
    · next hne =>
      have hd : key ∈ d.map Prod.fst := (List.mem_cons.mp h).resolve_left (Ne.symm hne)
      rw [List.map_cons, List.map_cons, ih hd]

theorem nodup_set {d : List (κ × α)} (hd : (d.map Prod.fst).Nodup) (key : κ) (value : α) :
    ((set key value d).map Prod.fst).Nodup := by
  by_cases h : key ∈ d.map Prod.fst
  · rwa [keys_set_of_mem h]
  · rw [set_of_notMem h, List.map_append]
    exact List.nodup_append_comm.mp (List.nodup_cons.mpr ⟨h, hd⟩)

theorem nodup_ofItems (items : List (κ × α)) : ((ofItems items).map Prod.fst).Nodup := by
  suffices h : ∀ (items d : List (κ × α)), (d.map Prod.fst).Nodup →
      ((items.foldl (fun d item => set item.1 item.2 d) d).map Prod.fst).Nodup by
    exact h items [] List.nodup_nil
  intro items
  induction items with
  | nil => exact fun _ hd => hd
  | cons item items ih => exact fun d hd => ih _ (nodup_set hd item.1 item.2)

/-- Items whose keys are distinct go to the end one by one. -/
theorem ofItems_of_nodup {items : List (κ × α)} (h : (items.map Prod.fst).Nodup) :
    ofItems items = items := by
  suffices hfold : ∀ (items d : List (κ × α)), ((d ++ items).map Prod.fst).Nodup →
      items.foldl (fun d item => set item.1 item.2 d) d = d ++ items by
    exact hfold items [] h
  intro items
  induction items with
  | nil =>
    intro d _
    rw [List.append_nil]
    rfl
  | cons item items ih =>
    intro d hd
    have hnew : item.1 ∉ d.map Prod.fst := by
      intro hmem
      rw [List.map_append] at hd
      exact (List.nodup_append.mp hd).2.2 _ hmem _ List.mem_cons_self rfl
    rw [List.append_cons] at hd ⊢
    rw [List.foldl_cons, set_of_notMem hnew]
    exact ih _ hd

/-- **What survives.** -/
theorem ofItems_eq_self_iff {items : List (κ × α)} :
    ofItems items = items ↔ (items.map Prod.fst).Nodup :=
  ⟨fun h => h ▸ nodup_ofItems items, ofItems_of_nodup⟩

end Dict

end Framework
