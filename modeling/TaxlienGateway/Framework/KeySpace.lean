import Mathlib.Data.List.Basic

/-!
# Keys that are joined from fields

A key is a text over an alphabet with a separator: its fields, with a separator between two of them and with
nothing escaped. If one field at most may hold the separator (`Fields`), the key still determines its fields,
once it is known how many there are on each side of the free one: `Fields.eq_of_text`.

Keys of several kinds can share a store if the first field tells the kind (`KeySpace`). The kind then fixes
the numbers of fields, and no two keys have the same text: `KeySpace.text_injective`.
-/

namespace Framework

variable {α : Type} {sep : α}

/-- The fields of a key. The free one is any text, and no other has a separator in it. -/
@[ext] structure Fields (sep : α) where
  before : List (List α)
  free : List α
  after : List (List α)
  noSep_before : ∀ field ∈ before, sep ∉ field
  noSep_after : ∀ field ∈ after, sep ∉ field

namespace Fields

/-- The text of a key. -/
def text (fields : Fields sep) : List α :=
  [sep].intercalate (fields.before ++ fields.free :: fields.after)

/-- The fields of a key that ends in its free field. -/
def freeLast (before : List (List α)) (free : List α) (noSep_before : ∀ field ∈ before, sep ∉ field) :
    Fields sep where
  before := before
  free := free
  after := []
  noSep_before := noSep_before
  noSep_after := by simp

/-- A text that is joined from parts splits into what each part splits into. -/
theorem splitOn_intercalate_flatMap [BEq α] [LawfulBEq α] {parts : List (List α)} (hne : parts ≠ []) :
    ([sep].intercalate parts).splitOn sep = parts.flatMap fun part => part.splitOn sep := by
  induction parts with
  | nil => exact absurd rfl hne
  | cons part parts ih =>
    cases parts with
    | nil => rw [List.intercalate_singleton, List.flatMap_singleton]
    | cons next parts =>
      rw [List.intercalate_cons_cons, List.append_assoc, List.singleton_append, List.splitOn_append_cons_self,
        ih (List.cons_ne_nil _ _)]
      rfl

/-- Fields without a separator do not split any further. -/
theorem flatMap_splitOn_of_noSep [BEq α] [LawfulBEq α] {parts : List (List α)}
    (hparts : ∀ part ∈ parts, sep ∉ part) : (parts.flatMap fun part => part.splitOn sep) = parts := by
  induction parts with
  | nil => rfl
  | cons part parts ih =>
    obtain ⟨hpart, hrest⟩ := List.forall_mem_cons.mp hparts
    rw [List.flatMap_cons, List.splitOn_eq_singleton hpart, ih hrest, List.singleton_append]

/-- **Splitting a key** gives its fields, with the free one split in their midst. -/
theorem splitOn_text [BEq α] [LawfulBEq α] (fields : Fields sep) :
    fields.text.splitOn sep = fields.before ++ (fields.free.splitOn sep ++ fields.after) := by
  unfold text
  rw [splitOn_intercalate_flatMap (by simp), List.flatMap_append, List.flatMap_cons,
    flatMap_splitOn_of_noSep fields.noSep_before, flatMap_splitOn_of_noSep fields.noSep_after]

variable {fields fields' : Fields sep}

/-- **A key determines its fields**, if it is known how many there are before the free one and after it. -/
theorem eq_of_text (hbefore : fields.before.length = fields'.before.length)
    (hafter : fields.after.length = fields'.after.length) (h : fields.text = fields'.text) :
    fields = fields' := by
  classical
  have hsplit := congrArg (List.splitOn sep) h
  rw [splitOn_text, splitOn_text] at hsplit
  obtain ⟨hbefore, hrest⟩ := List.append_inj hsplit hbefore
  -- the free field may have split into any number of parts, so what is after it is taken from the end
  obtain ⟨hfree, hafter⟩ := List.append_inj' hrest hafter
  refine Fields.ext hbefore ?_ hafter
  calc fields.free = [sep].intercalate (fields.free.splitOn sep) := (List.intercalate_splitOn sep).symm
    _ = [sep].intercalate (fields'.free.splitOn sep) := by rw [hfree]
    _ = fields'.free := List.intercalate_splitOn sep

/-- The first field, if it is not the free one, can be read off the key. -/
theorem head?_before_of_text (hne : fields.before ≠ []) (hne' : fields'.before ≠ [])
    (h : fields.text = fields'.text) : fields.before.head? = fields'.before.head? := by
  classical
  have hsplit := congrArg (List.splitOn sep) h
  rw [splitOn_text, splitOn_text] at hsplit
  have hhead := congrArg List.head? hsplit
  rwa [List.head?_append_of_ne_nil _ hne, List.head?_append_of_ne_nil _ hne'] at hhead

end Fields

/-! ### Several kinds in one store -/

/-- A text does not begin in two ways, if neither beginning extends the other. -/
theorem not_prefix_of_prefix {p q l : List α} (hq : q <+: l) (hpq : ¬ p <+: q) (hqp : ¬ q <+: p) :
    ¬ p <+: l := by
  intro hp
  rcases List.prefix_or_prefix_of_prefix hp hq with h | h
  · exact hpq h
  · exact hqp h

/-- Kinds of keys. The tag of a kind is the first field of its keys, and the kind fixes how many fields
stand before the free one and after it. -/
structure KeySpace (sep : α) (κ : Type) where
  tag : κ → List α
  before : κ → ℕ
  after : κ → ℕ
  tag_injective : Function.Injective tag

/-- A key of one of the kinds. -/
@[ext] structure KeySpace.Key {κ : Type} (space : KeySpace sep κ) where
  kind : κ
  fields : Fields sep
  head?_before : fields.before.head? = some (space.tag kind)
  length_before : fields.before.length = space.before kind
  length_after : fields.after.length = space.after kind

/-- **No two keys have the same text.** -/
theorem KeySpace.text_injective {κ : Type} (space : KeySpace sep κ) :
    Function.Injective fun key : space.Key => key.fields.text := by
  intro key key' h
  have hne (key : space.Key) : key.fields.before ≠ [] := by
    intro hnil
    have hhead := key.head?_before
    rw [hnil] at hhead
    exact absurd hhead (by simp)
  -- the tags are the same, so the kinds are, and with them the numbers of fields
  have hhead := Fields.head?_before_of_text (hne key) (hne key') h
  rw [key.head?_before, key'.head?_before] at hhead
  have hkind : key.kind = key'.kind := space.tag_injective (Option.some.inj hhead)
  refine KeySpace.Key.ext hkind (Fields.eq_of_text ?_ ?_ h)
  · rw [key.length_before, key'.length_before, hkind]
  · rw [key.length_after, key'.length_after, hkind]

end Framework
