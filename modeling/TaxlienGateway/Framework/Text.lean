import Mathlib.Data.List.Basic

/-!
# Fields and margins of a text

A text is a list over any alphabet.

Split at a separator, its fields are what stands between two separators, or between one and an end of the
text (`mem_splitOn_iff`).

Trimming drops the words of a finite code from both ends, as long as there are any. If the code is
synchronized (`Code`: no word is an end of another, or starts inside another), what is left is determined by
the shape of the text: `trim_eq_iff` and `trim_eq_nil_iff` describe it without the procedure. White space in
UTF-8 (`utf8`, `ofUtf8`) is such a code.
-/

namespace Framework

variable {α : Type}

/-! ### Fields -/

/-- **The fields of a text.** -/
theorem mem_splitOn_iff [BEq α] [LawfulBEq α] {x : α} {s field : List α} :
    field ∈ s.splitOn x ↔ ∃ a b, s = a ++ field ++ b ∧ x ∉ field ∧
      (a = [] ∨ ∃ a', a = a' ++ [x]) ∧ (b = [] ∨ ∃ b', b = x :: b') := by
  constructor
  · intro hfield
    induction hn : s.length using Nat.strongRecOn generalizing s with
    | _ n ih =>
      by_cases hx : x ∈ s
      · -- the first field, or a field of what follows it
        obtain ⟨first, rest, rfl, hfirst⟩ := List.eq_append_cons_of_mem hx
        rw [List.splitOn_append_cons_self_of_not_mem hfirst] at hfield
        obtain rfl | hfield := List.mem_cons.mp hfield
        · exact ⟨[], x :: rest, rfl, hfirst, .inl rfl, .inr ⟨rest, rfl⟩⟩
        · have hlt : rest.length < n := by
            rw [← hn, List.length_append, List.length_cons]
            omega
          obtain ⟨a, b, rfl, hnot, ha, hb⟩ := ih rest.length hlt hfield rfl
          refine ⟨first ++ x :: a, b, by simp, hnot, .inr ?_, hb⟩
          obtain rfl | ⟨a', rfl⟩ := ha
          · exact ⟨first, rfl⟩
          · exact ⟨first ++ x :: a', by simp⟩
      · rw [List.splitOn_eq_singleton hx, List.mem_singleton] at hfield
        subst hfield
        exact ⟨[], [], by simp, hx, .inl rfl, .inl rfl⟩
  · rintro ⟨a, b, rfl, hfield, ha, hb⟩
    -- the field is the first one of what starts with it
    have hhead : field ∈ (field ++ b).splitOn x := by
      obtain rfl | ⟨b', rfl⟩ := hb
      · rw [List.append_nil, List.splitOn_eq_singleton hfield]
        exact List.mem_singleton_self field
      · rw [List.splitOn_append_cons_self_of_not_mem hfield]
        exact List.mem_cons_self
    obtain rfl | ⟨a', rfl⟩ := ha
    · exact hhead
    · rw [List.append_assoc, List.append_assoc, List.singleton_append, List.splitOn_append_cons_self]
      exact List.mem_append_right _ hhead

/-! ### Codes -/

/-- A finite code in which a word shows where it starts. -/
structure Code (words : List (List α)) : Prop where
  nonempty : [] ∉ words
  prefixFree : ∀ u ∈ words, ∀ v ∈ words, u <+: v → u = v
  suffixFree : ∀ u ∈ words, ∀ v ∈ words, u <:+ v → u = v
  /-- No word starts with a letter from the inside of a word. -/
  synchronized : ∀ u ∈ words, ∀ v ∈ words, ∀ a ∈ u.tail, v.head? ≠ some a

/-- A text made of words. -/
def Blank (words : List (List α)) (s : List α) : Prop :=
  ∃ ws : List (List α), (∀ w ∈ ws, w ∈ words) ∧ ws.flatten = s

def StartsBlank (words : List (List α)) (s : List α) : Prop := ∃ w ∈ words, w <+: s

def EndsBlank (words : List (List α)) (s : List α) : Prop := ∃ w ∈ words, w <:+ s

section Code

variable {words : List (List α)}

theorem Blank.nil : Blank words [] := ⟨[], by simp, rfl⟩

theorem Blank.cons {w s : List α} (hw : w ∈ words) (hs : Blank words s) : Blank words (w ++ s) := by
  obtain ⟨ws, hws, rfl⟩ := hs
  exact ⟨w :: ws, List.forall_mem_cons.mpr ⟨hw, hws⟩, rfl⟩

theorem Blank.append {s t : List α} (hs : Blank words s) (ht : Blank words t) : Blank words (s ++ t) := by
  obtain ⟨ws, hws, rfl⟩ := hs
  obtain ⟨us, hus, rfl⟩ := ht
  exact ⟨ws ++ us, List.forall_mem_append.mpr ⟨hws, hus⟩, List.flatten_append⟩

/-- The code read from the right. -/
theorem Blank.reverse {s : List α} (hs : Blank words s) :
    Blank (words.map List.reverse) s.reverse := by
  obtain ⟨ws, hws, rfl⟩ := hs
  refine ⟨(ws.map List.reverse).reverse, fun w hw => ?_, ?_⟩
  · obtain ⟨u, hu, rfl⟩ := List.mem_map.mp (List.mem_reverse.mp hw)
    exact List.mem_map_of_mem (hws u hu)
  · rw [List.reverse_flatten]

theorem startsBlank_reverse {s : List α} :
    StartsBlank (words.map List.reverse) s.reverse ↔ EndsBlank words s := by
  constructor
  · rintro ⟨w, hw, hpre⟩
    obtain ⟨u, hu, rfl⟩ := List.mem_map.mp hw
    exact ⟨u, hu, List.reverse_prefix.mp hpre⟩
  · rintro ⟨u, hu, hsuf⟩
    exact ⟨u.reverse, List.mem_map_of_mem hu, List.reverse_prefix.mpr hsuf⟩

/-- **One margin.** What words are followed by is determined, if it does not start with a word itself. -/
theorem Blank.unique {b b' s s' : List α}
    (hfree : ∀ u ∈ words, ∀ v ∈ words, u <+: v → u = v) (hb : Blank words b) (hb' : Blank words b')
    (hs : ¬ StartsBlank words s) (hs' : ¬ StartsBlank words s') (heq : b ++ s = b' ++ s') : s = s' := by
  obtain ⟨ws, hws, rfl⟩ := hb
  obtain ⟨us, hus, rfl⟩ := hb'
  induction ws generalizing us with
  | nil =>
    cases us with
    | nil => exact heq
    | cons u us =>
      -- then `s` would start with `u`
      refine absurd ⟨u, hus u List.mem_cons_self, us.flatten ++ s', ?_⟩ hs
      rw [← List.append_assoc]
      exact heq.symm
  | cons w ws ih =>
    cases us with
    | nil =>
      refine absurd ⟨w, hws w List.mem_cons_self, ws.flatten ++ s, ?_⟩ hs'
      rw [← List.append_assoc]
      exact heq
    | cons u us =>
      obtain ⟨hw, hws'⟩ := List.forall_mem_cons.mp hws
      obtain ⟨hu, hus'⟩ := List.forall_mem_cons.mp hus
      rw [List.flatten_cons, List.flatten_cons, List.append_assoc, List.append_assoc] at heq
      -- of two prefixes one is a prefix of the other
      have hwu : w = u := by
        obtain h | h := List.prefix_or_prefix_of_prefix (List.prefix_append w (ws.flatten ++ s))
          (heq ▸ List.prefix_append u (us.flatten ++ s'))
        · exact hfree w hw u hu h
        · exact (hfree u hu w hw h).symm
      subst hwu
      exact ih hws' us hus' (List.append_cancel_left heq)

/-- A blank text after one that is not empty and does not start with a word: nor does the whole. -/
theorem Code.not_startsBlank_append (hcode : Code words) {s b : List α} (hne : s ≠ [])
    (hs : ¬ StartsBlank words s) (hb : Blank words b) : ¬ StartsBlank words (s ++ b) := by
  rintro ⟨u, hu, hpre⟩
  obtain hus | hsu := List.prefix_or_prefix_of_prefix hpre (List.prefix_append s b)
  · exact hs ⟨u, hu, hus⟩
  · -- a word that goes over the boundary would have another word start inside it
    obtain ⟨inside, rfl⟩ := hsu
    rw [List.prefix_append_right_inj] at hpre
    obtain ⟨ws, hws, rfl⟩ := hb
    cases inside with
    | nil => exact hs ⟨s, by simpa using hu, List.prefix_rfl⟩
    | cons a inside =>
      cases ws with
      | nil => exact absurd (List.prefix_nil.mp hpre) (List.cons_ne_nil a inside)
      | cons w ws =>
        have hw : w ∈ words := hws w List.mem_cons_self
        have hwne : w ≠ [] := fun h => hcode.nonempty (h ▸ hw)
        obtain ⟨c, cs, rfl⟩ := List.exists_cons_of_ne_nil hwne
        obtain ⟨d, ds, rfl⟩ := List.exists_cons_of_ne_nil hne
        have hac : a = c := (List.cons_prefix_cons.mp hpre).1
        refine hcode.synchronized _ hu _ hw a ?_ (hac ▸ rfl)
        rw [List.cons_append, List.tail_cons]
        exact List.mem_append_right ds List.mem_cons_self

end Code

/-! ### Trimming -/

section Trim

variable [BEq α] [LawfulBEq α]

/-- Drop up to `n` words from the front. -/
def dropWords (words : List (List α)) : ℕ → List α → List α
  | 0, s => s
  | n + 1, s =>
    match words.find? (·.isPrefixOf s) with
    | none => s
    | some w => dropWords words n (s.drop w.length)

/-- Drop the words at the front. -/
def trimLeft (words : List (List α)) (s : List α) : List α := dropWords words s.length s

/-- Drop the words at the end. -/
def trimRight (words : List (List α)) (s : List α) : List α :=
  (trimLeft (words.map List.reverse) s.reverse).reverse

def trim (words : List (List α)) (s : List α) : List α := trimRight words (trimLeft words s)

variable {words : List (List α)}

theorem dropWords_spec (hempty : [] ∉ words) {n : ℕ} {s : List α} (hn : s.length ≤ n) :
    ∃ b, Blank words b ∧ s = b ++ dropWords words n s ∧ ¬ StartsBlank words (dropWords words n s) := by
  have hnil : ¬ StartsBlank words [] := by
    rintro ⟨w, hw, hpre⟩
    exact hempty (List.prefix_nil.mp hpre ▸ hw)
  induction n generalizing s with
  | zero =>
    obtain rfl := List.length_eq_zero_iff.mp (Nat.le_zero.mp hn)
    exact ⟨[], .nil, rfl, hnil⟩
  | succ n ih =>
    unfold dropWords
    cases hfind : words.find? (·.isPrefixOf s) with
    | none =>
      -- no word is at the front
      refine ⟨[], .nil, rfl, fun ⟨w, hw, hpre⟩ => ?_⟩
      exact List.find?_eq_none.mp hfind w hw (List.isPrefixOf_iff_prefix.mpr hpre)
    | some w =>
      have hw : w ∈ words := List.mem_of_find?_eq_some hfind
      have hpre : w.isPrefixOf s = true := by simpa using List.find?_some hfind
      obtain ⟨rest, rfl⟩ := List.isPrefixOf_iff_prefix.mp hpre
      have hpos : 0 < w.length := List.length_pos_iff.mpr fun h => hempty (h ▸ hw)
      have hle : rest.length ≤ n := by
        rw [List.length_append] at hn
        omega
      obtain ⟨b, hb, hrest, hstop⟩ := ih hle
      refine ⟨w ++ b, hb.cons hw, ?_, ?_⟩
      · dsimp only
        rw [List.drop_left, List.append_assoc, ← hrest]
      · dsimp only
        rwa [List.drop_left]

theorem trimLeft_spec (hempty : [] ∉ words) (s : List α) :
    ∃ b, Blank words b ∧ s = b ++ trimLeft words s ∧ ¬ StartsBlank words (trimLeft words s) :=
  dropWords_spec hempty (Nat.le_refl _)

theorem trimRight_spec (hempty : [] ∉ words) (s : List α) :
    ∃ b, Blank words b ∧ s = trimRight words s ++ b ∧ ¬ EndsBlank words (trimRight words s) := by
  have hempty' : [] ∉ words.map List.reverse := by
    intro h
    obtain ⟨w, hw, hnil⟩ := List.mem_map.mp h
    exact hempty (List.reverse_eq_nil_iff.mp hnil ▸ hw)
  obtain ⟨b, hb, hs, hstop⟩ := trimLeft_spec hempty' s.reverse
  refine ⟨b.reverse, ?_, ?_, ?_⟩
  · have hback := hb.reverse
    rwa [List.map_map, List.reverse_involutive.comp_self, List.map_id] at hback
  · rw [trimRight, ← List.reverse_append, ← hs, List.reverse_reverse]
  · rw [← startsBlank_reverse, trimRight, List.reverse_reverse]
    exact hstop

/-- What trimming does. -/
theorem trim_spec (hempty : [] ∉ words) (s : List α) :
    ∃ b b', Blank words b ∧ Blank words b' ∧ s = b ++ trim words s ++ b' ∧
      ¬ StartsBlank words (trim words s) ∧ ¬ EndsBlank words (trim words s) := by
  obtain ⟨b, hb, hs, hstart⟩ := trimLeft_spec hempty s
  obtain ⟨b', hb', hs', hend⟩ := trimRight_spec hempty (trimLeft words s)
  refine ⟨b, b', hb, hb', ?_, ?_, hend⟩
  · rw [List.append_assoc, trim, ← hs', ← hs]
  · rintro ⟨w, hw, hpre⟩
    exact hstart ⟨w, hw, hpre.trans ⟨b', hs'.symm⟩⟩

/-- **What is left after trimming**, if anything is. -/
theorem trim_eq_iff (hcode : Code words) {s t : List α} (hne : t ≠ []) :
    trim words s = t ↔ ∃ b b', Blank words b ∧ Blank words b' ∧ s = b ++ t ++ b' ∧
      ¬ StartsBlank words t ∧ ¬ EndsBlank words t := by
  constructor
  · rintro rfl
    exact trim_spec hcode.nonempty s
  · rintro ⟨b, b', hb, hb', rfl, hstart, hend⟩
    -- first the margin at the front, then the one at the end, each by its uniqueness
    have hleft : trimLeft words (b ++ t ++ b') = t ++ b' := by
      obtain ⟨d, hd, heq, hstop⟩ := trimLeft_spec hcode.nonempty (b ++ t ++ b')
      refine (hb.unique hcode.prefixFree hd (hcode.not_startsBlank_append hne hstart hb') hstop ?_).symm
      rw [← List.append_assoc]
      exact heq
    rw [trim, hleft]
    obtain ⟨d, hd, heq, hstop⟩ := trimRight_spec hcode.nonempty (t ++ b')
    rw [← startsBlank_reverse] at hend hstop
    refine List.reverse_injective (hb'.reverse.unique ?_ hd.reverse hend hstop ?_).symm
    · intro u hu v hv huv
      obtain ⟨u', hu', rfl⟩ := List.mem_map.mp hu
      obtain ⟨v', hv', rfl⟩ := List.mem_map.mp hv
      exact congrArg _ (hcode.suffixFree u' hu' v' hv' (List.reverse_prefix.mp huv))
    · rw [← List.reverse_append, ← List.reverse_append, ← heq]

/-- Nothing is left of a blank text only. -/
theorem trim_eq_nil_iff (hcode : Code words) {s : List α} : trim words s = [] ↔ Blank words s := by
  constructor
  · intro hnil
    obtain ⟨b, b', hb, hb', hs, -, -⟩ := trim_spec hcode.nonempty s
    rw [hnil, List.append_nil] at hs
    exact hs ▸ hb.append hb'
  · intro hs
    -- if something were left, the blank text would have two margins
    by_contra hne
    obtain ⟨b, b', hb, hb', heq, hstart, -⟩ := (trim_eq_iff hcode hne).mp rfl
    have hnil : ¬ StartsBlank words [] := by
      rintro ⟨w, hw, hpre⟩
      exact hcode.nonempty (List.prefix_nil.mp hpre ▸ hw)
    have hrest := hcode.not_startsBlank_append hne hstart hb'
    have hempty : [] = trim words s ++ b' := by
      refine hs.unique hcode.prefixFree hb hnil hrest ?_
      rw [List.append_nil, ← List.append_assoc]
      exact heq
    exact hne (List.append_eq_nil_iff.mp hempty.symm).1

theorem isInfix_trim (hempty : [] ∉ words) (s : List α) : trim words s <:+: s := by
  obtain ⟨b, b', -, -, hs, -⟩ := trim_spec hempty s
  exact ⟨b, b', hs.symm⟩

end Trim

/-! ### Pairs of a letter -/

section Pairs

variable [DecidableEq α]

/-- Drop the pairs of the letter `d`, from left to right and without overlaps. -/
def dropPairs (d : α) : List α → List α
  | [] => []
  | [a] => [a]
  | a :: b :: s => if a = d ∧ b = d then dropPairs d s else a :: dropPairs d (b :: s)

theorem dropPairs_sublist (d : α) (s : List α) : (dropPairs d s).Sublist s := by
  fun_induction dropPairs d s with
  | case1 => exact List.Sublist.refl _
  | case2 a => exact List.Sublist.refl _
  | case3 a b s hpair ih => exact (ih.cons b).cons a
  | case4 a b s hpair ih => exact ih.cons_cons a

theorem head?_dropPairs_ne {d : α} {s : List α} (h : s.head? ≠ some d) :
    (dropPairs d s).head? ≠ some d := by
  fun_cases dropPairs d s with
  | case1 => exact h
  | case2 a => exact h
  | case3 a b s hpair => exact absurd (congrArg some hpair.1) h
  | case4 a b s hpair => exact h

/-- **No pair is left**, and none has come together. -/
theorem not_infix_dropPairs (d : α) (s : List α) : ¬ [d, d] <:+: dropPairs d s := by
  fun_induction dropPairs d s with
  | case1 => simp
  | case2 a =>
    intro h
    exact absurd h.length_le (by simp)
  | case3 a b s hpair ih => exact ih
  | case4 a b s hpair ih =>
    intro h
    obtain hpre | hinf := List.infix_cons_iff.mp h
    · -- a pair at the front would be `a` and `b`, which were no pair
      obtain ⟨rfl, htail⟩ := List.cons_prefix_cons.mp hpre
      have hb : (b :: s).head? ≠ some d := fun hb => hpair ⟨rfl, Option.some.inj hb⟩
      obtain ⟨rest, hrest⟩ := htail
      exact head?_dropPairs_ne hb (hrest ▸ rfl)
    · exact ih hinf

end Pairs

/-! ### UTF-8 -/

/-- The bytes of a string in UTF-8. -/
def utf8 (s : String) : List UInt8 := s.toList.flatMap String.utf8EncodeChar

/-- The one character that these bytes are. -/
def rune? (bytes : List UInt8) : Option Char :=
  (String.fromUTF8? ⟨bytes.toArray⟩).bind fun s =>
    match s.toList with
    | [c] => some c
    | _ => none

/-- The characters of these bytes, at most so many. -/
def readRunes : ℕ → List UInt8 → List Char
  | 0, _ => []
  | _, [] => []
  | n + 1, b :: bs =>
    match [0, 1, 2, 3].find? fun k => (rune? (b :: bs.take k)).isSome with
    | some k => (rune? (b :: bs.take k)).getD '\ufffd' :: readRunes n (bs.drop k)
    -- a byte that no character starts with
    | none => '\ufffd' :: readRunes n bs

/-- The string of bytes in UTF-8, with U+FFFD for each byte that is out of place. -/
def ofUtf8 (bytes : List UInt8) : String := String.ofList (readRunes bytes.length bytes)

/-! ### White space -/

/-- The characters with the property `White_Space`. -/
def spaceChars : List Char :=
  ['\t', '\n', '\x0b', '\x0c', '\r', ' ', '\u0085', '\u00a0', '\u1680', '\u2000', '\u2001', '\u2002',
    '\u2003', '\u2004', '\u2005', '\u2006', '\u2007', '\u2008', '\u2009', '\u200a', '\u2028', '\u2029',
    '\u202f', '\u205f', '\u3000']

/-- Their encodings in UTF-8. -/
def spaceWords : List (List UInt8) := spaceChars.map String.utf8EncodeChar

/-- Drop the white space at both ends. -/
def trimSpace (s : List UInt8) : List UInt8 := trim spaceWords s

theorem code_spaceWords : Code spaceWords where
  nonempty := by decide +kernel
  prefixFree := by decide +kernel
  suffixFree := by decide +kernel
  synchronized := by decide +kernel

end Framework
