import Mathlib.Data.List.Induction
import Mathlib.Data.List.TakeWhile
import TaxlienGateway.Framework.Json

/-!
# URI references

How a relative reference that begins with `/` is read: its path ends at the first `?` or `#`, the query
at the first `#`. A path is a sequence of segments with its dot segments removed, and a segment stands
for the bytes that percent-decoding yields. Characters that are written as they are stand for their UTF-8
encoding.

* `percentDecode_eq_utf8_iff` — a text stands for itself exactly if no `%` in it is followed by two
  hexadecimal digits: an escape makes it shorter.
* `Denotes` — a reference denotes one segment below a fixed path, which stands for a given text.
* `denotes_pathOf_append_iff` — a non-empty text without `/` that is written below the path as it is
  denotes itself exactly if it is `SelfDenoting`.
* `eq_of_target` — texts that are denoted have different targets.
-/

namespace Framework

namespace Uri

/-! ### Percent-encoding -/

/-- The bytes of a text. -/
def utf8 (s : List Char) : List UInt8 := s.flatMap String.utf8EncodeChar

theorem utf8_injective : Function.Injective utf8 := by
  intro s t h
  have hbytes : (String.ofList s).toByteArray = (String.ofList t).toByteArray := by
    rw [String.toByteArray_ofList, String.toByteArray_ofList]
    exact congrArg List.toByteArray h
  exact String.ofList_injective (String.toByteArray_inj.mp hbytes)

/-- The bytes that a text with escapes stands for. -/
def percentDecode : List Char → List UInt8
  | [] => []
  | '%' :: a :: b :: s =>
    match Json.hexVal? a, Json.hexVal? b with
    | some i, some j => UInt8.ofNat (16 * i + j) :: percentDecode s
    | _, _ => String.utf8EncodeChar '%' ++ percentDecode (a :: b :: s)
  | c :: s => String.utf8EncodeChar c ++ percentDecode s

/-- Somewhere in the text a `%` is followed by two hexadecimal digits. -/
def hasEscape : List Char → Bool
  | [] => false
  | '%' :: a :: b :: s =>
    match Json.hexVal? a, Json.hexVal? b with
    | some _, some _ => true
    | _, _ => hasEscape (a :: b :: s)
  | _ :: s => hasEscape s

theorem utf8_cons (c : Char) (s : List Char) : utf8 (c :: s) = String.utf8EncodeChar c ++ utf8 s :=
  List.flatMap_cons

theorem length_percentDecode_le (s : List Char) : (percentDecode s).length ≤ (utf8 s).length := by
  fun_induction percentDecode s with
  | case1 => exact Nat.le_refl _
  | case2 a b s i j hi hj ih =>
    simp only [utf8_cons, List.length_append, List.length_cons, String.length_utf8EncodeChar]
    have ha := a.utf8Size_pos
    omega
  | case3 a b s hnone ih =>
    rw [utf8_cons, List.length_append, List.length_append]
    exact Nat.add_le_add_left ih _
  | case4 c s hc ih =>
    rw [utf8_cons, List.length_append, List.length_append]
    exact Nat.add_le_add_left ih _

/-- A text without escapes stands for itself. -/
theorem percentDecode_of_not_hasEscape {s : List Char} (h : hasEscape s = false) :
    percentDecode s = utf8 s := by
  fun_induction percentDecode s with
  | case1 => rfl
  | case2 a b s i j hi hj ih => simp [hasEscape, hi, hj] at h
  | case3 a b s hnone ih =>
    rw [hasEscape] at h
    split at h
    · next i j hi hj => exact absurd hj (hnone i j hi)
    · rw [utf8_cons, ih h]
  | case4 c s hc ih =>
    rw [hasEscape] at h
    · rw [utf8_cons, ih h]
    · exact hc

/-- An escape stands for less than is written. -/
theorem length_percentDecode_lt {s : List Char} (h : hasEscape s = true) :
    (percentDecode s).length < (utf8 s).length := by
  fun_induction percentDecode s with
  | case1 => exact absurd h (by simp [hasEscape])
  | case2 a b s i j hi hj ih =>
    have hle := length_percentDecode_le s
    have ha := a.utf8Size_pos
    have hb := b.utf8Size_pos
    simp only [utf8_cons, List.length_append, List.length_cons, String.length_utf8EncodeChar]
    omega
  | case3 a b s hnone ih =>
    rw [hasEscape] at h
    split at h
    · next i j hi hj => exact absurd hj (hnone i j hi)
    · rw [utf8_cons, List.length_append, List.length_append]
      exact Nat.add_lt_add_left (ih h) _
  | case4 c s hc ih =>
    rw [hasEscape] at h
    · rw [utf8_cons, List.length_append, List.length_append]
      exact Nat.add_lt_add_left (ih h) _
    · exact hc

/-- **What stands for itself.** -/
theorem percentDecode_eq_utf8_iff {s : List Char} :
    percentDecode s = utf8 s ↔ hasEscape s = false := by
  refine ⟨fun h => ?_, percentDecode_of_not_hasEscape⟩
  rw [Bool.eq_false_iff]
  intro hescape
  exact absurd (congrArg List.length h) (length_percentDecode_lt hescape).ne

/-! ### References -/

/-- A segment of a path, as it is written. -/
abbrev Segment : Type := List Char

/-- The parts of a relative reference that begins with `/`. -/
structure Reference where
  path : List Char
  query : Option (List Char)
  fragment : Option (List Char)

/-- What follows the first `c`. -/
def after? (c : Char) (s : List Char) : Option (List Char) := (s.dropWhile (· ≠ c)).tail?

/-- Read a reference. -/
def parse (s : List Char) : Reference :=
  let rest := s.takeWhile (· ≠ '#')
  ⟨rest.takeWhile (· ≠ '?'), after? '?' rest, after? '#' s⟩

/-- Remove the dot segments; `out` is what has been read, in reverse. A dot segment at the end leaves an
empty segment. -/
def removeDots (out : List Segment) : List Segment → List Segment
  | [] => out.reverse
  | s :: rest =>
    if s = ['.'] then removeDots (if rest = [] then [] :: out else out) rest
    else if s = ['.', '.'] then
      removeDots (if rest = [] then [] :: out.tail else out.tail) rest
    else removeDots (s :: out) rest

/-- The segments of the path. -/
def Reference.segments (r : Reference) : List Segment := removeDots [] (r.path.splitOn '/').tail

theorem after?_eq_none_iff {c : Char} {s : List Char} : after? c s = none ↔ c ∉ s := by
  have hdrop : s.dropWhile (· ≠ c) = [] ↔ c ∉ s := by
    rw [List.dropWhile_eq_nil_iff]
    exact ⟨fun h hc => by simpa using h c hc,
      fun h x hx => decide_eq_true (ne_of_mem_of_not_mem hx h)⟩
  rw [← hdrop, after?]
  cases s.dropWhile (· ≠ c) with
  | nil => simp
  | cons d rest => simp

/-- A text without the character is kept whole. -/
theorem takeWhile_ne_of_notMem {c : Char} {s : List Char} (h : c ∉ s) :
    s.takeWhile (· ≠ c) = s := by
  rw [List.takeWhile_eq_self_iff]
  exact fun x hx => decide_eq_true (ne_of_mem_of_not_mem hx h)

/-- A reference that is all path. -/
theorem parse_of_notMem {s : List Char} (hquery : '?' ∉ s) (hfragment : '#' ∉ s) :
    parse s = ⟨s, none, none⟩ := by
  unfold parse
  simp only [takeWhile_ne_of_notMem hfragment, takeWhile_ne_of_notMem hquery,
    after?_eq_none_iff.mpr hquery, after?_eq_none_iff.mpr hfragment]

/-- Only such a reference has no query and no fragment. -/
theorem notMem_of_parse {s : List Char} (hquery : (parse s).query = none)
    (hfragment : (parse s).fragment = none) : '?' ∉ s ∧ '#' ∉ s := by
  have hnum : '#' ∉ s := after?_eq_none_iff.mp hfragment
  refine ⟨?_, hnum⟩
  have hrest : after? '?' (s.takeWhile (· ≠ '#')) = none := hquery
  rwa [takeWhile_ne_of_notMem hnum, after?_eq_none_iff] at hrest

/-! ### Paths -/

/-- The path with these segments. -/
def pathOf (segments : List Segment) : List Char := segments.flatMap ('/' :: ·)

theorem pathOf_append_singleton (segments : List Segment) (s : Segment) :
    pathOf (segments ++ [s]) = pathOf segments ++ '/' :: s := by
  rw [pathOf, List.flatMap_append, List.flatMap_singleton]
  rfl

/-- The segments of a path before dot segments are removed. -/
theorem splitOn_pathOf {segments : List Segment} (h : ∀ s ∈ segments, '/' ∉ s) :
    (pathOf segments).splitOn '/' = [] :: segments := by
  induction segments using List.reverseRecOn with
  | nil => rfl
  | append_singleton segments s ih =>
    rw [pathOf_append_singleton, List.splitOn_append_cons_of_beq _ _ (beq_self_eq_true _),
      ih fun t ht => h t (List.mem_append_left _ ht),
      List.splitOn_eq_singleton (h s (by simp))]
    rfl

/-- Segments that are no dot segments are kept. -/
theorem removeDots_append {base : List Segment} (h : ∀ s ∈ base, s ≠ ['.'] ∧ s ≠ ['.', '.'])
    (out rest : List Segment) : removeDots out (base ++ rest) = removeDots (base.reverse ++ out) rest := by
  induction base generalizing out with
  | nil => rfl
  | cons s base ih =>
    obtain ⟨hdot, hdots⟩ := h s List.mem_cons_self
    rw [List.cons_append, removeDots, if_neg hdot, if_neg hdots,
      ih (fun t ht => h t (List.mem_cons_of_mem _ ht)), List.reverse_cons, List.append_assoc]
    rfl

/-- What becomes of a last segment below segments that are no dot segments. -/
theorem getLast?_removeDots {base : List Segment} (h : ∀ s ∈ base, s ≠ ['.'] ∧ s ≠ ['.', '.'])
    (s : Segment) : (removeDots [] (base ++ [s])).getLast? =
      some (if s = ['.'] ∨ s = ['.', '.'] then [] else s) := by
  rw [removeDots_append h, List.append_nil, removeDots]
  by_cases hdot : s = ['.']
  · simp [hdot, removeDots]
  · by_cases hdots : s = ['.', '.']
    · simp [hdots, removeDots]
    · simp [hdot, hdots, removeDots]

/-! ### What a reference denotes -/

/-- The reference denotes one segment below the path `base`, and this segment stands for `x`. -/
def Denotes (url : List Char) (base : List Segment) (x : List Char) : Prop :=
  (parse url).query = none ∧ (parse url).fragment = none ∧
    ∃ s, (parse url).segments = base ++ [s] ∧ percentDecode s = utf8 x

/-- What a reference addresses: the texts of its segments, and its query. -/
def target (url : List Char) : List (List UInt8) × Option (List Char) :=
  ((parse url).segments.map percentDecode, (parse url).query)

/-- A text that denotes itself when it is written as a segment. -/
structure SelfDenoting (x : List Char) : Prop where
  query : '?' ∉ x
  fragment : '#' ∉ x
  escape : hasEscape x = false
  dots : x ≠ ['.'] ∧ x ≠ ['.', '.']

/-- A path made of such segments. -/
def PlainPath (base : List Segment) : Prop :=
  ∀ s ∈ base, '/' ∉ s ∧ '?' ∉ s ∧ '#' ∉ s ∧ s ≠ ['.'] ∧ s ≠ ['.', '.']

theorem PlainPath.notMem {base : List Segment} (h : PlainPath base) :
    '?' ∉ pathOf base ∧ '#' ∉ pathOf base := by
  constructor
  · intro hmem
    obtain ⟨s, hs, hc⟩ := List.mem_flatMap.mp hmem
    exact (h s hs).2.1 ((List.mem_cons.mp hc).resolve_left (by decide))
  · intro hmem
    obtain ⟨s, hs, hc⟩ := List.mem_flatMap.mp hmem
    exact (h s hs).2.2.1 ((List.mem_cons.mp hc).resolve_left (by decide))

section Below

variable {base : List Segment} {x : List Char} (hbase : PlainPath base) (hslash : '/' ∉ x)

include hbase hslash

/-- The segments of a path that goes on with `x`, before dot segments are removed. -/
theorem segments_of_parse {fragment query : Option (List Char)}
    (hparse : parse (pathOf base ++ '/' :: x) = ⟨pathOf base ++ '/' :: x, query, fragment⟩) :
    (parse (pathOf base ++ '/' :: x)).segments = removeDots [] (base ++ [x]) := by
  rw [hparse, Reference.segments, ← pathOf_append_singleton, splitOn_pathOf, List.tail_cons]
  intro s hs
  rcases List.mem_append.mp hs with hs | hs
  · exact (hbase s hs).1
  · rwa [List.mem_singleton.mp hs]

/-- **A text below a fixed path** denotes itself exactly if nothing in it has a meaning of its own. -/
theorem denotes_pathOf_append_iff (hx : x ≠ []) :
    Denotes (pathOf base ++ '/' :: x) base x ↔ SelfDenoting x := by
  constructor
  · rintro ⟨hquery, hfragment, s, hs, hdecode⟩
    obtain ⟨hq, hf⟩ := notMem_of_parse hquery hfragment
    have hlast := congrArg List.getLast?
      ((segments_of_parse hbase hslash (parse_of_notMem hq hf)).symm.trans hs)
    rw [getLast?_removeDots fun t ht => (hbase t ht).2.2.2, List.getLast?_concat] at hlast
    have hdots : ¬ (x = ['.'] ∨ x = ['.', '.']) := by
      intro hdot
      -- a dot segment leaves an empty segment, which stands for nothing
      rw [if_pos hdot] at hlast
      obtain rfl : [] = s := Option.some.inj hlast
      exact hx (utf8_injective hdecode.symm)
    rw [if_neg hdots] at hlast
    obtain rfl : x = s := Option.some.inj hlast
    exact ⟨fun h => hq (by simp [h]), fun h => hf (by simp [h]), percentDecode_eq_utf8_iff.mp hdecode,
      not_or.mp hdots⟩
  · intro h
    have hq : '?' ∉ pathOf base ++ '/' :: x := by simp [hbase.notMem.1, h.query]
    have hf : '#' ∉ pathOf base ++ '/' :: x := by simp [hbase.notMem.2, h.fragment]
    have hparse := parse_of_notMem hq hf
    refine ⟨congrArg Reference.query hparse, congrArg Reference.fragment hparse, x, ?_,
      percentDecode_of_not_hasEscape h.escape⟩
    rw [segments_of_parse hbase hslash hparse, removeDots_append fun t ht => (hbase t ht).2.2.2]
    simp [removeDots, h.dots.1, h.dots.2]

end Below

/-- References that denote texts have the same target only if the texts are the same. -/
theorem eq_of_target {url url' : List Char} {base : List Segment} {x y : List Char}
    (hx : Denotes url base x) (hy : Denotes url' base y) (h : target url = target url') : x = y := by
  obtain ⟨-, -, s, hs, hdecode⟩ := hx
  obtain ⟨-, -, t, ht, hdecode'⟩ := hy
  have hlast := congrArg (fun p => p.1.getLast?) h
  simp only [target, hs, ht, List.map_append, List.map_singleton, List.getLast?_concat, hdecode,
    hdecode'] at hlast
  exact utf8_injective (Option.some.inj hlast)

end Uri

end Framework
