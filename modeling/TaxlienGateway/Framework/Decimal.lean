import Mathlib.Algebra.GroupWithZero.Nat
import Mathlib.Algebra.Ring.Int.Defs
import Mathlib.Algebra.Ring.Nat
import Mathlib.Data.List.TakeWhile

/-!
# Decimal numerals

How integers are written and read in base ten: the plain numeral of an integer (`intChars`, which is
what `toString` prints), the zero-padded numeral of a given width (`padChars`), and the two readers
`readNat?` and `readInt?`. A numeral consists of digits, after an optional minus sign
(`mem_intChars`), and reading back what was written gives the number (`readInt?_intChars`,
`readNat?_padChars`); hence different integers have different numerals (`intChars_injective`).
-/

namespace Framework

/-- The decimal numeral of an integer. -/
def intChars : ℤ → List Char
  | .ofNat m => Nat.toDigits 10 m
  | .negSucc m => '-' :: Nat.toDigits 10 (m + 1)

/-- `intChars` is what `toString` prints. -/
theorem toList_toString_int (n : ℤ) : (toString n).toList = intChars n := by
  cases n with
  | ofNat m => simp [intChars, Int.repr]
  | negSucc m => simp [intChars, Int.repr, String.toList_append]

/-- Read a non-empty string of digits. -/
def readNat? (cs : List Char) : Option ℕ :=
  if cs ≠ [] ∧ cs.all Char.isDigit then some (Nat.ofDigitChars 10 cs 0) else none

/-- Read a numeral with an optional minus sign. -/
def readInt? : List Char → Option ℤ
  | '-' :: cs => (readNat? cs).map fun n => -(n : ℤ)
  | cs => (readNat? cs).map fun n => (n : ℤ)

theorem toDigits_all_isDigit (n : ℕ) : (Nat.toDigits 10 n).all Char.isDigit = true :=
  List.all_eq_true.mpr fun _ hc => Nat.isDigit_of_mem_toDigits (by decide) (by decide) hc

/-- A character of a numeral is a digit or the minus sign. -/
theorem mem_intChars {n : ℤ} {c : Char} (h : c ∈ intChars n) : c.isDigit = true ∨ c = '-' := by
  cases n with
  | ofNat m => exact .inl (Nat.isDigit_of_mem_toDigits (by decide) (by decide) h)
  | negSucc m =>
    rcases List.mem_cons.mp h with rfl | h
    · exact .inr rfl
    · exact .inl (Nat.isDigit_of_mem_toDigits (by decide) (by decide) h)

theorem readNat?_toDigits (n : ℕ) : readNat? (Nat.toDigits 10 n) = some n := by
  unfold readNat?
  rw [if_pos ⟨Nat.toDigits_ne_nil, toDigits_all_isDigit n⟩, Nat.ofDigitChars_ten_toDigits]

/-- Reading an integer without a leading minus sign. -/
theorem readInt?_of_head {c : Char} {cs : List Char} (h : c ≠ '-') :
    readInt? (c :: cs) = (readNat? (c :: cs)).map fun n => (n : ℤ) := by
  unfold readInt?
  split
  · next heq => exact absurd (List.cons.inj heq).1 h
  · rfl

/-- **Reading back an integer numeral.** -/
theorem readInt?_intChars (n : ℤ) : readInt? (intChars n) = some n := by
  cases n with
  | ofNat m =>
    have hall := toDigits_all_isDigit m
    have hread := readNat?_toDigits m
    change readInt? (Nat.toDigits 10 m) = _
    cases hd : Nat.toDigits 10 m with
    | nil => exact absurd hd Nat.toDigits_ne_nil
    | cons c cs =>
      rw [hd] at hall hread
      have hc : c ≠ '-' := by
        rintro rfl
        simp at hall
      rw [readInt?_of_head hc, hread]
      rfl
  | negSucc m =>
    rw [intChars, readInt?, readNat?_toDigits]
    rfl

/-- Different integers have different numerals. -/
theorem intChars_injective : Function.Injective intChars := by
  intro m n h
  have hm := readInt?_intChars m
  rw [h, readInt?_intChars] at hm
  exact (Option.some.inj hm).symm

/-! ### Padded numerals -/

/-- The numeral of `n`, padded with zeros on the left to width `w`. -/
def padChars (w n : ℕ) : List Char :=
  List.replicate (w - (Nat.toDigits 10 n).length) '0' ++ Nat.toDigits 10 n

theorem padChars_all_isDigit (w n : ℕ) : (padChars w n).all Char.isDigit = true := by
  unfold padChars
  rw [List.all_append, toDigits_all_isDigit, List.all_eq_true.mpr]
  · rfl
  · intro c hc
    obtain rfl := List.eq_of_mem_replicate hc
    decide

theorem padChars_ne_nil (w n : ℕ) : padChars w n ≠ [] := by
  intro h
  exact Nat.toDigits_ne_nil (List.append_eq_nil_iff.mp h).2

/-- A number that fits is padded to exactly the width. -/
theorem length_padChars {w n : ℕ} (hw : 0 < w) (hn : n < 10 ^ w) : (padChars w n).length = w := by
  have h : (Nat.toDigits 10 n).length ≤ w := (Nat.length_toDigits_le_iff (by decide) hw).mpr hn
  unfold padChars
  rw [List.length_append, List.length_replicate]
  omega

/-- The padding does not change the value. -/
theorem ofDigitChars_padChars (w n : ℕ) : Nat.ofDigitChars 10 (padChars w n) 0 = n := by
  unfold padChars
  rw [Nat.ofDigitChars_append, Nat.ofDigitChars_replicate_zero, Nat.mul_zero,
    Nat.ofDigitChars_ten_toDigits]

/-- **Reading back a padded numeral.** -/
theorem readNat?_padChars (w n : ℕ) : readNat? (padChars w n) = some n := by
  unfold readNat?
  rw [if_pos ⟨padChars_ne_nil w n, padChars_all_isDigit w n⟩, ofDigitChars_padChars]

/-! ### Leaving the rest of a text alone -/

/-- The longest run of characters satisfying `p`, when the text goes on with one that does not. -/
theorem span_append {p : Char → Bool} {xs cs : List Char} (hxs : ∀ c ∈ xs, p c = true)
    (hcs : ∀ c ∈ cs.head?, p c = false) :
    (xs ++ cs).takeWhile p = xs ∧ (xs ++ cs).dropWhile p = cs := by
  have hstop : cs.takeWhile p = [] ∧ cs.dropWhile p = cs := by
    cases cs with
    | nil => exact ⟨rfl, rfl⟩
    | cons c cs =>
      have hc : ¬ p c = true := by simp [hcs c rfl]
      exact ⟨List.takeWhile_cons_of_neg hc, List.dropWhile_cons_of_neg hc⟩
  rw [List.takeWhile_append_of_pos hxs, List.dropWhile_append_of_pos hxs, hstop.1, hstop.2]
  exact ⟨List.append_nil _, rfl⟩

end Framework
