import Mathlib.Data.List.Basic
import Mathlib.Data.List.TakeWhile
import TaxlienGateway.Framework.Decimal

/-!
# JSON values, texts and the parser

A `Json` is the syntax tree of a JSON text; object members keep their order and may repeat a name,
since what to do with repetitions is up to the reader of the value. A number keeps its literal
(`Numeral`), so that a reader may tell `1` from `1.0`.

* `Json.parse` — the parser: the whole text, with optional white space around its tokens, or
  nothing;
* `Json.render esc` — the compact printer, over a choice `esc` of how to write each character of a
  string (JSON writers differ in which characters they escape).

Both work on lists of characters. The parser takes fuel, which the length of the text always
provides (`Framework/JsonRoundTrip.lean`).

A `\u` escape that is half of a surrogate pair without its other half is read as U+FFFD.
-/

namespace Framework

/-! ### Number literals -/

/-- An exponent's digits, after an optional sign. -/
def isExponentDigits : List Char → Bool
  | '+' :: cs => cs != [] && cs.all Char.isDigit
  | '-' :: cs => cs != [] && cs.all Char.isDigit
  | cs => cs != [] && cs.all Char.isDigit

/-- What may follow the digits of a number: nothing, or an exponent. -/
def isExponent : List Char → Bool
  | [] => true
  | e :: cs => (e == 'e' || e == 'E') && isExponentDigits cs

/-- What may follow the integer part of a number: a fraction, an exponent, or both. -/
def isFraction : List Char → Bool
  | '.' :: cs => cs.takeWhile Char.isDigit != [] && isExponent (cs.dropWhile Char.isDigit)
  | cs => isExponent cs

/-- The integer part of a number: `0`, or digits that do not start with `0`. -/
def isIntegerPart (ds : List Char) : Bool :=
  ds == ['0'] || (ds != [] && ds.head? != some '0')

/-- A number without its sign. -/
def isUnsigned (cs : List Char) : Bool :=
  isIntegerPart (cs.takeWhile Char.isDigit) && isFraction (cs.dropWhile Char.isDigit)

/-- The number literals of JSON. -/
def isNumeral : List Char → Bool
  | '-' :: cs => isUnsigned cs
  | cs => isUnsigned cs

/-- A JSON number literal. -/
structure Numeral where
  chars : List Char
  valid : isNumeral chars = true
  deriving DecidableEq

/-- A positive number's decimal digits do not start with `0`. -/
theorem head?_toDigits_ne_zero {n : ℕ} (hn : 0 < n) : (Nat.toDigits 10 n).head? ≠ some '0' := by
  induction n using Nat.strong_induction_on with
  | _ n ih =>
    by_cases h : n < 10
    · rw [Nat.toDigits_of_lt_base h, List.head?_cons]
      intro h0
      rw [Option.some.injEq, Nat.digitChar_eq_zero] at h0
      omega
    · have hne : Nat.toDigits 10 (n / 10) ≠ [] := Nat.toDigits_ne_nil
      rw [Nat.toDigits_of_base_le (by decide) (by omega), List.head?_append_of_ne_nil _ hne]
      exact ih (n / 10) (by omega) (by omega)

theorem isUnsigned_toDigits (n : ℕ) : isUnsigned (Nat.toDigits 10 n) = true := by
  have hall := toDigits_all_isDigit n
  have htake : (Nat.toDigits 10 n).takeWhile Char.isDigit = Nat.toDigits 10 n :=
    List.takeWhile_eq_self_iff.mpr (List.all_eq_true.mp hall)
  have hdrop : (Nat.toDigits 10 n).dropWhile Char.isDigit = [] :=
    List.dropWhile_eq_nil_iff.mpr (List.all_eq_true.mp hall)
  unfold isUnsigned
  rw [htake, hdrop]
  rcases Nat.eq_zero_or_pos n with rfl | hn
  · rfl
  · have h0 := head?_toDigits_ne_zero hn
    simp [isIntegerPart, isFraction, isExponent, h0]

theorem isNumeral_intChars (n : ℤ) : isNumeral (intChars n) = true := by
  cases n with
  | ofNat m =>
    have h := isUnsigned_toDigits m
    have hall := toDigits_all_isDigit m
    change isNumeral (Nat.toDigits 10 m) = true
    unfold isNumeral
    split
    · -- a numeral of digits has no minus sign
      next cs heq =>
      rw [heq] at hall
      simp at hall
    · exact h
  | negSucc m => exact isUnsigned_toDigits (m + 1)

/-- The literal of an integer. -/
def Numeral.ofInt (n : ℤ) : Numeral := ⟨intChars n, isNumeral_intChars n⟩

/-- The integer a literal denotes, if it is written without fraction and exponent. -/
def Numeral.toInt? (l : Numeral) : Option ℤ := readInt? l.chars

@[simp] theorem Numeral.toInt?_ofInt (n : ℤ) : (Numeral.ofInt n).toInt? = some n :=
  readInt?_intChars n

/-! ### Values -/

/-- A JSON value. -/
inductive Json where
  | null
  | bool (b : Bool)
  | num (l : Numeral)
  | str (s : String)
  | arr (xs : List Json)
  | obj (members : List (String × Json))

namespace Json

/-! ### Reading strings -/

def isWs (c : Char) : Bool := c == ' ' || c == '\n' || c == '\r' || c == '\t'

def skipWs (cs : List Char) : List Char := cs.dropWhile isWs

/-- The value of a hexadecimal digit. -/
def hexVal? (c : Char) : Option ℕ :=
  if c.isDigit then some (c.toNat - '0'.toNat)
  else if 'a' ≤ c ∧ c ≤ 'f' then some (c.toNat - 'a'.toNat + 10)
  else if 'A' ≤ c ∧ c ≤ 'F' then some (c.toNat - 'A'.toNat + 10)
  else none

/-- Four hexadecimal digits. -/
def readHex4 : List Char → Option (ℕ × List Char)
  | a :: b :: c :: d :: cs => do
    let a ← hexVal? a
    let b ← hexVal? b
    let c ← hexVal? c
    let d ← hexVal? d
    some (((a * 16 + b) * 16 + c) * 16 + d, cs)
  | _ => none

/-- The replacement character, for half a surrogate pair. -/
def replacementChar : Char := Char.ofNat 0xFFFD

def isHighSurrogate (n : ℕ) : Bool := 0xD800 ≤ n && n < 0xDC00

def isLowSurrogate (n : ℕ) : Bool := 0xDC00 ≤ n && n < 0xE000

/-- After `\u`: four digits, and the rest of a surrogate pair if they start one. -/
def readUnicode (cs : List Char) : Option (Char × List Char) := do
  let (n, cs) ← readHex4 cs
  if isHighSurrogate n then
    match cs with
    -- the other half must follow at once
    | '\\' :: 'u' :: cs' =>
      let (m, cs'') ← readHex4 cs'
      if isLowSurrogate m then
        some (Char.ofNat (0x10000 + (n - 0xD800) * 0x400 + (m - 0xDC00)), cs'')
      else some (replacementChar, cs)
    | _ => some (replacementChar, cs)
  else if isLowSurrogate n then some (replacementChar, cs)
  else some (Char.ofNat n, cs)

/-- One character of a string, escaped or not. -/
def readChar : List Char → Option (Char × List Char)
  | '\\' :: '"' :: cs => some ('"', cs)
  | '\\' :: '\\' :: cs => some ('\\', cs)
  | '\\' :: '/' :: cs => some ('/', cs)
  | '\\' :: 'b' :: cs => some ('\x08', cs)
  | '\\' :: 'f' :: cs => some ('\x0c', cs)
  | '\\' :: 'n' :: cs => some ('\n', cs)
  | '\\' :: 'r' :: cs => some ('\r', cs)
  | '\\' :: 't' :: cs => some ('\t', cs)
  | '\\' :: 'u' :: cs => readUnicode cs
  | c :: cs => if c == '\\' || c == '"' || c.toNat < 0x20 then none else some (c, cs)
  | [] => none

/-- The rest of a string, up to and including its closing quote. -/
def readStr : ℕ → List Char → Option (List Char × List Char)
  | 0, _ => none
  | _ + 1, '"' :: cs => some ([], cs)
  | n + 1, cs => do
    let (c, cs) ← readChar cs
    let (s, cs) ← readStr n cs
    some (c :: s, cs)

/-! ### Reading values -/

/-- The characters that can occur in a number literal. -/
def isNumChar (c : Char) : Bool :=
  c.isDigit || c == '-' || c == '+' || c == '.' || c == 'e' || c == 'E'

/-- A number literal: as many number characters as there are. -/
def readNum (cs : List Char) : Option (Json × List Char) :=
  if h : isNumeral (cs.takeWhile isNumChar) = true then
    some (num ⟨cs.takeWhile isNumChar, h⟩, cs.dropWhile isNumChar)
  else none

mutual

/-- A value, after optional white space. -/
def readValue : ℕ → List Char → Option (Json × List Char)
  | 0, _ => none
  | n + 1, cs =>
    match skipWs cs with
    | 'n' :: 'u' :: 'l' :: 'l' :: cs => some (null, cs)
    | 't' :: 'r' :: 'u' :: 'e' :: cs => some (bool true, cs)
    | 'f' :: 'a' :: 'l' :: 's' :: 'e' :: cs => some (bool false, cs)
    | '"' :: cs => (readStr n cs).map fun (s, cs) => (str (String.ofList s), cs)
    | '[' :: cs =>
      match skipWs cs with
      | ']' :: cs => some (arr [], cs)
      | cs => (readElems n cs).map fun (xs, cs) => (arr xs, cs)
    | '{' :: cs =>
      match skipWs cs with
      | '}' :: cs => some (obj [], cs)
      | cs => (readMembers n cs).map fun (ms, cs) => (obj ms, cs)
    | cs => readNum cs

/-- The elements of a non-empty array, up to and including its closing bracket. -/
def readElems : ℕ → List Char → Option (List Json × List Char)
  | 0, _ => none
  | n + 1, cs =>
    (readValue n cs).bind fun (v, cs) =>
      match skipWs cs with
      | ',' :: cs => (readElems n cs).map fun (vs, cs) => (v :: vs, cs)
      | ']' :: cs => some ([v], cs)
      | _ => none

/-- The members of a non-empty object, up to and including its closing brace. -/
def readMembers : ℕ → List Char → Option (List (String × Json) × List Char)
  | 0, _ => none
  | n + 1, cs =>
    match skipWs cs with
    | '"' :: cs =>
      (readStr n cs).bind fun (k, cs) =>
        match skipWs cs with
        | ':' :: cs =>
          (readValue n cs).bind fun (v, cs) =>
            match skipWs cs with
            | ',' :: cs =>
              (readMembers n cs).map fun (ms, cs) => ((String.ofList k, v) :: ms, cs)
            | '}' :: cs => some ([(String.ofList k, v)], cs)
            | _ => none
        | _ => none
    | _ => none

end

/-- A whole text: one value and nothing after it but white space. -/
def parseChars (cs : List Char) : Option Json :=
  match readValue (cs.length + 1) cs with
  | some (v, cs') => if skipWs cs' = [] then some v else none
  | none => none

/-- **The parser.** It reads the grammar of JSON, and real readers differ from it at its edges. Half a surrogate
pair is U+FFFD here and in Go's `encoding/json`, while Python's `json` keeps the half. Python takes `NaN` and the
infinities for numbers, and refuses an integer of more than 4300 digits, which is a numeral here. Both bound the
nesting of a text, which has no bound here. -/
def parse (s : String) : Option Json := parseChars s.toList

/-! ### Writing -/

/-- A string literal, each character written by `esc`. -/
def renderStr (esc : Char → List Char) (s : String) : List Char :=
  '"' :: (s.toList.flatMap esc ++ ['"'])

mutual

/-- The compact text of a value. -/
def renderChars (esc : Char → List Char) : Json → List Char
  | null => ['n', 'u', 'l', 'l']
  | bool true => ['t', 'r', 'u', 'e']
  | bool false => ['f', 'a', 'l', 's', 'e']
  | num l => l.chars
  | str s => renderStr esc s
  | arr [] => ['[', ']']
  | arr (x :: xs) => '[' :: (renderChars esc x ++ renderElems esc xs)
  | obj [] => ['{', '}']
  | obj ((k, v) :: ms) =>
    '{' :: (renderStr esc k ++ ':' :: (renderChars esc v ++ renderMembers esc ms))

/-- The elements after the first one, with the closing bracket. -/
def renderElems (esc : Char → List Char) : List Json → List Char
  | [] => [']']
  | x :: xs => ',' :: (renderChars esc x ++ renderElems esc xs)

/-- The members after the first one, with the closing brace. -/
def renderMembers (esc : Char → List Char) : List (String × Json) → List Char
  | [] => ['}']
  | (k, v) :: ms => ',' :: (renderStr esc k ++ ':' :: (renderChars esc v ++ renderMembers esc ms))

end

/-- **The compact printer.** -/
def render (esc : Char → List Char) (v : Json) : String := String.ofList (renderChars esc v)

end Json

end Framework
