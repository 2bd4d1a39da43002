import Mathlib.Data.List.Basic
import TaxlienGateway.Framework.Decimal

/-!
# Civil time and its ISO 8601 texts

A `Civil` is a date and a time of day of the Gregorian calendar, down to a nanosecond; its fields
carry their ranges, so a thirtieth of February cannot be built. `Civil.instant` counts nanoseconds
from the start of year 1, taking the fields as UTC.

The text of a date and time is `2006-01-02T15:04:05` (`Civil.dateTimeChars`), optionally followed
by a fraction of a second and by a zone. `readDateTime`, `readFraction` and `readZone` read the
three parts; `readInstant` reads a whole timestamp and, as RFC 3339 requires, insists on the zone.

Readers differ in what else they let pass, so each of these takes a `TimeSyntax`. Whatever it is, the
texts of RFC 3339 are read as RFC 3339 says:

* `readDateTime_append` — reading back a date and time;
* `readFraction_append` — reading back a fraction written with a fixed number of digits;
* `readZone_signed` — reading back an offset.
-/

namespace Framework

/-! ### The calendar -/

def isLeapYear (y : ℕ) : Bool := y % 4 == 0 && (y % 100 != 0 || y % 400 == 0)

def daysIn (y m : ℕ) : ℕ :=
  match m with
  | 2 => if isLeapYear y then 29 else 28
  | 4 => 30
  | 6 => 30
  | 9 => 30
  | 11 => 30
  | _ => 31

/-- The days from the start of year 1 to the start of year `y`. -/
def daysBeforeYear (y : ℕ) : ℤ :=
  let p : ℤ := y - 1
  p * 365 + p / 4 - p / 100 + p / 400

/-- The days from the start of year `y` to the start of its month `m`. -/
def daysBeforeMonth (y m : ℕ) : ℕ := ((List.range (m - 1)).map fun i => daysIn y (i + 1)).sum

/-- A date and a time of day. -/
structure Civil where
  year : ℕ
  month : ℕ
  day : ℕ
  hour : ℕ
  minute : ℕ
  second : ℕ
  nano : ℕ
  year_le : year ≤ 9999
  month_mem : 1 ≤ month ∧ month ≤ 12
  day_mem : 1 ≤ day ∧ day ≤ daysIn year month
  hour_le : hour ≤ 23
  minute_le : minute ≤ 59
  second_le : second ≤ 59
  nano_lt : nano < 10 ^ 9
  deriving DecidableEq

theorem nano_zero_lt : 0 < 10 ^ 9 := by decide

/-- The third of February 2026, shortly after five past four. -/
def sampleCivil : Civil :=
  ⟨2026, 2, 3, 4, 5, 6, 789000, by decide, by decide, by decide, by decide, by decide, by decide,
    by decide⟩

/-- Nanoseconds since 0001-01-01T00:00:00Z, reading the fields as UTC. -/
def Civil.instant (t : Civil) : ℤ :=
  let days : ℤ := daysBeforeYear t.year + daysBeforeMonth t.year t.month + (t.day - 1)
  (((days * 24 + t.hour) * 60 + t.minute) * 60 + t.second) * 10 ^ 9 + t.nano

theorem daysIn_le (y m : ℕ) : daysIn y m ≤ 31 := by
  unfold daysIn
  split
  · split <;> decide
  all_goals decide

/-! ### Writing -/

/-- `2006-01-02T15:04:05`. -/
def Civil.dateTimeChars (t : Civil) : List Char :=
  padChars 4 t.year ++ '-' :: (padChars 2 t.month ++ '-' :: (padChars 2 t.day ++ 'T' ::
    (padChars 2 t.hour ++ ':' :: (padChars 2 t.minute ++ ':' :: padChars 2 t.second))))

/-! ### Reading -/

/-- What a reader of timestamps lets pass besides RFC 3339. -/
structure TimeSyntax where
  /-- An hour of one digit. -/
  shortHour : Bool
  /-- A fraction that follows a comma. -/
  comma : Bool
  /-- Offsets up to so many hours and minutes. -/
  maxHours : ℕ
  maxMinutes : ℕ
  hours_le : 23 ≤ maxHours
  minutes_le : 59 ≤ maxMinutes

/-- RFC 3339 and nothing else. -/
def TimeSyntax.rfc3339 : TimeSyntax := ⟨false, false, 23, 59, le_refl _, le_refl _⟩

/-- Exactly `w` digits whose value lies between `lo` and `hi`. -/
def readField (w lo hi : ℕ) (cs : List Char) : Option (ℕ × List Char) :=
  if w ≤ cs.length then
    (readNat? (cs.take w)).bind fun n => if lo ≤ n ∧ n ≤ hi then some (n, cs.drop w) else none
  else none

/-- Exactly the character `c`. -/
def readSep (c : Char) : List Char → Option (List Char)
  | d :: cs => if d = c then some cs else none
  | [] => none

/-- Does a digit follow the first character? -/
def secondIsDigit (cs : List Char) : Bool := cs.tail.head?.any Char.isDigit

/-- An hour: two digits, or possibly one that stands alone. -/
def readHour (x : TimeSyntax) (cs : List Char) : Option (ℕ × List Char) :=
  if x.shortHour && !secondIsDigit cs then readField 1 0 23 cs else readField 2 0 23 cs

/-- A date and a time of day, to the second. What lenient readers let pass besides is refused: a blank or a
lower-case `t` in the middle, seconds that are left out, a leap second, or a number of seconds in place of a text. A
timestamp that is written with escapes is one here, since the text is matched after unescaping; Go's `time.Time`
looks at the literal as it stands. -/
def readDateTime (x : TimeSyntax) (cs : List Char) : Option (Civil × List Char) :=
  (readField 4 0 9999 cs).bind fun (y, cs) =>
  (readSep '-' cs).bind fun cs =>
  (readField 2 1 12 cs).bind fun (mo, cs) =>
  (readSep '-' cs).bind fun cs =>
  (readField 2 1 31 cs).bind fun (d, cs) =>
  (readSep 'T' cs).bind fun cs =>
  (readHour x cs).bind fun (h, cs) =>
  (readSep ':' cs).bind fun cs =>
  (readField 2 0 59 cs).bind fun (mi, cs) =>
  (readSep ':' cs).bind fun cs =>
  (readField 2 0 59 cs).bind fun (s, cs) =>
  if hr : y ≤ 9999 ∧ (1 ≤ mo ∧ mo ≤ 12) ∧ (1 ≤ d ∧ d ≤ daysIn y mo) ∧ h ≤ 23 ∧ mi ≤ 59 ∧ s ≤ 59 then
    some (⟨y, mo, d, h, mi, s, 0, hr.1, hr.2.1, hr.2.2.1, hr.2.2.2.1, hr.2.2.2.2.1, hr.2.2.2.2.2,
      nano_zero_lt⟩, cs)
  else none

/-- Can a fraction follow this character? -/
def TimeSyntax.isPoint (x : TimeSyntax) (c : Char) : Bool := c == '.' || (x.comma && c == ',')

/-- A fraction of a second, in units of `10 ^ -p`; digits after the `p`-th are ignored, and no
fraction counts as zero. -/
def readFraction (x : TimeSyntax) (p : ℕ) : List Char → ℕ × List Char
  | c :: cs =>
    let ds := (cs.takeWhile Char.isDigit).take p
    -- a point without a digit is left where it is
    if x.isPoint c = true ∧ cs.takeWhile Char.isDigit ≠ [] then
      (Nat.ofDigitChars 10 ds 0 * 10 ^ (p - ds.length), cs.dropWhile Char.isDigit)
    else (0, c :: cs)
  | [] => (0, [])

/-- A zone and nothing after it, as seconds east of UTC. -/
def readZone (x : TimeSyntax) : List Char → Option ℤ
  | ['Z'] => some 0
  | sign :: cs =>
    (readField 2 0 x.maxHours cs).bind fun (h, cs) =>
    (readSep ':' cs).bind fun cs =>
    (readField 2 0 x.maxMinutes cs).bind fun (m, cs) =>
    if cs ≠ [] then none
    else if sign = '+' then some ((h * 60 + m) * 60)
    else if sign = '-' then some (-((h * 60 + m) * 60))
    else none
  | [] => none

/-- A timestamp: date, time, optional fraction, zone. The result is an instant. -/
def readInstant (x : TimeSyntax) (cs : List Char) : Option ℤ :=
  (readDateTime x cs).bind fun (t, cs) =>
    let (ns, cs) := readFraction x 9 cs
    (readZone x cs).map fun offset => t.instant + ns - offset * 10 ^ 9

/-! ### Reading back -/

theorem readField_padChars {w lo hi n : ℕ} (hw : 0 < w) (hn : n < 10 ^ w) (hlo : lo ≤ n)
    (hhi : n ≤ hi) (cs : List Char) : readField w lo hi (padChars w n ++ cs) = some (n, cs) := by
  have hlen := length_padChars hw hn
  unfold readField
  rw [if_pos (by rw [List.length_append]; omega), List.take_left' hlen, List.drop_left' hlen,
    readNat?_padChars, Option.bind_some, if_pos ⟨hlo, hhi⟩]

@[simp] theorem readSep_cons (c : Char) (cs : List Char) : readSep c (c :: cs) = some cs := by
  simp [readSep]

/-- Two digits are two digits, whether or not one would do. -/
theorem readHour_padChars (x : TimeSyntax) {h : ℕ} (hh : h ≤ 23) (cs : List Char) :
    readHour x (padChars 2 h ++ cs) = some (h, cs) := by
  have hall := padChars_all_isDigit 2 h
  have hlen : (padChars 2 h).length = 2 := length_padChars (by decide) (by omega)
  obtain ⟨a, b, hab⟩ := List.length_eq_two.mp hlen
  have hsecond : secondIsDigit (padChars 2 h ++ cs) = true := by
    -- the second of the two is a digit as well
    rw [hab] at hall ⊢
    exact List.all_eq_true.mp hall b (List.mem_cons_of_mem _ List.mem_cons_self)
  unfold readHour
  rw [hsecond, Bool.not_true, Bool.and_false, if_neg Bool.false_ne_true]
  exact readField_padChars (by decide) (by omega) h.zero_le hh cs

/-- The same civil time without its fraction of a second. -/
def Civil.truncate (t : Civil) : Civil := { t with nano := 0, nano_lt := by decide }

theorem Civil.instant_truncate (t : Civil) : t.instant = t.truncate.instant + t.nano := by
  simp [Civil.instant, Civil.truncate]

/-- **Reading back a date and time.** -/
theorem readDateTime_append (x : TimeSyntax) (t : Civil) (cs : List Char) :
    readDateTime x (t.dateTimeChars ++ cs) = some (t.truncate, cs) := by
  have hd := t.day_mem.2.trans (daysIn_le _ _)
  have hy := t.year_le
  have hmo := t.month_mem
  have hh := t.hour_le
  have hmi := t.minute_le
  have hs := t.second_le
  have field : ∀ {w lo hi n : ℕ}, 0 < w → n < 10 ^ w → lo ≤ n → n ≤ hi → ∀ cs,
      readField w lo hi (padChars w n ++ cs) = some (n, cs) := readField_padChars
  unfold readDateTime Civil.dateTimeChars
  simp only [List.append_assoc, List.cons_append]
  -- the fields and their separators, from left to right
  rw [field (by decide) (by omega) (by omega) hy, Option.bind_some, readSep_cons,
    Option.bind_some, field (by decide) (by omega) hmo.1 hmo.2, Option.bind_some, readSep_cons,
    Option.bind_some, field (by decide) (by omega) t.day_mem.1 hd, Option.bind_some, readSep_cons,
    Option.bind_some, readHour_padChars x hh, Option.bind_some, readSep_cons,
    Option.bind_some, field (by decide) (by omega) (by omega) hmi, Option.bind_some, readSep_cons,
    Option.bind_some, field (by decide) (by omega) (by omega) hs, Option.bind_some]
  rw [dif_pos ⟨hy, hmo, t.day_mem, hh, hmi, hs⟩]
  rfl

/-- The rest does not go on with a digit. -/
def EndsDigits (cs : List Char) : Prop := ∀ c ∈ cs.head?, c.isDigit = false

theorem EndsDigits.cons {c : Char} {cs : List Char} (h : c.isDigit = false) : EndsDigits (c :: cs) := by
  rintro d hd
  obtain rfl := Option.some.inj hd
  exact h

/-- No fraction goes on with this rest, and none starts with it. -/
def EndsFraction (cs : List Char) : Prop := ∀ c ∈ cs.head?, c.isDigit = false ∧ c ≠ '.' ∧ c ≠ ','

theorem EndsFraction.endsDigits {cs : List Char} (h : EndsFraction cs) : EndsDigits cs :=
  fun c hc => (h c hc).1

theorem EndsFraction.cons {c : Char} {cs : List Char} (h : c.isDigit = false) (hpoint : c ≠ '.')
    (hcomma : c ≠ ',') : EndsFraction (c :: cs) := by
  rintro d hd
  obtain rfl := Option.some.inj hd
  exact ⟨h, hpoint, hcomma⟩

/-- **Reading back a fraction** written with `w` digits, in units of `10 ^ -p`. -/
theorem readFraction_append (x : TimeSyntax) {p w n : ℕ} (hw : 0 < w) (hp : w ≤ p) (hn : n < 10 ^ w)
    {cs : List Char} (hcs : EndsDigits cs) :
    readFraction x p ('.' :: (padChars w n ++ cs)) = (n * 10 ^ (p - w), cs) := by
  have hlen := length_padChars hw hn
  have hall : ∀ c ∈ padChars w n, c.isDigit = true := List.all_eq_true.mp (padChars_all_isDigit w n)
  obtain ⟨htake, hdrop⟩ := span_append hall hcs
  have hfraction : x.isPoint '.' = true ∧ padChars w n ≠ [] := ⟨rfl, padChars_ne_nil w n⟩
  simp only [readFraction, htake, hdrop]
  rw [if_pos hfraction, List.take_of_length_le (hlen.le.trans hp), hlen, ofDigitChars_padChars]

/-- Without a point there is no fraction. -/
theorem readFraction_of_ends (x : TimeSyntax) {p : ℕ} {cs : List Char} (h : EndsFraction cs) :
    readFraction x p cs = (0, cs) := by
  cases cs with
  | nil => rfl
  | cons c cs =>
    obtain ⟨-, hpoint, hcomma⟩ := h c rfl
    have hno : ¬ (x.isPoint c = true ∧ cs.takeWhile Char.isDigit ≠ []) := by
      rintro ⟨hc, -⟩
      simp [TimeSyntax.isPoint, hpoint, hcomma] at hc
    exact if_neg hno

/-- **Reading back an offset** written as sign, hours and minutes. -/
theorem readZone_signed (x : TimeSyntax) {sign : Char} {h m : ℕ} (hh : h ≤ 23) (hm : m ≤ 59) :
    readZone x (sign :: (padChars 2 h ++ ':' :: padChars 2 m)) =
      if sign = '+' then some (((h : ℤ) * 60 + m) * 60)
      else if sign = '-' then some (-(((h : ℤ) * 60 + m) * 60)) else none := by
  have hhour : ∀ cs, readField 2 0 x.maxHours (padChars 2 h ++ cs) = some (h, cs) :=
    readField_padChars (by decide) (by omega) h.zero_le (hh.trans x.hours_le)
  have hmin : readField 2 0 x.maxMinutes (padChars 2 m ++ []) = some (m, []) :=
    readField_padChars (by decide) (by omega) m.zero_le (hm.trans x.minutes_le) []
  rw [List.append_nil] at hmin
  unfold readZone
  split
  · -- `Z` stands alone
    next heq =>
    have hne : padChars 2 h ++ ':' :: padChars 2 m ≠ [] := by simp
    exact absurd (List.cons.inj heq).2 hne
  · next sign' cs _ heq =>
    obtain ⟨rfl, rfl⟩ := List.cons.inj heq
    simp only [hhour, Option.bind_some, readSep_cons, hmin, ne_eq, not_true_eq_false, ↓reduceIte]
  · next heq => exact absurd heq (by simp)

end Framework
