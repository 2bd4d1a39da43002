import Mathlib.Data.List.DropRight
import Mathlib.Tactic.Ring
import TaxlienGateway.Framework.Civil

/-!
# Timestamps with a zone

A `Zoned` is a civil time together with its offset from UTC: what a timestamp says, before the zone is
thrown away. `readZoned` reads it, and `readInstant` is what is left of it as an instant
(`readInstant_eq`). `Zoned.rfc3339Nano` writes it in its own zone, with no more digits of the fraction
than it needs; the fraction is read back to any precision up to a nanosecond
(`readFraction_nanoFraction`).

A reader may let pass an offset of a day or more, which RFC 3339 does not have: such a time cannot be written
(`Zoned.WithinDay`).
-/

namespace Framework

/-- A civil time and its offset from UTC, in minutes. -/
structure Zoned where
  civil : Civil
  offset : ℤ
  deriving DecidableEq

/-- The offset is less than a day. -/
def Zoned.WithinDay (z : Zoned) : Prop := z.offset.natAbs < 24 * 60

instance (z : Zoned) : Decidable z.WithinDay := Nat.decLt _ _

/-- The instant it denotes. -/
def Zoned.instant (z : Zoned) : ℤ := z.civil.instant - z.offset * 60 * 10 ^ 9

/-! ### Reading -/

/-- A timestamp with its zone. The condition always holds. -/
def readZoned (x : TimeSyntax) (cs : List Char) : Option Zoned :=
  (readDateTime x cs).bind fun (t, cs) =>
    let (ns, cs) := readFraction x 9 cs
    (readZone x cs).bind fun offset =>
      if h : ns < 10 ^ 9 then some ⟨{ t with nano := ns, nano_lt := h }, offset / 60⟩ else none

/-- What is read to the second has no fraction. -/
theorem nano_of_readDateTime {x : TimeSyntax} {cs cs' : List Char} {t : Civil}
    (h : readDateTime x cs = some (t, cs')) : t.nano = 0 := by
  unfold readDateTime at h
  -- six numbers, each with the rest of the text, and five separators between them
  iterate 5
    obtain ⟨⟨_, _⟩, -, h⟩ := Option.bind_eq_some_iff.mp h
    obtain ⟨_, -, h⟩ := Option.bind_eq_some_iff.mp h
  obtain ⟨⟨_, _⟩, -, h⟩ := Option.bind_eq_some_iff.mp h
  dsimp only at h
  split at h
  · obtain ⟨rfl, -⟩ := Prod.mk.inj (Option.some.inj h)
    rfl
  · exact absurd h (by simp)

/-- The value of `w` digits is less than `10 ^ w`. -/
theorem ofDigitChars_lt {ds : List Char} (h : ∀ c ∈ ds, c.isDigit = true) :
    Nat.ofDigitChars 10 ds 0 < 10 ^ ds.length := by
  induction ds with
  | nil => simp
  | cons c ds ih =>
    have hrest := ih fun d hd => h d (List.mem_cons_of_mem _ hd)
    have hc : c.toNat - '0'.toNat ≤ 9 := by
      have hdigit := h c List.mem_cons_self
      rw [Char.isDigit, Bool.and_eq_true, decide_eq_true_eq, decide_eq_true_eq] at hdigit
      have hle : c.toNat ≤ '9'.toNat := hdigit.2
      have hnine : '9'.toNat = '0'.toNat + 9 := rfl
      omega
    rw [Nat.ofDigitChars_cons, Nat.ofDigitChars_eq_ofDigitChars_zero, List.length_cons, pow_succ]
    calc 10 ^ ds.length * (10 * 0 + (c.toNat - '0'.toNat)) + Nat.ofDigitChars 10 ds 0
        < 10 ^ ds.length * (10 * 0 + (c.toNat - '0'.toNat)) + 10 ^ ds.length := by omega
      _ = 10 ^ ds.length * (c.toNat - '0'.toNat + 1) := by ring
      _ ≤ 10 ^ ds.length * 10 := Nat.mul_le_mul_left _ (by omega)

theorem readFraction_lt (x : TimeSyntax) (p : ℕ) (cs : List Char) : (readFraction x p cs).1 < 10 ^ p := by
  have hpos : 0 < 10 ^ p := Nat.pow_pos (by decide)
  cases cs with
  | nil => exact hpos
  | cons c cs =>
    unfold readFraction
    dsimp only
    split
    · have hlen := List.length_take_le p (cs.takeWhile Char.isDigit)
      have hlt : Nat.ofDigitChars 10 ((cs.takeWhile Char.isDigit).take p) 0 <
          10 ^ ((cs.takeWhile Char.isDigit).take p).length :=
        ofDigitChars_lt fun c hc => List.mem_takeWhile_imp (List.mem_of_mem_take hc)
      calc Nat.ofDigitChars 10 ((cs.takeWhile Char.isDigit).take p) 0 *
            10 ^ (p - ((cs.takeWhile Char.isDigit).take p).length)
          < 10 ^ ((cs.takeWhile Char.isDigit).take p).length *
            10 ^ (p - ((cs.takeWhile Char.isDigit).take p).length) :=
              Nat.mul_lt_mul_of_pos_right hlt (Nat.pow_pos (by decide))
        _ = 10 ^ p := by rw [← pow_add, Nat.add_sub_cancel' hlen]
    · exact hpos

/-- A zone is a number of minutes. -/
theorem readZone_minutes {x : TimeSyntax} {cs : List Char} {offset : ℤ} (h : readZone x cs = some offset) :
    offset / 60 * 60 = offset := by
  unfold readZone at h
  split at h
  · obtain rfl := Option.some.inj h
    decide
  · simp only [Option.bind_eq_some_iff, Prod.exists] at h
    obtain ⟨hour, _, -, _, -, minute, _, -, h⟩ := h
    split at h
    · exact absurd h (by simp)
    · split at h
      · obtain rfl := Option.some.inj h
        omega
      · split at h
        · obtain rfl := Option.some.inj h
          omega
        · exact absurd h (by simp)
  · exact absurd h (by simp)

/-- **Forgetting the zone.** -/
theorem readInstant_eq (x : TimeSyntax) (cs : List Char) :
    readInstant x cs = (readZoned x cs).map Zoned.instant := by
  unfold readInstant readZoned
  cases ht : readDateTime x cs with
  | none => rfl
  | some r =>
    obtain ⟨t, cs'⟩ := r
    have hnano := nano_of_readDateTime ht
    have hlt := readFraction_lt x 9 cs'
    rw [Option.bind_some, Option.bind_some]
    dsimp only
    cases hz : readZone x (readFraction x 9 cs').2 with
    | none => rfl
    | some offset =>
      have hmin := readZone_minutes hz
      rw [Option.map_some, Option.bind_some, dif_pos hlt, Option.map_some]
      unfold Zoned.instant
      congr 1
      dsimp only
      rw [hmin, Civil.instant_truncate t, hnano, Civil.instant_truncate { t with nano := _, nano_lt := _ }]
      simp [Civil.truncate]

/-! ### Writing -/

/-- The zone of an RFC 3339 text: `Z` for UTC, else sign, hours and minutes. -/
def zoneText (m : ℤ) : List Char :=
  if m = 0 then ['Z']
  else (if 0 < m then '+' else '-') ::
    (padChars 2 (m.natAbs / 60) ++ ':' :: padChars 2 (m.natAbs % 60))

/-- The fraction of a second, without the zeros at its end. -/
def nanoFraction (nano : ℕ) : List Char :=
  if nano = 0 then [] else '.' :: (padChars 9 nano).rdropWhile (· == '0')

/-- The layout `2006-01-02T15:04:05.999999999Z07:00`, which has two digits for the hours of the offset. -/
def Zoned.rfc3339Nano (z : Zoned) : String :=
  String.ofList (z.civil.dateTimeChars ++ (nanoFraction z.civil.nano ++ zoneText z.offset))

/-! ### Reading back -/

theorem readZone_zoneText (x : TimeSyntax) {m : ℤ} (hm : m.natAbs < 24 * 60) :
    readZone x (zoneText m) = some (m * 60) := by
  unfold zoneText
  by_cases h0 : m = 0
  · rw [if_pos h0, h0]
    rfl
  · -- the sign is written apart from hours and minutes of the absolute value
    rw [if_neg h0, readZone_signed x (by omega) (by omega)]
    by_cases hpos : 0 < m
    · rw [if_pos hpos, if_pos rfl]
      congr 1
      omega
    · rw [if_neg hpos, if_neg (by decide), if_pos rfl]
      congr 1
      omega

/-- A zone starts neither with a digit nor with a point. -/
theorem endsFraction_zoneText (m : ℤ) : EndsFraction (zoneText m) := by
  unfold zoneText
  by_cases h0 : m = 0
  · rw [if_pos h0]
    exact .cons rfl (by decide) (by decide)
  · rw [if_neg h0]
    -- a zone other than UTC starts with its sign
    by_cases hpos : 0 < m
    · rw [if_pos hpos]
      exact .cons rfl (by decide) (by decide)
    · rw [if_neg hpos]
      exact .cons rfl (by decide) (by decide)

/-- The zeros at the end of a text, and what is left of it. -/
theorem rdropWhile_append_zeros (cs : List Char) :
    ∃ k, cs.rdropWhile (· == '0') ++ List.replicate k '0' = cs := by
  have hzeros : cs.rtakeWhile (· == '0') =
      List.replicate (cs.rtakeWhile (· == '0')).length '0' := by
    refine List.eq_replicate_iff.mpr ⟨rfl, fun c hc => ?_⟩
    have hzero := List.mem_rtakeWhile_imp hc
    exact eq_of_beq hzero
  refine ⟨(cs.rtakeWhile (· == '0')).length, ?_⟩
  rw [← hzeros]
  exact List.rdropWhile_append_rtakeWhile

/-- The leading digits of a padded numeral. -/
theorem ofDigitChars_take_padChars {w n : ℕ} (p : ℕ) (hw : 0 < w) (hn : n < 10 ^ w) :
    Nat.ofDigitChars 10 ((padChars w n).take p) 0 = n / 10 ^ (w - p) := by
  have hval : Nat.ofDigitChars 10 (padChars w n) 0 = n := ofDigitChars_padChars w n
  have hlen : ((padChars w n).drop p).length = w - p := by
    rw [List.length_drop, length_padChars hw hn]
  have hrest : Nat.ofDigitChars 10 ((padChars w n).drop p) 0 < 10 ^ (w - p) := by
    rw [← hlen]
    exact ofDigitChars_lt fun c hc =>
      List.all_eq_true.mp (padChars_all_isDigit w n) c (List.mem_of_mem_drop hc)
  rw [← List.take_append_drop p (padChars w n), Nat.ofDigitChars_append,
    Nat.ofDigitChars_eq_ofDigitChars_zero, hlen] at hval
  calc Nat.ofDigitChars 10 ((padChars w n).take p) 0
      = (10 ^ (w - p) * Nat.ofDigitChars 10 ((padChars w n).take p) 0 +
          Nat.ofDigitChars 10 ((padChars w n).drop p) 0) / 10 ^ (w - p) := by
        rw [Nat.mul_add_div (Nat.pow_pos (by decide)), Nat.div_eq_of_lt hrest, Nat.add_zero]
    _ = n / 10 ^ (w - p) := by rw [hval]

/-- **Reading back a fraction without its zeros**, in units of `10 ^ -p`. -/
theorem readFraction_nanoFraction (x : TimeSyntax) {p nano : ℕ} (hp : p ≤ 9) (hn : nano < 10 ^ 9)
    {cs : List Char} (hcs : EndsFraction cs) :
    readFraction x p (nanoFraction nano ++ cs) = (nano / 10 ^ (9 - p), cs) := by
  unfold nanoFraction
  by_cases h0 : nano = 0
  · rw [if_pos h0, h0, List.nil_append, readFraction_of_ends x hcs, Nat.zero_div]
  · rw [if_neg h0, List.cons_append]
    obtain ⟨k, hk⟩ := rdropWhile_append_zeros (padChars 9 nano)
    generalize hds : (padChars 9 nano).rdropWhile (· == '0') = ds at hk
    have hall : ∀ c ∈ ds, c.isDigit = true := by
      intro c hc
      refine List.all_eq_true.mp (padChars_all_isDigit 9 nano) c ?_
      rw [← hk]
      exact List.mem_append_left _ hc
    have hlen : ds.length + k = 9 := by
      have h := congrArg List.length hk
      rwa [List.length_append, List.length_replicate, length_padChars (by decide) hn] at h
    -- nothing but zeros would mean that there is no fraction
    have hne : ds ≠ [] := by
      rintro rfl
      have hval := ofDigitChars_padChars 9 nano
      rw [← hk, List.nil_append, Nat.ofDigitChars_replicate_zero, Nat.mul_zero] at hval
      exact h0 hval.symm
    -- the digits that are kept, and the zeros up to the precision
    have htake : ds.take p ++ List.replicate (p - (ds.take p).length) '0' =
        (padChars 9 nano).take p := by
      rw [← hk, List.take_append, List.take_replicate, List.length_take]
      congr 2
      omega
    obtain ⟨htakeWhile, hdropWhile⟩ := span_append hall hcs.endsDigits
    have hvalue := ofDigitChars_take_padChars p (by decide) hn
    rw [← htake, Nat.ofDigitChars_append, Nat.ofDigitChars_replicate_zero] at hvalue
    have hfraction : x.isPoint '.' = true ∧ ds ≠ [] := ⟨rfl, hne⟩
    simp only [readFraction, htakeWhile, hdropWhile]
    rw [if_pos hfraction, mul_comm, hvalue]

end Framework
