import TaxlienGateway.Framework.Json

/-!
# Reading back what the JSON printer wrote

`Json.parse_render`: for every way of escaping characters that the reader understands (`Escapes`),
parsing the compact text of a value gives the value. The number literals, the strings and the
three nested syntactic categories are treated in turn; in each statement the text is followed by an
arbitrary rest, which the reader must leave untouched.

The fuel is bounded by the length of the text: every nested call is made on a text that is shorter
by at least the bracket, comma or quote just read.
-/

namespace Framework

/-! ### Number literals -/

/-- A literal starts with a digit or a minus sign. -/
theorem Numeral.head_of_valid {c : Char} {cs : List Char} (h : isNumeral (c :: cs) = true) :
    c.isDigit = true ∨ c = '-' := by
  by_cases hc : c = '-'
  · exact .inr hc
  · refine .inl ?_
    by_contra hd
    have hu : isUnsigned (c :: cs) = true := by
      unfold isNumeral at h
      split at h
      · next heq => exact absurd (List.cons.inj heq).1 hc
      · exact h
    rw [isUnsigned, List.takeWhile_cons_of_neg (by simpa using hd)] at hu
    simp [isIntegerPart] at hu

theorem isExponentDigits_isNumChar {cs : List Char} (h : isExponentDigits cs = true) :
    ∀ c ∈ cs, Json.isNumChar c = true := by
  have digits : ∀ {ds : List Char}, (ds != [] && ds.all Char.isDigit) = true →
      ∀ c ∈ ds, Json.isNumChar c = true := by
    intro ds hds c hc
    have hall := List.all_eq_true.mp (Bool.and_eq_true_iff.mp hds).2 c hc
    simp [Json.isNumChar, hall]
  intro c hc
  unfold isExponentDigits at h
  split at h
  · rcases List.mem_cons.mp hc with rfl | hc
    · rfl
    · exact digits h c hc
  · rcases List.mem_cons.mp hc with rfl | hc
    · rfl
    · exact digits h c hc
  · exact digits h c hc

theorem isExponent_isNumChar {cs : List Char} (h : isExponent cs = true) :
    ∀ c ∈ cs, Json.isNumChar c = true := by
  intro c hc
  cases cs with
  | nil => exact absurd hc (by simp)
  | cons e ds =>
    obtain ⟨he, hds⟩ := Bool.and_eq_true_iff.mp h
    rcases List.mem_cons.mp hc with rfl | hc
    · rcases Bool.or_eq_true_iff.mp he with he | he <;> simp [Json.isNumChar, eq_of_beq he]
    · exact isExponentDigits_isNumChar hds c hc

/-- Splitting a text into its leading digits and the rest. -/
theorem isNumChar_of_digits {cs : List Char}
    (h : ∀ c ∈ cs.dropWhile Char.isDigit, Json.isNumChar c = true) :
    ∀ c ∈ cs, Json.isNumChar c = true := by
  intro c hc
  rw [← List.takeWhile_append_dropWhile (p := Char.isDigit) (l := cs)] at hc
  rcases List.mem_append.mp hc with hc | hc
  · simp [Json.isNumChar, List.mem_takeWhile_imp hc]
  · exact h c hc

theorem isFraction_isNumChar {cs : List Char} (h : isFraction cs = true) :
    ∀ c ∈ cs, Json.isNumChar c = true := by
  unfold isFraction at h
  split at h
  · intro c hc
    rcases List.mem_cons.mp hc with rfl | hc
    · rfl
    · exact isNumChar_of_digits (isExponent_isNumChar (Bool.and_eq_true_iff.mp h).2) c hc
  · exact isExponent_isNumChar h

/-- A literal consists of number characters. -/
theorem isNumeral_isNumChar {cs : List Char} (h : isNumeral cs = true) :
    ∀ c ∈ cs, Json.isNumChar c = true := by
  have unsigned : ∀ {ds : List Char}, isUnsigned ds = true → ∀ c ∈ ds, Json.isNumChar c = true :=
    fun hds => isNumChar_of_digits (isFraction_isNumChar (Bool.and_eq_true_iff.mp hds).2)
  unfold isNumeral at h
  split at h
  · intro c hc
    rcases List.mem_cons.mp hc with rfl | hc
    · rfl
    · exact unsigned h c hc
  · exact unsigned h

namespace Json

/-- The text does not go on with a number character. -/
def EndsNumber (cs : List Char) : Prop := ∀ c ∈ cs.head?, isNumChar c = false

theorem EndsNumber.nil : EndsNumber [] := by simp [EndsNumber]

theorem EndsNumber.cons {c : Char} {cs : List Char} (h : isNumChar c = false) :
    EndsNumber (c :: cs) := by simpa [EndsNumber] using h

theorem readNum_append (l : Numeral) {cs : List Char} (hcs : EndsNumber cs) :
    readNum (l.chars ++ cs) = some (num l, cs) := by
  have hall : ∀ c ∈ l.chars, isNumChar c = true := isNumeral_isNumChar l.valid
  obtain ⟨htake, hdrop⟩ := span_append hall hcs
  unfold readNum
  simp only [htake, hdrop, l.valid, ↓reduceDIte]

/-! ### Strings -/

/-- A way of writing the characters of a string that the reader understands. -/
def Escapes (esc : Char → List Char) : Prop :=
  ∀ c cs, readChar (esc c ++ cs) = some (c, cs)

variable {esc : Char → List Char}

/-- No character is written starting with a quote. -/
theorem Escapes.ne_quote (he : Escapes esc) (c : Char) (cs rest : List Char) :
    esc c ++ cs ≠ '"' :: rest := by
  intro h
  have hread := he c cs
  rw [h] at hread
  simp [readChar] at hread

theorem Escapes.length_pos (he : Escapes esc) (c : Char) : 0 < (esc c).length := by
  rw [List.length_pos_iff]
  intro h
  have hread := he c []
  rw [h] at hread
  simp [readChar] at hread

/-- **Reading back a string.** -/
theorem readStr_flatMap (he : Escapes esc) (s cs : List Char) {n : ℕ}
    (hn : (s.flatMap esc ++ ['"']).length ≤ n) :
    readStr n (s.flatMap esc ++ '"' :: cs) = some (s, cs) := by
  induction s generalizing n with
  | nil =>
    obtain ⟨m, rfl⟩ : ∃ m, n = m + 1 := ⟨n - 1, by simp at hn; omega⟩
    rfl
  | cons c s ih =>
    rw [List.flatMap_cons, List.append_assoc, List.length_append] at hn
    have hc := he.length_pos c
    obtain ⟨m, rfl⟩ : ∃ m, n = m + 1 := ⟨n - 1, by omega⟩
    have hrest := ih (n := m) (by omega)
    rw [List.flatMap_cons, List.append_assoc]
    unfold readStr
    split
    · next h => exact absurd h (by omega)
    · -- the closing quote is not read early
      next h => exact absurd h (he.ne_quote c _ _)
    · next heq h =>
      obtain rfl := Nat.succ.inj heq
      simp [he c, hrest]

theorem readStr_renderStr (he : Escapes esc) (s : String) (cs : List Char) {n : ℕ}
    (hn : (renderStr esc s).length ≤ n + 1) :
    readStr n (s.toList.flatMap esc ++ '"' :: cs) = some (s.toList, cs) :=
  readStr_flatMap he _ _ (by simpa [renderStr] using hn)

/-! ### Values -/

theorem skipWs_cons {c : Char} (cs : List Char) (h : isWs c = false) :
    skipWs (c :: cs) = c :: cs := List.dropWhile_cons_of_neg (by simp [h])

@[simp] theorem skipWs_quote (cs : List Char) : skipWs ('"' :: cs) = '"' :: cs := rfl
@[simp] theorem skipWs_comma (cs : List Char) : skipWs (',' :: cs) = ',' :: cs := rfl
@[simp] theorem skipWs_colon (cs : List Char) : skipWs (':' :: cs) = ':' :: cs := rfl
@[simp] theorem skipWs_brace (cs : List Char) : skipWs ('}' :: cs) = '}' :: cs := rfl

/-- The text of a value starts with a character that is no white space and closes nothing. -/
theorem head_renderChars (esc : Char → List Char) (v : Json) :
    ∃ c cs, renderChars esc v = c :: cs ∧ isWs c = false ∧ c ≠ ']' := by
  match v with
  | null => exact ⟨'n', _, rfl, rfl, by decide⟩
  | bool true => exact ⟨'t', _, rfl, rfl, by decide⟩
  | bool false => exact ⟨'f', _, rfl, rfl, by decide⟩
  | str s => exact ⟨'"', _, rfl, rfl, by decide⟩
  | arr [] => exact ⟨'[', _, rfl, rfl, by decide⟩
  | arr (x :: xs) => exact ⟨'[', _, rfl, rfl, by decide⟩
  | obj [] => exact ⟨'{', _, rfl, rfl, by decide⟩
  | obj ((k, v) :: ms) => exact ⟨'{', _, rfl, rfl, by decide⟩
  | num ⟨[], h⟩ => exact absurd h (by decide)
  | num ⟨c :: cs, h⟩ =>
    refine ⟨c, cs, rfl, ?_, ?_⟩
    · rcases Numeral.head_of_valid h with hd | rfl
      · have hne : ∀ w, w.isDigit = false → c ≠ w := by
          rintro w hw rfl
          exact absurd hd (by simp [hw])
        simp [isWs, hne ' ' rfl, hne '\n' rfl, hne '\r' rfl, hne '\t' rfl]
      · rfl
    · rintro rfl
      rcases Numeral.head_of_valid h with hd | hd
      · exact absurd hd (by decide)
      · exact absurd hd (by decide)

theorem length_renderChars_pos (esc : Char → List Char) (v : Json) :
    0 < (renderChars esc v).length := by
  obtain ⟨c, cs, h, -, -⟩ := head_renderChars esc v
  simp [h]

/-- A text that starts like a number is read as a number. -/
theorem readValue_numeral {c : Char} {cs : List Char} (h : c.isDigit = true ∨ c = '-') (n : ℕ) :
    readValue (n + 1) (c :: cs) = readNum (c :: cs) := by
  have hne : ∀ w, (w.isDigit || w == '-') = false → c ≠ w := by
    rintro w hw rfl
    rcases h with h | rfl
    · simp [h] at hw
    · simp at hw
  have hws : isWs c = false := by
    simp [isWs, hne ' ' rfl, hne '\n' rfl, hne '\r' rfl, hne '\t' rfl]
  rw [readValue, skipWs_cons cs hws]
  -- no other kind of value starts with `c`
  split
  · next heq => exact absurd (List.cons.inj heq).1 (hne _ rfl)
  · next heq => exact absurd (List.cons.inj heq).1 (hne _ rfl)
  · next heq => exact absurd (List.cons.inj heq).1 (hne _ rfl)
  · next heq => exact absurd (List.cons.inj heq).1 (hne _ rfl)
  · next heq => exact absurd (List.cons.inj heq).1 (hne _ rfl)
  · next heq => exact absurd (List.cons.inj heq).1 (hne _ rfl)
  · rfl

/-- What follows an element inside an array ends a number. -/
theorem endsNumber_renderElems (esc : Char → List Char) (xs : List Json) (cs : List Char) :
    EndsNumber (renderElems esc xs ++ cs) := by
  cases xs <;> exact EndsNumber.cons rfl

/-- What follows a member inside an object ends a number. -/
theorem endsNumber_renderMembers (esc : Char → List Char) (ms : List (String × Json))
    (cs : List Char) : EndsNumber (renderMembers esc ms ++ cs) := by
  rcases ms with _ | ⟨⟨k, v⟩, ms⟩ <;> exact EndsNumber.cons rfl

mutual

/-- **Reading back a value.** -/
theorem readValue_renderChars (he : Escapes esc) : ∀ (v : Json) (n : ℕ) (cs : List Char),
    (renderChars esc v).length ≤ n → EndsNumber cs →
      readValue n (renderChars esc v ++ cs) = some (v, cs)
  | v, 0, cs, hn, _ => absurd hn (by have := length_renderChars_pos esc v; omega)
  | null, n + 1, cs, _, _ => rfl
  | bool true, n + 1, cs, _, _ => rfl
  | bool false, n + 1, cs, _, _ => rfl
  | num ⟨[], h⟩, n + 1, cs, _, _ => absurd h (by decide)
  | num ⟨c :: ds, h⟩, n + 1, cs, _, hcs => by
    have hread := readNum_append ⟨c :: ds, h⟩ hcs
    exact (readValue_numeral (Numeral.head_of_valid h) n).trans hread
  | str s, n + 1, cs, hn, _ => by
    have hread := readStr_renderStr he s cs (n := n) hn
    rw [renderChars, renderStr, List.cons_append, List.append_assoc, List.singleton_append,
      readValue, skipWs_cons _ rfl]
    simp [hread]
  | arr [], n + 1, cs, _, _ => rfl
  | arr (x :: xs), n + 1, cs, hn, _ => by
    rw [renderChars, List.length_cons] at hn
    have hread := readElems_render he x xs n cs (by omega)
    obtain ⟨c, ds, hx, hws, hclose⟩ := head_renderChars esc x
    rw [renderChars, List.cons_append, readValue, skipWs_cons _ rfl]
    rw [hx] at hread ⊢
    simp only [List.cons_append, List.append_assoc, skipWs_cons _ hws] at hread ⊢
    split
    · -- the first element would have to start with the closing bracket
      next heq => exact absurd (List.cons.inj heq).1 hclose
    · simp [hread]
  | obj [], n + 1, cs, _, _ => rfl
  | obj ((k, v) :: ms), n + 1, cs, hn, _ => by
    rw [renderChars, List.length_cons] at hn
    have hread := readMembers_render he k v ms n cs (by omega)
    rw [renderChars, List.cons_append, readValue, skipWs_cons _ rfl]
    simp only [renderStr, List.cons_append, List.append_assoc, skipWs_quote] at hread ⊢
    simpa using hread

/-- Reading back the elements of an array from the first one on. -/
theorem readElems_render (he : Escapes esc) : ∀ (x : Json) (xs : List Json) (n : ℕ)
    (cs : List Char), (renderChars esc x ++ renderElems esc xs).length ≤ n →
      readElems n (renderChars esc x ++ renderElems esc xs ++ cs) = some (x :: xs, cs)
  | x, xs, 0, cs, hn => absurd hn (by
      have := length_renderChars_pos esc x
      rw [List.length_append]
      omega)
  | x, [], n + 1, cs, hn => by
    rw [List.length_append] at hn
    simp only [renderElems, List.length_singleton] at hn
    have hread := readValue_renderChars he x n (renderElems esc [] ++ cs) (by omega)
      (endsNumber_renderElems esc [] cs)
    rw [List.append_assoc, readElems, hread]
    rfl
  | x, y :: ys, n + 1, cs, hn => by
    rw [List.length_append, renderElems, List.length_cons] at hn
    have hread := readValue_renderChars he x n (renderElems esc (y :: ys) ++ cs) (by omega)
      (endsNumber_renderElems esc (y :: ys) cs)
    have hrest := readElems_render he y ys n cs (by omega)
    rw [List.append_assoc, readElems, hread]
    rw [List.append_assoc] at hrest
    simp [renderElems, hrest]

/-- Reading back the members of an object from the first one on. -/
theorem readMembers_render (he : Escapes esc) : ∀ (k : String) (v : Json)
    (ms : List (String × Json)) (n : ℕ) (cs : List Char),
    (renderStr esc k ++ ':' :: (renderChars esc v ++ renderMembers esc ms)).length ≤ n →
      readMembers n (renderStr esc k ++ ':' :: (renderChars esc v ++ renderMembers esc ms) ++ cs)
        = some ((k, v) :: ms, cs)
  | k, v, ms, 0, cs, hn => absurd hn (by simp [renderStr])
  | k, v, [], n + 1, cs, hn => by
    simp only [List.length_append, List.length_cons] at hn
    have hk := readStr_renderStr he k (':' :: (renderChars esc v ++ ('}' :: cs))) (n := n) (by omega)
    have hv := readValue_renderChars he v n ('}' :: cs) (by omega) (EndsNumber.cons rfl)
    simp [renderStr, renderMembers, readMembers, hk, hv]
  | k, v, (k', v') :: ms, n + 1, cs, hn => by
    simp only [List.length_append, List.length_cons, renderMembers] at hn
    have hrest := readMembers_render he k' v' ms n cs (by
      simp only [List.length_append, List.length_cons]
      omega)
    -- key, colon, value, and then the rest after the comma
    have hk := readStr_renderStr he k
      (':' :: (renderChars esc v ++ (renderMembers esc ((k', v') :: ms) ++ cs))) (n := n) (by omega)
    have hv := readValue_renderChars he v n (renderMembers esc ((k', v') :: ms) ++ cs) (by omega)
      (endsNumber_renderMembers esc _ cs)
    rw [renderStr, List.cons_append, List.append_assoc] at hrest
    simp only [List.append_assoc, List.cons_append, List.nil_append] at hrest
    simp only [renderStr, renderMembers, readMembers, List.append_assoc, List.cons_append,
      List.nil_append, skipWs_quote] at hk hv ⊢
    simp [hk, hv, hrest]

end

/-- White space after a value ends a number. -/
theorem EndsNumber.of_skipWs {ws : List Char} (h : skipWs ws = []) : EndsNumber ws := by
  intro c hc
  have hall := List.dropWhile_eq_nil_iff.mp h c (List.mem_of_mem_head? hc)
  simp only [isWs, Bool.or_eq_true, beq_iff_eq] at hall
  rcases hall with ((rfl | rfl) | rfl) | rfl <;> rfl

/-- **Round trip**, also when white space follows: parsing the compact text of a value gives the
value. -/
theorem parse_render_append (he : Escapes esc) (v : Json) {ws : List Char} (hws : skipWs ws = []) :
    parse (v.render esc ++ String.ofList ws) = some v := by
  have hread := readValue_renderChars he v ((renderChars esc v ++ ws).length + 1) ws
    (by rw [List.length_append]; omega) (.of_skipWs hws)
  unfold parse render parseChars
  rw [String.toList_append, String.toList_ofList, String.toList_ofList, hread]
  exact if_pos hws

/-- **Round trip.** Parsing the compact text of a value gives the value. -/
theorem parse_render (he : Escapes esc) (v : Json) : parse (v.render esc) = some v := by
  have h : parse (v.render esc ++ String.ofList []) = some v := parse_render_append he v rfl
  rwa [String.ofList_nil, String.append_empty] at h

/-! ### Escaping only what must be escaped -/

/-- Quotes, backslashes and control characters are escaped, the five common control characters by
their short forms; everything else is written as it is. -/
def minimalEscape (c : Char) : List Char :=
  if c = '"' then ['\\', '"']
  else if c = '\\' then ['\\', '\\']
  else if c = '\x08' then ['\\', 'b']
  else if c = '\x0c' then ['\\', 'f']
  else if c = '\n' then ['\\', 'n']
  else if c = '\r' then ['\\', 'r']
  else if c = '\t' then ['\\', 't']
  else if c.toNat < 0x20 then
    ['\\', 'u', '0', '0', Nat.digitChar (c.toNat / 16), Nat.digitChar (c.toNat % 16)]
  else [c]

theorem hexVal?_digitChar {d : ℕ} (h : d < 16) : hexVal? (Nat.digitChar d) = some d := by
  have all : ∀ d < 16, hexVal? (Nat.digitChar d) = some d := by decide
  exact all d h

/-- A control character is read back from its four hexadecimal digits. -/
theorem readUnicode_control {c : Char} (h : c.toNat < 0x20) (cs : List Char) :
    readUnicode ('0' :: '0' :: Nat.digitChar (c.toNat / 16) :: Nat.digitChar (c.toNat % 16) :: cs)
      = some (c, cs) := by
  have h0 : hexVal? '0' = some 0 := rfl
  have hhi := hexVal?_digitChar (d := c.toNat / 16) (by omega)
  have hlo := hexVal?_digitChar (d := c.toNat % 16) (by omega)
  have hval : c.toNat / 16 * 16 + c.toNat % 16 = c.toNat := by omega
  have hread : readHex4 ('0' :: '0' :: Nat.digitChar (c.toNat / 16) ::
      Nat.digitChar (c.toNat % 16) :: cs) = some (c.toNat, cs) := by
    simp [readHex4, h0, hhi, hlo, hval]
  -- below `0x20` there are no surrogates
  have hnh : isHighSurrogate c.toNat = false := by
    simp only [isHighSurrogate, Bool.and_eq_false_iff, decide_eq_false_iff_not]
    omega
  have hnl : isLowSurrogate c.toNat = false := by
    simp only [isLowSurrogate, Bool.and_eq_false_iff, decide_eq_false_iff_not]
    omega
  simp [readUnicode, hread, hnh, hnl, Char.ofNat_toNat]

theorem escapes_minimalEscape : Escapes minimalEscape := by
  intro c cs
  unfold minimalEscape
  split_ifs with h1 h2 h3 h4 h5 h6 h7 h8
  · subst h1; rfl
  · subst h2; rfl
  · subst h3; rfl
  · subst h4; rfl
  · subst h5; rfl
  · subst h6; rfl
  · subst h7; rfl
  · exact readUnicode_control h8 cs
  · -- an unescaped character is none of those `readChar` treats specially
    rw [List.singleton_append, readChar.eq_def]
    split
    all_goals first
      | next heq => exact absurd (List.cons.inj heq).1 h2
      | skip
    · next heq =>
      obtain ⟨rfl, rfl⟩ := List.cons.inj heq
      simp [h1, h2, h8]
    · next heq => exact absurd heq (by simp)

/-! ### Escaping what HTML and JavaScript treat specially -/

/-- Also `<`, `>` and `&`, and the two line separators, so that the text can stand inside a script. -/
def htmlEscape (c : Char) : List Char :=
  if c = '<' then ['\\', 'u', '0', '0', '3', 'c']
  else if c = '>' then ['\\', 'u', '0', '0', '3', 'e']
  else if c = '&' then ['\\', 'u', '0', '0', '2', '6']
  else if c = '\u2028' then ['\\', 'u', '2', '0', '2', '8']
  else if c = '\u2029' then ['\\', 'u', '2', '0', '2', '9']
  else minimalEscape c

theorem escapes_htmlEscape : Escapes htmlEscape := by
  intro c cs
  unfold htmlEscape
  split_ifs with h1 h2 h3 h4 h5
  · subst h1; rfl
  · subst h2; rfl
  · subst h3; rfl
  · subst h4; rfl
  · subst h5; rfl
  · exact escapes_minimalEscape c cs

end Json

end Framework
