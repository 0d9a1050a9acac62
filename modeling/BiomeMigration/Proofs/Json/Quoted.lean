import BiomeMigration.Json.Printer
import BiomeMigration.Json.Token
import BiomeMigration.Proofs.Text.Encoding

/-
  Strings read back as they are quoted: each code point of a
  plain text is read from its quoted form, whether that is
  the character, an escape of one letter, or the escapes of
  its code units.

  Main declarations:
    * `Json.hexQuad?_hex4`
    * `Json.writes_quotePoint`
    * `Json.stringFrom_quoted`
-/

------------------------------------------------------------
-- Hexadecimal Digits
------------------------------------------------------------

namespace BiomeMigration

namespace Json

theorem hexDigit?_digitChar :
    ∀ n < 16, hexDigit? (Nat.digitChar n) = some n := by
  decide

/- Four hexadecimal digits are read as the number. -/
theorem hexQuad?_hex4
    {n : Nat}
    (hUnit : n < 0x10000)
    (rest : List Char) :
    hexQuad? ((Text.hex4 n).toList ++ rest) = some n := by
  have hDigit :
      ∀ m, hexDigit? (Nat.digitChar (m % 16)) =
        some (m % 16) :=
    fun m => hexDigit?_digitChar (m % 16)
      (Nat.mod_lt m (by decide))
  unfold Text.hex4
  rw [String.toList_ofList]
  simp only [List.cons_append, List.nil_append, hexQuad?,
    hDigit, Option.bind_eq_bind, Option.bind_some,
    Option.pure_def, Option.some.injEq]
  omega

theorem length_hex4 (n : Nat) :
    (Text.hex4 n).toList.length = 4 := by
  simp [Text.hex4]

theorem drop_hex4
    (n : Nat)
    (rest : List Char) :
    ((Text.hex4 n).toList ++ rest).drop 4 = rest := by
  rw [← length_hex4 n, List.drop_left]

------------------------------------------------------------
-- Escapes
------------------------------------------------------------

theorem ofNat_toNat (c : Char) :
    CodePoint.ofNat c.toNat = .scalar c := by
  have hRange := Utf8.toNat_lt_or_ge c
  unfold CodePoint.ofNat
  rw [dif_neg (by omega), Char.ofNat_toNat]

/- A unit that starts no surrogate pair stands for itself. -/
theorem unicodeEscape_unit
    {c : Char}
    (hUnit : c.toNat < 0x10000)
    (pos : Nat)
    {rest : List Char}
    (hRest : rest ≠ []) :
    unicodeEscape pos ((Text.hex4 c.toNat).toList ++ rest) =
      .ok (.scalar c, 5) := by
  have hRange := Utf8.toNat_lt_or_ge c
  have hHigh : isHigh c.toNat = false := by
    unfold isHigh
    rw [Bool.and_eq_false_iff]
    simp only [decide_eq_false_iff_not]
    omega
  unfold unicodeEscape
  rw [hexQuad?_hex4 hUnit, drop_hex4]
  cases rest with
  | nil => exact (hRest rfl).elim
  | cons d rest =>
      simp only [ofNat_toNat, hHigh, Bool.false_and,
        Bool.false_eq_true, if_false]
      split
      · rfl
      · rfl

/- The code units of a surrogate pair. -/
theorem isHigh_of_lt
    {offset : Nat}
    (hOffset : offset < 0x100000) :
    isHigh (0xD800 + offset / 0x400) = true := by
  unfold isHigh
  rw [Bool.and_eq_true]
  simp only [decide_eq_true_eq]
  omega

theorem isLow_of_mod (offset : Nat) :
    isLow (0xDC00 + offset % 0x400) = true := by
  unfold isLow
  rw [Bool.and_eq_true]
  simp only [decide_eq_true_eq]
  omega

theorem joinPair_split
    {c : Char}
    {offset : Nat}
    (hOffset : c.toNat = 0x10000 + offset) :
    joinPair (0xD800 + offset / 0x400)
        (0xDC00 + offset % 0x400) =
      .scalar c := by
  have hSum :
      0x10000 + (0xD800 + offset / 0x400 - 0xD800) * 0x400 +
          (0xDC00 + offset % 0x400 - 0xDC00) =
        c.toNat := by
    omega
  unfold joinPair
  rw [hSum]
  exact ofNat_toNat c

/- A surrogate pair stands for its character. -/
theorem unicodeEscape_pair
    {high low : Nat}
    {c : Char}
    (hHigh : isHigh high = true)
    (hLow : isLow low = true)
    (hJoined : joinPair high low = .scalar c)
    (pos : Nat)
    {rest : List Char}
    (hRest : rest ≠ []) :
    unicodeEscape pos
        ((Text.hex4 high).toList ++
          '\\' :: 'u' :: ((Text.hex4 low).toList ++ rest)) =
      .ok (.scalar c, 11) := by
  have hHighUnit : high < 0x10000 := by
    unfold isHigh at hHigh
    simp at hHigh
    omega
  have hLowUnit : low < 0x10000 := by
    unfold isLow at hLow
    simp at hLow
    omega
  have hMore : rest.isEmpty = false := by
    cases rest with
    | nil => exact (hRest rfl).elim
    | cons d rest => rfl
  unfold unicodeEscape
  rw [hexQuad?_hex4 hHighUnit, drop_hex4]
  simp only [hHigh, drop_hex4, hMore, Bool.not_false,
    Bool.and_self, if_true, hexQuad?_hex4 hLowUnit, hLow,
    hJoined]

theorem shortEscape?_shortEscapeOf?
    {c letter : Char}
    (hLetter : shortEscapeOf? c = some letter) :
    shortEscape? letter = some c := by
  unfold shortEscapeOf? at hLetter
  split at hLetter
  case h_8 => simp at hLetter
  all_goals
    rw [← Option.some.inj hLetter]
    rfl

/- What needs no escape is no sign of a string. -/
theorem ne_of_shortEscapeOf?
    {c : Char}
    (hNone : shortEscapeOf? c = none) :
    c ≠ '"' ∧ c ≠ '\\' := by
  constructor
  · rintro rfl
    simp [shortEscapeOf?] at hNone
  · rintro rfl
    simp [shortEscapeOf?] at hNone

------------------------------------------------------------
-- Quoted Text
------------------------------------------------------------

variable {start pos : Nat}

/- A result with more text in front. -/
def prepend
    (point : List CodePoint)
    (n : Nat)
    (result : Except Fault (Text × Nat)) :
    Except Fault (Text × Nat) :=
  result.map fun (t, m) => (point ++ t, m + n)

@[simp] theorem prepend_nil_zero
    (result : Except Fault (Text × Nat)) :
    prepend [] 0 result = result := by
  cases result with
  | error fault => rfl
  | ok parts => rfl

@[simp] theorem prepend_prepend
    (p q : List CodePoint)
    (n m : Nat)
    (result : Except Fault (Text × Nat)) :
    prepend p n (prepend q m result) =
      prepend (p ++ q) (m + n) result := by
  cases result with
  | error fault => rfl
  | ok parts =>
      simp [prepend, Except.map, Nat.add_assoc]

/- Characters of an escape that has been read. -/
theorem stringFrom_skip
    (part rest : List Char) :
    stringFrom start pos part.length (part ++ rest) =
      prepend [] part.length
        (stringFrom start (pos + part.length) 0 rest) := by
  induction part generalizing pos with
  | nil => rw [List.length_nil, prepend_nil_zero]; rfl
  | cons c part ih =>
      have hStep :
          stringFrom start pos (part.length + 1)
              (c :: (part ++ rest)) =
            prepend [] 1
              (stringFrom start (pos + 1) part.length
                (part ++ rest)) := by
        rw [stringFrom.eq_def]
        rfl
      rw [List.length_cons, List.cons_append, hStep, ih,
        prepend_prepend]
      congr 2
      omega

/-
  In front of more text of a string, some characters are
  read as a code point.
-/
def Writes
    (part : List Char)
    (c : Char) : Prop :=
  ∀ start pos rest,
    rest ≠ [] →
      stringFrom start pos 0 (part ++ rest) =
        prepend [.scalar c] part.length
          (stringFrom start (pos + part.length) 0 rest)

/- A character that stands for itself. -/
theorem writes_raw
    {c : Char}
    (hNone : shortEscapeOf? c = none)
    (hPrintable : 0x20 ≤ c.toNat) :
    Writes [c] c := by
  intro start pos rest _
  rcases ne_of_shortEscapeOf? hNone with ⟨hQuote, hSlash⟩
  have hControl : ¬ c.toNat < 0x20 := by omega
  rw [List.cons_append, List.nil_append, stringFrom.eq_def]
  simp only [beq_iff_eq, hQuote, hSlash, hControl, if_false]
  rfl

/- An escape of one letter. -/
theorem writes_letter
    {c letter : Char}
    (hLetter : shortEscape? letter = some c) :
    Writes ['\\', letter] c := by
  intro start pos rest _
  have hStep :
      stringFrom start pos 0 ('\\' :: letter :: rest) =
        prepend [.scalar c] 1
          (stringFrom start (pos + 1) [letter].length
            ([letter] ++ rest)) := by
    rw [stringFrom.eq_def]
    simp only [hLetter]
    rfl
  rw [List.cons_append, List.cons_append, List.nil_append,
    hStep, stringFrom_skip, prepend_prepend]
  rfl

/- The escape of a code unit, or of two. -/
theorem writes_escape
    {c : Char}
    {part : List Char}
    (hEscape :
      ∀ pos rest,
        rest ≠ [] →
          unicodeEscape pos (part ++ rest) =
            .ok (.scalar c, part.length + 1)) :
    Writes ('\\' :: 'u' :: part) c := by
  intro start pos rest hRest
  have hStep :
      stringFrom start pos 0
          ('\\' :: 'u' :: (part ++ rest)) =
        prepend [.scalar c] 1
          (stringFrom start (pos + 1) ('u' :: part).length
            (('u' :: part) ++ rest)) := by
    rw [stringFrom.eq_def]
    have hNone : shortEscape? 'u' = none := rfl
    simp only [hNone, hEscape (pos + 1) rest hRest]
    rfl
  rw [List.cons_append, List.cons_append, hStep,
    stringFrom_skip, prepend_prepend]
  congr 2
  simp only [List.length_cons]
  omega

theorem writes_unit
    {c : Char}
    (hUnit : c.toNat < 0x10000) :
    Writes (unitEscape c.toNat) c := by
  unfold unitEscape
  apply writes_escape
  intro pos rest hRest
  rw [length_hex4]
  exact unicodeEscape_unit hUnit pos hRest

theorem writes_pair
    {high low : Nat}
    {c : Char}
    (hHigh : isHigh high = true)
    (hLow : isLow low = true)
    (hJoined : joinPair high low = .scalar c) :
    Writes (unitEscape high ++ unitEscape low) c := by
  have hParts :
      unitEscape high ++ unitEscape low =
        '\\' :: 'u' ::
          ((Text.hex4 high).toList ++ unitEscape low) := rfl
  have hLength :
      ((Text.hex4 high).toList ++ unitEscape low).length + 1 =
        11 := by
    simp [unitEscape, length_hex4]
  rw [hParts]
  apply writes_escape
  intro pos rest hRest
  rw [List.append_assoc, hLength]
  exact unicodeEscape_pair hHigh hLow hJoined pos hRest

theorem pointEscape_of_lt
    {p : CodePoint}
    (hUnit : p.toNat < 0x10000) :
    pointEscape p = unitEscape p.toNat :=
  if_pos hUnit

theorem pointEscape_of_not_lt
    {p : CodePoint}
    (hPair : ¬ p.toNat < 0x10000) :
    pointEscape p =
      unitEscape (0xD800 + (p.toNat - 0x10000) / 0x400) ++
        unitEscape (0xDC00 + (p.toNat - 0x10000) % 0x400) :=
  if_neg hPair

/- The escapes of the code units of a character. -/
theorem writes_pointEscape (c : Char) :
    Writes (pointEscape (.scalar c)) c := by
  have hNumber : (CodePoint.scalar c).toNat = c.toNat := rfl
  by_cases hUnit : (CodePoint.scalar c).toNat < 0x10000
  · rw [pointEscape_of_lt hUnit, hNumber]
    exact writes_unit hUnit
  · have hRange := Utf8.toNat_lt_or_ge c
    rw [pointEscape_of_not_lt hUnit]
    rw [hNumber] at hUnit ⊢
    apply writes_pair
    · exact isHigh_of_lt (by omega)
    · exact isLow_of_mod _
    · exact joinPair_split (by omega)

/- A quoted character is read as the character. -/
theorem writes_quotePoint
    (charset : Charset)
    (c : Char) :
    Writes (quotePoint charset (.scalar c)).plain c := by
  unfold quotePoint
  simp only [CodePoint.char?, Option.bind_some]
  cases hLetter : shortEscapeOf? c with
  | some letter =>
      simp only [Text.plain_ofChars]
      exact writes_letter (shortEscape?_shortEscapeOf? hLetter)
  | none =>
      cases hAllows : charset.allows (.scalar c) with
      | true =>
          have hPrintable : 0x20 ≤ c.toNat := by
            cases charset with
            | plain => exact of_decide_eq_true hAllows
            | ascii =>
                unfold Charset.allows at hAllows
                rw [Bool.and_eq_true] at hAllows
                exact of_decide_eq_true hAllows.1
          exact writes_raw hLetter hPrintable
      | false =>
          simp only [Bool.false_eq_true, if_false,
            Text.plain_ofChars]
          exact writes_pointEscape c

/- A quoted text is read up to its closing quote. -/
theorem stringFrom_quoted
    (charset : Charset)
    (cs : List Char)
    (start pos : Nat)
    (rest : List Char) :
    stringFrom start pos 0
        (Text.plain
            ((Text.ofChars cs).flatMap (quotePoint charset)) ++
          '"' :: rest) =
      .ok (Text.ofChars cs,
        (Text.plain
          ((Text.ofChars cs).flatMap
            (quotePoint charset))).length + 1) := by
  induction cs generalizing pos with
  | nil =>
      rw [stringFrom.eq_def]
      rfl
  | cons c cs ih =>
      have hSplit :
          Text.plain
              ((Text.ofChars (c :: cs)).flatMap
                (quotePoint charset)) =
            (quotePoint charset (.scalar c)).plain ++
              Text.plain
                ((Text.ofChars cs).flatMap
                  (quotePoint charset)) := by
        rw [← Text.plain_append]
        rfl
      rw [hSplit, List.append_assoc,
        writes_quotePoint charset c start pos _ (by simp), ih]
      simp only [prepend, Except.map, Except.ok.injEq,
        Prod.mk.injEq, List.length_append]
      refine ⟨rfl, ?_⟩
      omega

end Json

end BiomeMigration
