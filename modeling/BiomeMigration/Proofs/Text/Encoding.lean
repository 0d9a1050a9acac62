import BiomeMigration.Text.CodePoint

/-
  The UTF-8 form of a text reads back as the text, and the
  texts that have one are those without surrogates.

  Main declarations:
    * `Utf8.decode_encode`
    * `Text.plain`
    * `Text.IsPlain`
    * `Text.encode_eq_ok_iff`
    * `Text.IsAscii.encode`
-/

------------------------------------------------------------
-- Reading UTF-8
------------------------------------------------------------

namespace BiomeMigration

namespace Utf8

/- A byte is the number that it is made of. -/
theorem toNat_ofNat_of_lt
    {n : Nat}
    (hByte : n < 256) :
    (UInt8.ofNat n).toNat = n := by
  rw [UInt8.toNat_ofNat']
  exact Nat.mod_eq_of_lt hByte

theorem Range.holds_iff
    {low high : UInt8}
    {b : UInt8} :
    Range.holds (low, high) b = true ↔
      low.toNat ≤ b.toNat ∧ b.toNat ≤ high.toNat := by
  unfold Range.holds
  simp [UInt8.le_iff_toNat_le]

/- Any continuation byte holds six bits. -/
theorem tail_holds (n : Nat) :
    tail.holds (UInt8.ofNat (n % 64 + 0x80)) = true := by
  apply Range.holds_iff.mpr
  rw [toNat_ofNat_of_lt (by omega)]
  constructor
  · exact Nat.le_add_left _ _
  · show n % 64 + 0x80 ≤ 0xBF
    omega

/- The numbers of characters leave the surrogates out. -/
theorem toNat_lt_or_ge (c : Char) :
    c.toNat < 0xD800 ∨
      (0xE000 ≤ c.toNat ∧ c.toNat < 0x110000) := by
  rcases c.valid with hLow | ⟨hHigh, hMax⟩
  · exact Or.inl hLow
  · refine Or.inr ⟨?_, hMax⟩
    exact hHigh

------------------------------------------------------------
-- Steps of the Decoder
------------------------------------------------------------

/- A first byte that is a character of its own. -/
theorem decodeFrom_single
    {pos value : Nat}
    {b : UInt8}
    {rest : Bytes}
    (hLead : lead b = some (value, [])) :
    decodeFrom pos none (b :: rest) =
      (decodeFrom (pos + 1) none rest).map
        (Char.ofNat value :: ·) := by
  rw [decodeFrom, hLead]

/- A first byte of several. -/
theorem decodeFrom_first
    {pos value : Nat}
    {b : UInt8}
    {range : Range}
    {owed : List Range}
    {rest : Bytes}
    (hLead : lead b = some (value, range :: owed)) :
    decodeFrom pos none (b :: rest) =
      decodeFrom (pos + 1) (some ⟨b, 1, value, range :: owed⟩)
        rest := by
  rw [decodeFrom, hLead]

/- A byte of a character that owes others. -/
theorem decodeFrom_middle
    {pos taken value : Nat}
    {first b : UInt8}
    {range next : Range}
    {owed : List Range}
    {rest : Bytes}
    (hHolds : range.holds b = true) :
    decodeFrom pos
        (some ⟨first, taken, value, range :: next :: owed⟩)
        (b :: rest) =
      decodeFrom (pos + 1)
        (some ⟨first, taken + 1,
          value * 64 + (b.toNat - 0x80), next :: owed⟩)
        rest := by
  rw [decodeFrom]
  simp only [hHolds, if_pos]
  rfl

/- The last byte of a character. -/
theorem decodeFrom_last
    {pos taken value : Nat}
    {first b : UInt8}
    {range : Range}
    {rest : Bytes}
    (hHolds : range.holds b = true) :
    decodeFrom pos (some ⟨first, taken, value, [range]⟩)
        (b :: rest) =
      (decodeFrom (pos + 1) none rest).map
        (Char.ofNat (value * 64 + (b.toNat - 0x80)) :: ·) := by
  rw [decodeFrom]
  simp only [hHolds, if_pos]
  rfl

/- The first byte of two. -/
theorem lead_two
    {n : Nat}
    (hLow : 2 ≤ n)
    (hHigh : n < 32) :
    lead (UInt8.ofNat (n + 0xC0)) = some (n, [tail]) := by
  unfold lead
  rw [toNat_ofNat_of_lt (by omega)]
  have h₁ : ¬ n + 0xC0 < 0x80 := by omega
  have h₂ : ¬ n + 0xC0 < 0xC2 := by omega
  have h₃ : n + 0xC0 < 0xE0 := by omega
  simp only [if_neg h₁, if_neg h₂, if_pos h₃,
    Nat.add_sub_cancel]

/-
  The first byte of three. The second byte is told apart
  from that of a number too small, or of a surrogate.
-/
theorem lead_three
    {n : Nat}
    (hHigh : n < 16) :
    ∃ low high : UInt8,
      lead (UInt8.ofNat (n + 0xE0)) =
          some (n, [(low, high), tail]) ∧
        low.toNat = (if n = 0 then 0xA0 else 0x80) ∧
        high.toNat = (if n = 0xD then 0x9F else 0xBF) := by
  unfold lead
  rw [toNat_ofNat_of_lt (by omega)]
  have h₁ : ¬ n + 0xE0 < 0x80 := by omega
  have h₂ : ¬ n + 0xE0 < 0xC2 := by omega
  have h₃ : ¬ n + 0xE0 < 0xE0 := by omega
  simp only [if_neg h₁, if_neg h₂, if_neg h₃]
  by_cases hZero : n = 0
  · subst hZero
    exact ⟨0xA0, 0xBF, rfl, rfl, rfl⟩
  · by_cases hThirteen : n = 0xD
    · subst hThirteen
      exact ⟨0x80, 0x9F, rfl, rfl, rfl⟩
    · have h₄ : (n + 0xE0 == 0xE0) = false := by
        simp [hZero]
      have h₅ : (n + 0xE0 == 0xED) = false := by
        simp
        omega
      have h₆ : n + 0xE0 < 0xF0 := by omega
      refine ⟨0x80, 0xBF, ?_, by simp [hZero],
        by simp [hThirteen]⟩
      simp only [h₄, h₅, if_pos h₆, Nat.add_sub_cancel]
      rfl

/-
  The first byte of four. The second byte is told apart
  from that of a number too small, or too large.
-/
theorem lead_four
    {n : Nat}
    (hHigh : n < 5) :
    ∃ low high : UInt8,
      lead (UInt8.ofNat (n + 0xF0)) =
          some (n, [(low, high), tail, tail]) ∧
        low.toNat = (if n = 0 then 0x90 else 0x80) ∧
        high.toNat = (if n = 4 then 0x8F else 0xBF) := by
  have hCases :
      n = 0 ∨ n = 1 ∨ n = 2 ∨ n = 3 ∨ n = 4 := by omega
  rcases hCases with rfl | rfl | rfl | rfl | rfl
  · exact ⟨0x90, 0xBF, rfl, rfl, rfl⟩
  · exact ⟨0x80, 0xBF, rfl, rfl, rfl⟩
  · exact ⟨0x80, 0xBF, rfl, rfl, rfl⟩
  · exact ⟨0x80, 0xBF, rfl, rfl, rfl⟩
  · exact ⟨0x80, 0x8F, rfl, rfl, rfl⟩

------------------------------------------------------------
-- Round Trip
------------------------------------------------------------

/- A character of one byte. -/
theorem decodeFrom_one
    {n : Nat}
    (hHigh : n < 0x80)
    (pos : Nat)
    (rest : Bytes) :
    decodeFrom pos none (UInt8.ofNat n :: rest) =
      (decodeFrom (pos + 1) none rest).map
        (Char.ofNat n :: ·) := by
  have hLead : lead (UInt8.ofNat n) = some (n, []) := by
    unfold lead
    rw [toNat_ofNat_of_lt (by omega)]
    simp only [if_pos hHigh]
  exact decodeFrom_single hLead

/- A character of two bytes. -/
theorem decodeFrom_two
    {n : Nat}
    (hLow : 0x80 ≤ n)
    (hHigh : n < 0x800)
    (pos : Nat)
    (rest : Bytes) :
    decodeFrom pos none
        (UInt8.ofNat (n / 64 + 0xC0) ::
          UInt8.ofNat (n % 64 + 0x80) :: rest) =
      (decodeFrom (pos + 1 + 1) none rest).map
        (Char.ofNat n :: ·) := by
  have hLead :=
    lead_two (show 2 ≤ n / 64 by omega)
      (show n / 64 < 32 by omega)
  have hValue :
      n / 64 * 64 + (n % 64 + 0x80 - 0x80) = n := by
    omega
  rw [decodeFrom_first hLead, decodeFrom_last (tail_holds n),
    toNat_ofNat_of_lt (by omega), hValue]

/- A character of three bytes, which is no surrogate. -/
theorem decodeFrom_three
    {n : Nat}
    (hLow : 0x800 ≤ n)
    (hHigh : n < 0x10000)
    (hOutside : n < 0xD800 ∨ 0xE000 ≤ n)
    (pos : Nat)
    (rest : Bytes) :
    decodeFrom pos none
        (UInt8.ofNat (n / 4096 + 0xE0) ::
          UInt8.ofNat (n / 64 % 64 + 0x80) ::
            UInt8.ofNat (n % 64 + 0x80) :: rest) =
      (decodeFrom (pos + 1 + 1 + 1) none rest).map
        (Char.ofNat n :: ·) := by
  rcases lead_three (show n / 4096 < 16 by omega) with
    ⟨low, high, hLead, hLowest, hHighest⟩
  have hSecond :
      Range.holds (low, high)
        (UInt8.ofNat (n / 64 % 64 + 0x80)) = true := by
    apply Range.holds_iff.mpr
    rw [toNat_ofNat_of_lt (by omega), hLowest, hHighest]
    constructor
    · split <;> omega
    · split <;> omega
  have hValue :
      (n / 4096 * 64 + (n / 64 % 64 + 0x80 - 0x80)) * 64 +
          (n % 64 + 0x80 - 0x80) = n := by
    omega
  rw [decodeFrom_first hLead, decodeFrom_middle hSecond,
    decodeFrom_last (tail_holds n),
    toNat_ofNat_of_lt (by omega),
    toNat_ofNat_of_lt (by omega), hValue]

/- A character of four bytes. -/
theorem decodeFrom_four
    {n : Nat}
    (hLow : 0x10000 ≤ n)
    (hHigh : n < 0x110000)
    (pos : Nat)
    (rest : Bytes) :
    decodeFrom pos none
        (UInt8.ofNat (n / 262144 + 0xF0) ::
          UInt8.ofNat (n / 4096 % 64 + 0x80) ::
            UInt8.ofNat (n / 64 % 64 + 0x80) ::
              UInt8.ofNat (n % 64 + 0x80) :: rest) =
      (decodeFrom (pos + 1 + 1 + 1 + 1) none rest).map
        (Char.ofNat n :: ·) := by
  rcases lead_four (show n / 262144 < 5 by omega) with
    ⟨low, high, hLead, hLowest, hHighest⟩
  have hSecond :
      Range.holds (low, high)
        (UInt8.ofNat (n / 4096 % 64 + 0x80)) = true := by
    apply Range.holds_iff.mpr
    rw [toNat_ofNat_of_lt (by omega), hLowest, hHighest]
    constructor
    · split <;> omega
    · split <;> omega
  have hValue :
      ((n / 262144 * 64 +
              (n / 4096 % 64 + 0x80 - 0x80)) * 64 +
            (n / 64 % 64 + 0x80 - 0x80)) * 64 +
          (n % 64 + 0x80 - 0x80) = n := by
    omega
  rw [decodeFrom_first hLead, decodeFrom_middle hSecond,
    decodeFrom_middle (tail_holds (n / 64)),
    decodeFrom_last (tail_holds n),
    toNat_ofNat_of_lt (by omega),
    toNat_ofNat_of_lt (by omega),
    toNat_ofNat_of_lt (by omega), hValue]

/- The bytes of a character read back as the character. -/
theorem decodeFrom_encodeChar
    (c : Char)
    (rest : Bytes)
    (pos : Nat) :
    ∃ pos',
      decodeFrom pos none (String.utf8EncodeChar c ++ rest) =
        (decodeFrom pos' none rest).map (c :: ·) := by
  have hRange := toNat_lt_or_ge c
  have hSame : Char.ofNat c.toNat = c := Char.ofNat_toNat c
  have hNat : c.val.toNat = c.toNat := rfl
  unfold String.utf8EncodeChar
  simp only [hNat]
  generalize hn : c.toNat = n at *
  rw [← hSame]
  split
  · next hOne =>
      exact ⟨_, decodeFrom_one (by omega) pos rest⟩
  · split
    · next hMany hTwo =>
        have hMod : n / 64 % 32 = n / 64 := by omega
        rw [hMod]
        exact ⟨_, decodeFrom_two (by omega) (by omega) pos rest⟩
    · split
      · next hMany hMore hThree =>
          have hMod : n / 4096 % 16 = n / 4096 := by omega
          rw [hMod]
          exact ⟨_, decodeFrom_three (by omega) (by omega)
            (by omega) pos rest⟩
      · next hMany hMore hMost =>
          have hMod : n / 262144 % 8 = n / 262144 := by omega
          rw [hMod]
          exact ⟨_, decodeFrom_four (by omega) (by omega)
            pos rest⟩

/- The bytes of a text read back as the text. -/
theorem decode_encode (cs : List Char) :
    decode (encode cs) = .ok cs := by
  unfold decode
  generalize hPos : 0 = pos
  clear hPos
  induction cs generalizing pos with
  | nil => rfl
  | cons c cs ih =>
      have hSplit :
          encode (c :: cs) =
            String.utf8EncodeChar c ++ encode cs := rfl
      rcases decodeFrom_encodeChar c (encode cs) pos with
        ⟨pos', hStep⟩
      rw [hSplit, hStep, ih pos']
      rfl

end Utf8

------------------------------------------------------------
-- Texts without Surrogates
------------------------------------------------------------

namespace Text

/- The characters of a text; surrogates are left out. -/
def plain (t : Text) : List Char :=
  t.filterMap CodePoint.char?

/- A text has no surrogates. -/
def IsPlain (t : Text) : Prop :=
  ∀ p ∈ t, ∃ c, p = .scalar c

@[simp] theorem plain_nil : plain [] = [] :=
  rfl

@[simp] theorem plain_cons
    (c : Char)
    (t : Text) :
    plain (.scalar c :: t) = c :: plain t :=
  rfl

@[simp] theorem plain_append (t u : Text) :
    plain (t ++ u) = plain t ++ plain u :=
  List.filterMap_append

@[simp] theorem plain_ofChars (cs : List Char) :
    plain (ofChars cs) = cs := by
  induction cs with
  | nil => rfl
  | cons c cs ih => exact congrArg (c :: ·) ih

@[simp] theorem plain_ofString (s : String) :
    plain (ofString s) = s.toList :=
  plain_ofChars s.toList

theorem isPlain_append_iff
    {t u : Text} :
    IsPlain (t ++ u) ↔ IsPlain t ∧ IsPlain u := by
  unfold IsPlain
  simp only [List.mem_append, or_imp, forall_and]

theorem isPlain_cons_iff
    {p : CodePoint}
    {t : Text} :
    IsPlain (p :: t) ↔ (∃ c, p = .scalar c) ∧ IsPlain t := by
  unfold IsPlain
  simp

theorem isPlain_ofChars (cs : List Char) :
    (ofChars cs).IsPlain := by
  intro p hp
  rcases List.mem_map.mp hp with ⟨c, _, rfl⟩
  exact ⟨c, rfl⟩

/- A plain text is the text of its characters. -/
theorem IsPlain.ofChars_plain
    {t : Text}
    (hPlain : t.IsPlain) :
    ofChars t.plain = t := by
  induction t with
  | nil => rfl
  | cons p t ih =>
      rcases isPlain_cons_iff.mp hPlain with ⟨⟨c, rfl⟩, hRest⟩
      exact congrArg (CodePoint.scalar c :: ·) (ih hRest)

/- A text that is all characters is that of the characters. -/
theorem eq_ofChars
    {t : Text}
    {cs : List Char}
    (hChars : t.chars? = some cs) :
    t = ofChars cs := by
  induction t generalizing cs with
  | nil =>
      cases hChars
      rfl
  | cons p t ih =>
      unfold chars? at hChars ih
      rw [List.mapM_cons] at hChars
      cases p with
      | surrogate i => cases hChars
      | scalar c =>
          cases hMore : t.mapM CodePoint.char? with
          | none =>
              rw [hMore] at hChars
              cases hChars
          | some more =>
              rw [hMore] at hChars
              cases hChars
              rw [ih hMore]
              rfl

/- The plain texts are those that can be encoded. -/
theorem encode_eq_ok_iff
    {t : Text}
    {bytes : Bytes} :
    t.encode = .ok bytes ↔
      t.IsPlain ∧ bytes = Utf8.encode t.plain := by
  unfold encode
  generalize hPos : 0 = pos
  clear hPos
  induction t generalizing pos bytes with
  | nil =>
      simp only [encodeFrom, Except.ok.injEq]
      constructor
      · rintro rfl
        exact ⟨by simp [IsPlain], rfl⟩
      · rintro ⟨_, rfl⟩
        rfl
  | cons p t ih =>
      cases p with
      | surrogate i =>
          simp only [encodeFrom, reduceCtorEq, false_iff]
          rintro ⟨hPlain, _⟩
          rcases (isPlain_cons_iff.mp hPlain).1 with ⟨c, hc⟩
          simp at hc
      | scalar c =>
          have hSplit :
              Utf8.encode (c :: plain t) =
                String.utf8EncodeChar c ++
                  Utf8.encode (plain t) := rfl
          rw [encodeFrom, isPlain_cons_iff, plain_cons, hSplit]
          cases hRest : encodeFrom _ (pos + 1) t with
          | error fault =>
              simp only [Except.map, reduceCtorEq, false_iff]
              rintro ⟨⟨_, hPlain⟩, _⟩
              have hOk := (ih (pos + 1)).mpr ⟨hPlain, rfl⟩
              rw [hRest] at hOk
              simp at hOk
          | ok more =>
              rcases (ih (pos + 1)).mp hRest with
                ⟨hPlain, rfl⟩
              simp only [Except.map, Except.ok.injEq]
              constructor
              · rintro rfl
                exact ⟨⟨⟨c, rfl⟩, hPlain⟩, rfl⟩
              · rintro ⟨_, rfl⟩
                rfl

------------------------------------------------------------
-- ASCII
------------------------------------------------------------

/- All code points of a text are ASCII. -/
def IsAscii (t : Text) : Prop :=
  ∀ p ∈ t, p.toNat < 0x80

variable {t : Text}

theorem IsAscii.isPlain
    (hAscii : t.IsAscii) :
    t.IsPlain := by
  intro p hp
  cases p with
  | scalar c => exact ⟨c, rfl⟩
  | surrogate i =>
      have hSmall := hAscii _ hp
      simp only [CodePoint.toNat] at hSmall
      omega

theorem utf8EncodeChar_ascii
    {c : Char}
    (hAscii : c.toNat < 0x80) :
    String.utf8EncodeChar c = [UInt8.ofNat c.toNat] := by
  have hSmall : c.val.toNat ≤ 0x7F := Nat.le_of_lt_succ hAscii
  unfold String.utf8EncodeChar
  simp only [hSmall, if_true]
  rfl

/- Each byte of an ASCII text is a character. -/
theorem IsAscii.encode
    (hAscii : t.IsAscii) :
    ∃ bytes, t.encode = .ok bytes ∧ ∀ b ∈ bytes, b < 0x80 := by
  refine ⟨_, encode_eq_ok_iff.mpr ⟨hAscii.isPlain, rfl⟩, ?_⟩
  intro b hb
  rcases List.mem_flatMap.mp hb with ⟨c, hc, hb⟩
  rcases List.mem_filterMap.mp hc with ⟨p, hp, hChar⟩
  cases p with
  | surrogate i => cases hChar
  | scalar d =>
      rcases Option.some.inj hChar with rfl
      have hSmall : d.toNat < 0x80 := hAscii _ hp
      rw [utf8EncodeChar_ascii hSmall, List.mem_singleton] at hb
      rw [hb, UInt8.lt_iff_toNat_lt,
        Utf8.toNat_ofNat_of_lt (by omega)]
      exact hSmall

end Text

end BiomeMigration
