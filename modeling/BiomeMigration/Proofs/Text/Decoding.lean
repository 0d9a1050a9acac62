import BiomeMigration.Proofs.Text.Encoding

/-
  The decoder of UTF-8 is strict: what it reads is the one
  encoding of the text, so a text that is written back
  unchanged gives the same bytes.

  Main declarations:
    * `Utf8.lead_cases`
    * `Utf8.encode_of_decode`
-/

------------------------------------------------------------
-- First Bytes
------------------------------------------------------------

namespace BiomeMigration

namespace Utf8

variable {b b₁ b₂ b₃ : UInt8} {range : Range}
variable {pos value : Nat} {bytes rest : Bytes}
variable {cs : List Char}

/-
  The second byte of a character of three bytes rules out
  overlong forms and surrogates.
-/
def Second (range : Range) (value : Nat) : Prop :=
  range.1.toNat = (if value = 0 then 0xA0 else 0x80) ∧
    range.2.toNat = if value = 0xD then 0x9F else 0xBF

/-
  The second byte of a character of four bytes rules out
  overlong forms and values that are no characters.
-/
def SecondOfFour (range : Range) (value : Nat) : Prop :=
  range.1.toNat = (if value = 0 then 0x90 else 0x80) ∧
    range.2.toNat = if value = 4 then 0x8F else 0xBF

/- What a first byte asks for. -/
theorem lead_cases
    {owed : List Range}
    (hLead : lead b = some (value, owed)) :
    (b.toNat < 0x80 ∧ value = b.toNat ∧ owed = []) ∨
      (0xC2 ≤ b.toNat ∧ b.toNat < 0xE0 ∧
        value = b.toNat - 0xC0 ∧ owed = [tail]) ∨
      (∃ range,
        0xE0 ≤ b.toNat ∧ b.toNat < 0xF0 ∧
          value = b.toNat - 0xE0 ∧ Second range value ∧
          owed = [range, tail]) ∨
      ∃ range,
        0xF0 ≤ b.toNat ∧ b.toNat < 0xF5 ∧
          value = b.toNat - 0xF0 ∧ SecondOfFour range value ∧
          owed = [range, tail, tail] := by
  unfold lead at hLead
  dsimp only at hLead
  generalize b.toNat = n at hLead ⊢
  split at hLead
  · rcases Prod.mk.inj (Option.some.inj hLead) with ⟨rfl, rfl⟩
    exact Or.inl ⟨by omega, rfl, rfl⟩
  split at hLead
  · cases hLead
  split at hLead
  · rcases Prod.mk.inj (Option.some.inj hLead) with ⟨rfl, rfl⟩
    exact Or.inr (Or.inl ⟨by omega, by omega, rfl, rfl⟩)
  split at hLead
  · next hFirst =>
      rcases Prod.mk.inj (Option.some.inj hLead) with ⟨rfl, rfl⟩
      rw [beq_iff_eq] at hFirst
      exact Or.inr (Or.inr (Or.inl
        ⟨_, by omega, by omega, by omega, ⟨rfl, rfl⟩, rfl⟩))
  split at hLead
  · next hFirst =>
      rcases Prod.mk.inj (Option.some.inj hLead) with ⟨rfl, rfl⟩
      rw [beq_iff_eq] at hFirst
      exact Or.inr (Or.inr (Or.inl
        ⟨_, by omega, by omega, by omega, ⟨rfl, rfl⟩, rfl⟩))
  split at hLead
  · next hLow _ hZero hD hHigh =>
      rcases Prod.mk.inj (Option.some.inj hLead) with ⟨rfl, rfl⟩
      rw [beq_iff_eq] at hZero hD
      have hSecond : Second tail (n - 0xE0) := by
        unfold Second
        rw [if_neg (by omega), if_neg (by omega)]
        exact ⟨rfl, rfl⟩
      exact Or.inr (Or.inr (Or.inl
        ⟨_, by omega, by omega, rfl, hSecond, rfl⟩))
  split at hLead
  · next hFirst =>
      rcases Prod.mk.inj (Option.some.inj hLead) with ⟨rfl, rfl⟩
      rw [beq_iff_eq] at hFirst
      exact Or.inr (Or.inr (Or.inr
        ⟨_, by omega, by omega, by omega, ⟨rfl, rfl⟩, rfl⟩))
  split at hLead
  · next hZero hHigh =>
      rcases Prod.mk.inj (Option.some.inj hLead) with ⟨rfl, rfl⟩
      rw [beq_iff_eq] at hZero
      have hSecond : SecondOfFour tail (n - 0xF0) := by
        unfold SecondOfFour
        rw [if_neg (by omega), if_neg (by omega)]
        exact ⟨rfl, rfl⟩
      exact Or.inr (Or.inr (Or.inr
        ⟨_, by omega, by omega, rfl, hSecond, rfl⟩))
  split at hLead
  · next hFirst =>
      rcases Prod.mk.inj (Option.some.inj hLead) with ⟨rfl, rfl⟩
      rw [beq_iff_eq] at hFirst
      exact Or.inr (Or.inr (Or.inr
        ⟨_, by omega, by omega, by omega, ⟨rfl, rfl⟩, rfl⟩))
  · cases hLead

------------------------------------------------------------
-- Characters from their Bytes
------------------------------------------------------------

theorem ofNat_eq
    (b : UInt8)
    {n : Nat}
    (hByte : n = b.toNat) :
    UInt8.ofNat n = b := by
  rw [hByte]
  exact UInt8.ofNat_toNat

theorem tail_bounds
    (hHolds : tail.holds b = true) :
    0x80 ≤ b.toNat ∧ b.toNat ≤ 0xBF :=
  Range.holds_iff.mp hHolds

theorem toNat_ofNat_valid
    {n : Nat}
    (hValid : n < 0xD800 ∨ (0xE000 ≤ n ∧ n < 0x110000)) :
    (Char.ofNat n).val.toNat = n := by
  have hChar : n.isValidChar := by
    rcases hValid with hLow | ⟨hHigh, hMax⟩
    · exact Or.inl hLow
    · exact Or.inr ⟨by omega, hMax⟩
  rw [Char.ofNat, dif_pos hChar]
  rfl

theorem encodeChar_one
    (hHigh : b.toNat < 0x80) :
    String.utf8EncodeChar (Char.ofNat b.toNat) = [b] := by
  unfold String.utf8EncodeChar
  rw [toNat_ofNat_valid (by omega)]
  simp only
  rw [if_pos (by omega), ofNat_eq b rfl]

theorem encodeChar_two
    (hLow : 0xC2 ≤ b.toNat)
    (hHigh : b.toNat < 0xE0)
    (hSecond : tail.holds b₁ = true) :
    String.utf8EncodeChar
        (Char.ofNat
          ((b.toNat - 0xC0) * 64 + (b₁.toNat - 0x80))) =
      [b, b₁] := by
  have h₁ := tail_bounds hSecond
  unfold String.utf8EncodeChar
  rw [toNat_ofNat_valid (by omega)]
  simp only
  rw [if_neg (by omega), if_pos (by omega),
    ofNat_eq b (by omega), ofNat_eq b₁ (by omega)]

theorem encodeChar_three
    (hLow : 0xE0 ≤ b.toNat)
    (hHigh : b.toNat < 0xF0)
    (hRange : Second range (b.toNat - 0xE0))
    (hSecond : range.holds b₁ = true)
    (hThird : tail.holds b₂ = true) :
    String.utf8EncodeChar
        (Char.ofNat
          (((b.toNat - 0xE0) * 64 + (b₁.toNat - 0x80)) * 64 +
            (b₂.toNat - 0x80))) =
      [b, b₁, b₂] := by
  have h₂ := tail_bounds hThird
  rcases Range.holds_iff.mp hSecond with ⟨hLeast, hMost⟩
  rw [hRange.1] at hLeast
  rw [hRange.2] at hMost
  have h₁ : 0x80 ≤ b₁.toNat ∧ b₁.toNat ≤ 0xBF := by
    constructor
    · split at hLeast <;> omega
    · split at hMost <;> omega
  have hOverlong : b.toNat = 0xE0 → 0xA0 ≤ b₁.toNat := by
    intro hFirst
    rw [if_pos (by omega)] at hLeast
    exact hLeast
  have hSurrogate : b.toNat = 0xED → b₁.toNat ≤ 0x9F := by
    intro hFirst
    rw [if_pos (by omega)] at hMost
    exact hMost
  unfold String.utf8EncodeChar
  rw [toNat_ofNat_valid (by omega)]
  simp only
  rw [if_neg (by omega), if_neg (by omega), if_pos (by omega),
    ofNat_eq b (by omega), ofNat_eq b₁ (by omega),
    ofNat_eq b₂ (by omega)]

theorem encodeChar_four
    (hLow : 0xF0 ≤ b.toNat)
    (hHigh : b.toNat < 0xF5)
    (hRange : SecondOfFour range (b.toNat - 0xF0))
    (hSecond : range.holds b₁ = true)
    (hThird : tail.holds b₂ = true)
    (hFourth : tail.holds b₃ = true) :
    String.utf8EncodeChar
        (Char.ofNat
          ((((b.toNat - 0xF0) * 64 + (b₁.toNat - 0x80)) * 64 +
              (b₂.toNat - 0x80)) * 64 +
            (b₃.toNat - 0x80))) =
      [b, b₁, b₂, b₃] := by
  have h₂ := tail_bounds hThird
  have h₃ := tail_bounds hFourth
  rcases Range.holds_iff.mp hSecond with ⟨hLeast, hMost⟩
  rw [hRange.1] at hLeast
  rw [hRange.2] at hMost
  have h₁ : 0x80 ≤ b₁.toNat ∧ b₁.toNat ≤ 0xBF := by
    constructor
    · split at hLeast <;> omega
    · split at hMost <;> omega
  have hOverlong : b.toNat = 0xF0 → 0x90 ≤ b₁.toNat := by
    intro hFirst
    rw [if_pos (by omega)] at hLeast
    exact hLeast
  have hGreatest : b.toNat = 0xF4 → b₁.toNat ≤ 0x8F := by
    intro hFirst
    rw [if_pos (by omega)] at hMost
    exact hMost
  unfold String.utf8EncodeChar
  rw [toNat_ofNat_valid (by omega)]
  simp only
  rw [if_neg (by omega), if_neg (by omega), if_neg (by omega),
    ofNat_eq b (by omega), ofNat_eq b₁ (by omega),
    ofNat_eq b₂ (by omega), ofNat_eq b₃ (by omega)]

------------------------------------------------------------
-- Decoded Texts
------------------------------------------------------------

/- The last byte of a character in progress. -/
theorem of_decodeFrom_last
    {first : UInt8}
    {taken : Nat}
    (hDecode :
      decodeFrom pos (some ⟨first, taken, value, [range]⟩)
          bytes = .ok cs) :
    ∃ b rest more,
      bytes = b :: rest ∧ range.holds b = true ∧
        decodeFrom (pos + 1) none rest = .ok more ∧
        cs =
          Char.ofNat (value * 64 + (b.toNat - 0x80)) :: more := by
  cases bytes with
  | nil => cases hDecode
  | cons b rest =>
      rw [decodeFrom] at hDecode
      dsimp only at hDecode
      split at hDecode
      · next hHolds =>
          rcases hMore : decodeFrom (pos + 1) none rest with
            fault | more
          · rw [hMore] at hDecode
            cases hDecode
          · rw [hMore] at hDecode
            exact ⟨b, rest, more, rfl, hHolds, hMore,
              (Except.ok.inj hDecode).symm⟩
      · cases hDecode

/- A byte before the last one. -/
theorem of_decodeFrom_middle
    {first : UInt8}
    {taken : Nat}
    {next : Range}
    {owed : List Range}
    (hDecode :
      decodeFrom pos
          (some ⟨first, taken, value, range :: next :: owed⟩)
          bytes = .ok cs) :
    ∃ b rest,
      bytes = b :: rest ∧ range.holds b = true ∧
        decodeFrom (pos + 1)
            (some
              ⟨first, taken + 1,
                value * 64 + (b.toNat - 0x80), next :: owed⟩)
            rest = .ok cs := by
  cases bytes with
  | nil => cases hDecode
  | cons b rest =>
      rw [decodeFrom] at hDecode
      dsimp only at hDecode
      split at hDecode
      · next hHolds => exact ⟨b, rest, rfl, hHolds, hDecode⟩
      · cases hDecode

/- A text that is read starts with a character of its own. -/
theorem of_decodeFrom_cons
    (hDecode : decodeFrom pos none (b :: bytes) = .ok cs) :
    ∃ c seq rest pos' more,
      b :: bytes = seq ++ rest ∧
        seq = String.utf8EncodeChar c ∧
        rest.length ≤ bytes.length ∧
        decodeFrom pos' none rest = .ok more ∧
        cs = c :: more := by
  cases hLead : lead b with
  | none =>
      rw [decodeFrom, hLead] at hDecode
      cases hDecode
  | some found =>
      rcases found with ⟨value, owed⟩
      rcases lead_cases hLead with
        ⟨hHigh, hValue, rfl⟩ | ⟨hLow, hHigh, hValue, rfl⟩ |
          ⟨range, hLow, hHigh, hValue, hRange, rfl⟩ |
          ⟨range, hLow, hHigh, hValue, hRange, rfl⟩
      all_goals rw [hValue] at hLead
      · rw [decodeFrom_single hLead] at hDecode
        rcases hMore : decodeFrom (pos + 1) none bytes with
          fault | more
        · rw [hMore] at hDecode
          cases hDecode
        · rw [hMore] at hDecode
          exact ⟨_, [b], bytes, _, more, rfl,
            (encodeChar_one hHigh).symm, Nat.le_refl _, hMore,
            (Except.ok.inj hDecode).symm⟩
      · rw [decodeFrom_first hLead] at hDecode
        rcases of_decodeFrom_last hDecode with
          ⟨b₁, rest, more, rfl, h₁, hMore, hText⟩
        exact ⟨_, [b, b₁], rest, _, more, rfl,
          (encodeChar_two hLow hHigh h₁).symm, by simp, hMore,
          hText⟩
      · rw [hValue] at hRange
        rw [decodeFrom_first hLead] at hDecode
        rcases of_decodeFrom_middle hDecode with
          ⟨b₁, rest₁, rfl, h₁, hRest⟩
        rcases of_decodeFrom_last hRest with
          ⟨b₂, rest, more, rfl, h₂, hMore, hText⟩
        exact ⟨_, [b, b₁, b₂], rest, _, more, rfl,
          (encodeChar_three hLow hHigh hRange h₁ h₂).symm,
          by simp; omega, hMore, hText⟩
      · rw [hValue] at hRange
        rw [decodeFrom_first hLead] at hDecode
        rcases of_decodeFrom_middle hDecode with
          ⟨b₁, rest₁, rfl, h₁, hRest⟩
        rcases of_decodeFrom_middle hRest with
          ⟨b₂, rest₂, rfl, h₂, hRest'⟩
        rcases of_decodeFrom_last hRest' with
          ⟨b₃, rest, more, rfl, h₃, hMore, hText⟩
        exact ⟨_, [b, b₁, b₂, b₃], rest, _, more, rfl,
          (encodeChar_four hLow hHigh hRange h₁ h₂ h₃).symm,
          by simp; omega, hMore, hText⟩

private theorem encode_of_decodeFrom
    (n : Nat)
    (hLength : bytes.length ≤ n)
    (hDecode : decodeFrom pos none bytes = .ok cs) :
    encode cs = bytes := by
  induction n generalizing pos bytes cs with
  | zero =>
      have hNil : bytes = [] := by
        simpa using hLength
      subst hNil
      rw [← Except.ok.inj hDecode]
      rfl
  | succ n ih =>
      cases bytes with
      | nil =>
          rw [← Except.ok.inj hDecode]
          rfl
      | cons b bytes =>
          rcases of_decodeFrom_cons hDecode with
            ⟨c, seq, rest, pos', more, hBytes, rfl, hShorter,
              hMore, rfl⟩
          have hRest : encode more = rest :=
            ih (by simp at hLength; omega) hMore
          rw [hBytes, ← hRest]
          rfl

/- What is read as a text is the encoding of the text. -/
theorem encode_of_decode
    (hDecode : decode bytes = .ok cs) :
    encode cs = bytes :=
  encode_of_decodeFrom bytes.length (Nat.le_refl _) hDecode

/- Different texts have different encodings. -/
theorem encode_inj
    {cs cs' : List Char} :
    encode cs = encode cs' ↔ cs = cs' := by
  constructor
  · intro hSame
    have hDecode := decode_encode cs
    rw [hSame, decode_encode] at hDecode
    exact (Except.ok.inj hDecode).symm
  · rintro rfl
    rfl

end Utf8

end BiomeMigration
