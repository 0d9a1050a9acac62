import BiomeMigration.Proofs.Decimal.Pointed
import BiomeMigration.Yaml.Scalar

/-
  Versions as plain scalars: one group of digits is a whole
  number, two are a number with a point, and only more of
  them are text.

  Main declarations:
    * `Yaml.Version`
    * `Yaml.Version.ofTag_one`
    * `Yaml.Version.ofTag_two`
    * `Yaml.Version.ofTag_more`
-/

------------------------------------------------------------
-- Versions
------------------------------------------------------------

namespace BiomeMigration

namespace Yaml

/- Some decimal digits. -/
def IsGroup (g : List Char) : Prop :=
  g ≠ [] ∧ ∀ c ∈ g, c.isDigit = true

instance (g : List Char) : Decidable (IsGroup g) := by
  unfold IsGroup
  infer_instance

/- Groups of digits with points between them. -/
structure Version where
  first : List Char
  others : List (List Char)
  groups : ∀ g ∈ first :: others, IsGroup g

namespace Version

/- The text of a version. -/
def chars (v : Version) : List Char :=
  v.first ++ v.others.flatMap ('.' :: ·)

/- The number of its digits. -/
def digitCount (v : Version) : Nat :=
  v.first.length + (v.others.map List.length).sum

end Version

------------------------------------------------------------
-- Digits
------------------------------------------------------------

/- What a decimal digit is, and what it is not. -/
structure IsPlainDigit (c : Char) : Prop where
  value : Numeral.digit? 10 c = some (c.toNat - '0'.toNat)
  octal : (Numeral.digit? 8 c).isSome = decide (c ≤ '7')
  signs : ∀ d ∈ "+-_:.o".toList, c ≠ d

theorem isPlainDigit_iff (c : Char) :
    IsPlainDigit c ↔
      Numeral.digit? 10 c = some (c.toNat - '0'.toNat) ∧
        (Numeral.digit? 8 c).isSome = decide (c ≤ '7') ∧
        ∀ d ∈ "+-_:.o".toList, c ≠ d :=
  ⟨fun h => ⟨h.1, h.2, h.3⟩, fun ⟨h₁, h₂, h₃⟩ => ⟨h₁, h₂, h₃⟩⟩

instance (c : Char) : Decidable (IsPlainDigit c) :=
  decidable_of_iff _ (isPlainDigit_iff c).symm

theorem toNat_lt_of_isDigit
    {c : Char}
    (hDigit : c.isDigit = true) :
    c.toNat < 58 := by
  rw [← Json.isDigit_eq] at hDigit
  simp only [Json.isDigit, Bool.and_eq_true, decide_eq_true_eq]
    at hDigit
  have hHigh : c.toNat ≤ '9'.toNat := Char.le_def.mp hDigit.2
  have hNine : '9'.toNat = 57 := rfl
  omega

theorem isPlainDigit_of_isDigit
    {c : Char}
    (hDigit : c.isDigit = true) :
    IsPlainDigit c := by
  have hAll :
      ∀ n < 58, (Char.ofNat n).isDigit = true →
        IsPlainDigit (Char.ofNat n) := by
    decide
  have hSame := hAll c.toNat (toNat_lt_of_isDigit hDigit)
  rw [Char.ofNat_toNat] at hSame
  exact hSame hDigit

/- A digit or a point. -/
def isNumeric (c : Char) : Bool :=
  c.isDigit || c == '.'

/- What all characters of versions are, and what they are not. -/
structure IsPlainNumeric (c : Char) : Prop where
  ascii : c.toNat < 127
  space : Numeral.isSpace c = false
  lower : c.toLower = c
  small : LetterCase.small (.scalar c) = [.scalar c]
  sigma : CodePoint.scalar c ≠ LetterCase.sigma
  signs : ∀ d ∈ "+-_:\n".toList, c ≠ d

theorem isPlainNumeric_iff (c : Char) :
    IsPlainNumeric c ↔
      c.toNat < 127 ∧ Numeral.isSpace c = false ∧
        c.toLower = c ∧
        LetterCase.small (.scalar c) = [.scalar c] ∧
        CodePoint.scalar c ≠ LetterCase.sigma ∧
        ∀ d ∈ "+-_:\n".toList, c ≠ d :=
  ⟨fun h => ⟨h.1, h.2, h.3, h.4, h.5, h.6⟩,
    fun ⟨h₁, h₂, h₃, h₄, h₅, h₆⟩ => ⟨h₁, h₂, h₃, h₄, h₅, h₆⟩⟩

instance (c : Char) : Decidable (IsPlainNumeric c) :=
  decidable_of_iff _ (isPlainNumeric_iff c).symm

theorem isPlainNumeric_of_isNumeric
    {c : Char}
    (hNumeric : isNumeric c = true) :
    IsPlainNumeric c := by
  have hAll :
      ∀ n < 58, isNumeric (Char.ofNat n) = true →
        IsPlainNumeric (Char.ofNat n) := by
    decide +kernel
  have hLess : c.toNat < 58 := by
    simp only [isNumeric, Bool.or_eq_true, beq_iff_eq] at hNumeric
    rcases hNumeric with hDigit | rfl
    · exact toNat_lt_of_isDigit hDigit
    · decide
  have hSame := hAll c.toNat hLess
  rw [Char.ofNat_toNat] at hSame
  exact hSame hNumeric

------------------------------------------------------------
-- Kinds of Scalars
------------------------------------------------------------

namespace Plain

variable {cs : List Char}

/- A text that starts with a digit. -/
def StartsDigit (cs : List Char) : Prop :=
  ∃ c more, cs = c :: more ∧ c.isDigit = true

/- Such a text is none of the words for other values. -/
theorem isWord_eq_false
    {words : List String}
    (hWords :
      ∀ w ∈ words, ∀ c ∈ w.toList.head?, c.isDigit = false)
    (hStarts : StartsDigit cs) :
    isWord words cs = false := by
  rcases hStarts with ⟨c, more, rfl, hDigit⟩
  unfold isWord
  rw [List.any_eq_false]
  intro w hMem hSame
  have hText : w.toList = c :: more := beq_iff_eq.mp hSame
  have hOther := hWords w hMem c (by rw [hText]; rfl)
  rw [hDigit] at hOther
  cases hOther

theorem ne_of_startsDigit
    {other : List Char}
    (hStarts : StartsDigit cs)
    (hOther : ∀ c ∈ other.head?, c.isDigit = false) :
    cs ≠ other := by
  rcases hStarts with ⟨c, more, rfl, hDigit⟩
  rintro rfl
  have hNone := hOther c rfl
  rw [hDigit] at hNone
  cases hNone

theorem withoutFeed_eq
    (hNone : '\n' ∉ cs) :
    withoutFeed cs = cs := by
  unfold withoutFeed
  split
  · next c rest hReverse =>
      have hMem : '\n' ∈ cs.reverse := by simp [hReverse]
      exact (hNone (List.mem_reverse.mp hMem)).elim
  · rfl

theorem unsigned_eq
    (hStarts : StartsDigit cs) :
    unsigned cs = cs := by
  rcases hStarts with ⟨c, more, rfl, hDigit⟩
  have hSigns := (isPlainDigit_of_isDigit hDigit).signs
  unfold unsigned
  split
  · next hSame =>
      cases hSame
      exact (hSigns '-' (by decide) rfl).elim
  · next hSame =>
      cases hSame
      exact (hSigns '+' (by decide) rfl).elim
  · rfl

/- Without colons there is one piece. -/
theorem groups_eq
    (hNone : ':' ∉ cs) :
    groups cs = [cs] := by
  induction cs with
  | nil => rfl
  | cons c cs ih =>
      rw [List.mem_cons, not_or] at hNone
      have hColon : (c == ':') = false :=
        beq_eq_false_iff_ne.mpr (Ne.symm hNone.1)
      rw [groups, ih hNone.2, hColon]
      rfl

/- Without a colon a number is not to base sixty. -/
theorem isFloat_eq
    (hStarts : StartsDigit cs)
    (hNone : ':' ∉ cs) :
    isFloat cs = isDecimal cs := by
  have hPoint :
      ∀ words : List (List Char),
        (∀ w ∈ words, ∀ c ∈ w.head?, c.isDigit = false) →
          words.contains cs = false := by
    intro words hWords
    rw [List.contains_eq_mem, decide_eq_false_iff_not]
    intro hMem
    exact ne_of_startsDigit hStarts (hWords cs hMem) rfl
  have hGroups :
      groups (cs.takeWhile (· != '.')) =
        [cs.takeWhile (· != '.')] :=
    groups_eq fun hMem =>
      hNone ((List.takeWhile_prefix _).subset hMem)
  have hSexagesimal : isSexagesimal cs = false := by
    unfold isSexagesimal
    dsimp only
    rw [hGroups]
    split
    · next hSame => cases hSame
    · rfl
  unfold isFloat
  dsimp only
  rw [unsigned_eq hStarts, hPoint _ (by decide),
    hPoint _ (by decide), hSexagesimal]
  simp

/- A date has hyphens. -/
theorem isPlain_eq_false
    (hNone : '-' ∉ cs) :
    Timestamp.isPlain cs = false := by
  have hRead : Timestamp.read? cs = none := by
    unfold Timestamp.read?
    cases hYear : Timestamp.digits? 4 4 cs with
    | none => rfl
    | some found =>
        have hRest : '-' ∉ found.2 := by
          unfold Timestamp.digits? at hYear
          dsimp only at hYear
          split at hYear
          · cases hYear
          · cases hYear
            exact fun hMem => hNone (List.mem_of_mem_drop hMem)
        have hAfter : Timestamp.after? '-' found.2 = none := by
          cases hCons : found.2 with
          | nil => rfl
          | cons c rest =>
              have hNe : ('-' == c) = false := by
                rw [beq_eq_false_iff_ne]
                rintro rfl
                exact hRest (by simp [hCons])
              rw [Timestamp.after?, hNe]
              rfl
        show (Timestamp.after? '-' found.2 >>= _) = none
        rw [hAfter]
        rfl
  rw [Timestamp.isPlain, hRead]

/-
  A text that starts with a digit, with neither colons nor
  hyphens, is a number or nothing but text.
-/
theorem ofPlain_eq
    (hStarts : StartsDigit cs)
    (hFeed : '\n' ∉ cs)
    (hColon : ':' ∉ cs)
    (hHyphen : '-' ∉ cs) :
    Tag.ofPlain (Text.ofChars cs) =
      if isDecimal cs then .float
      else if isInt cs then .int
      else .str := by
  have hOther :
      ∀ other : List Char,
        (∀ c ∈ other.head?, c.isDigit = false) →
          (cs == other) = false := fun other hHead =>
    beq_eq_false_iff_ne.mpr (ne_of_startsDigit hStarts hHead)
  unfold Tag.ofPlain
  rw [Text.chars?_ofChars]
  dsimp only
  rw [withoutFeed_eq hFeed, isWord_eq_false (by decide) hStarts,
    isFloat_eq hStarts hColon, hOther _ (by decide),
    isWord_eq_false (by decide) hStarts,
    isPlain_eq_false hHyphen, hOther _ (by decide),
    isWord_eq_false (by decide) hStarts]
  rfl

------------------------------------------------------------
-- Groups of Digits
------------------------------------------------------------

variable {g h rest : List Char}

theorem isFiller_of_isDigit
    {c : Char}
    (hDigit : c.isDigit = true) :
    isFiller c = true := by
  simp [isFiller, hDigit]

/- The digits in front of something else. -/
theorem span_group
    (hGroup : IsGroup g)
    (rest : List Char)
    (hRest : ∀ c ∈ rest.head?, isFiller c = false) :
    (g ++ rest).takeWhile isFiller = g ∧
      (g ++ rest).dropWhile isFiller = rest := by
  have hAll : ∀ c ∈ g, isFiller c = true := fun c hMem =>
    isFiller_of_isDigit (hGroup.2 c hMem)
  rw [List.takeWhile_append_of_pos hAll,
    List.dropWhile_append_of_pos hAll]
  cases rest with
  | nil => simp
  | cons c rest =>
      have hStop := hRest c rfl
      simp [hStop]

theorem isWhole_group
    (hGroup : IsGroup g) :
    isWhole g = true := by
  rcases hGroup with ⟨hNe, hDigits⟩
  cases g with
  | nil => exact (hNe rfl).elim
  | cons c g =>
      rcases List.forall_mem_cons.mp hDigits with ⟨hFirst, hMore⟩
      simp only [isWhole, hFirst, Bool.true_and]
      exact List.all_eq_true.mpr fun d hMem =>
        isFiller_of_isDigit (hMore d hMem)

/- One group has no point. -/
theorem isDecimal_one
    (hGroup : IsGroup g) :
    isDecimal g = false := by
  have hSpan := span_group hGroup [] (by simp)
  rw [List.append_nil] at hSpan
  unfold isDecimal
  rw [hSpan.2]

/- A group and a point: no more than an exponent may follow. -/
theorem isDecimal_point
    (hGroup : IsGroup g)
    (rest : List Char) :
    isDecimal (g ++ '.' :: rest) =
      isExponent (rest.dropWhile isFiller) := by
  have hSpan := span_group hGroup ('.' :: rest) (by simp; decide)
  have hNe : g.isEmpty = false := by simp [hGroup.1]
  unfold isDecimal
  rw [hSpan.1, hSpan.2]
  simp only [hNe, isWhole_group hGroup, Bool.true_and]
  rfl

theorem isDecimal_two
    (hG : IsGroup g)
    (hH : IsGroup h) :
    isDecimal (g ++ '.' :: h) = true := by
  have hSpan := span_group hH [] (by simp)
  rw [List.append_nil] at hSpan
  rw [isDecimal_point hG, hSpan.2]
  rfl

/- A second point is too much. -/
theorem isDecimal_more
    (hG : IsGroup g)
    (hH : IsGroup h) :
    isDecimal (g ++ '.' :: (h ++ '.' :: rest)) = false := by
  have hSpan := span_group hH ('.' :: rest) (by simp; decide)
  rw [isDecimal_point hG, hSpan.2]
  cases rest with
  | nil => rfl
  | cons s digits => rfl

/- Points are no part of whole numbers. -/
theorem isInt_eq_false
    (hStarts : StartsDigit cs)
    (hColon : ':' ∉ cs)
    (hPoint : '.' ∈ cs) :
    isInt cs = false := by
  have hDigits :
      ∀ (test : Char → Bool) (rest : List Char),
        test '.' = false → '.' ∈ rest →
          areDigits test rest = false := by
    intro test rest hTest hMem
    unfold areDigits
    rw [Bool.and_eq_false_iff]
    right
    rw [List.all_eq_false]
    exact ⟨'.', hMem, by simp [hTest]⟩
  unfold isInt
  rw [unsigned_eq hStarts]
  split
  · simp at hPoint
  · apply hDigits _ _ (by decide)
    simpa using hPoint
  · apply hDigits _ _ (by decide)
    simpa using hPoint
  · apply hDigits _ _ (by decide)
    simpa using hPoint
  · rw [groups_eq hColon]
    rcases hStarts with ⟨c, more, rfl, hDigit⟩
    have hOther : '.' ∈ more := by
      rcases List.mem_cons.mp hPoint with rfl | hMem
      · cases hDigit
      · exact hMem
    have hAll : more.all isFiller = false := by
      rw [List.all_eq_false]
      exact ⟨'.', hOther, by decide⟩
    simp [isWhole, hAll]

/-
  A group is a whole number, unless a zero in front makes it
  octal and it has other digits.
-/
theorem isInt_group
    (hGroup : IsGroup g) :
    isInt g =
      (g.head? != some '0' || g.all fun c => c ≤ '7') := by
  rcases hGroup with ⟨hNe, hDigits⟩
  have hStarts : StartsDigit g := by
    rcases List.exists_cons_of_ne_nil hNe with ⟨c, more, rfl⟩
    exact ⟨c, more, rfl, hDigits c (by simp)⟩
  have hOther :
      ∀ d ∈ "bx:".toList, d ∉ g := by
    intro d hMem hIn
    have hNone : ∀ d ∈ "bx:".toList, d.isDigit = false := by
      decide
    have hDigit := hDigits d hIn
    rw [hNone d hMem] at hDigit
    cases hDigit
  unfold isInt
  rw [unsigned_eq hStarts]
  split
  · rfl
  · exact (hOther 'b' (by decide) (by simp)).elim
  · exact (hOther 'x' (by decide) (by simp)).elim
  · next rest hSingle _ _ =>
      have hSome : rest ≠ [] := by
        rintro rfl
        exact hSingle rfl
      have hOctal :
          ∀ c ∈ rest,
            (('0' ≤ c && c ≤ '7') || c == '_') =
              decide (c ≤ '7') := by
        intro c hMem
        have hDigit := hDigits c (by simp [hMem])
        have hLow : ('0' ≤ c) = True := by
          rw [← Json.isDigit_eq] at hDigit
          simp only [Json.isDigit, Bool.and_eq_true,
            decide_eq_true_eq] at hDigit
          exact eq_true hDigit.1
        have hLine : c ≠ '_' :=
          (isPlainDigit_of_isDigit hDigit).signs '_' (by decide)
        simp [hLow, hLine]
      have hAll :
          (rest.all fun c =>
              ('0' ≤ c && c ≤ '7') || c == '_') =
            rest.all fun c => c ≤ '7' := by
        rw [Bool.eq_iff_iff, List.all_eq_true, List.all_eq_true]
        exact forall₂_congr fun c hMem => by rw [hOctal c hMem]
      have hFirst : ('0' ≤ '7') = True := by decide
      simp [areDigits, hSome, hAll, hFirst]
  · next hZero =>
      have hHead : g.head? ≠ some '0' := by
        intro hSame
        rcases List.head?_eq_some_iff.mp hSame with ⟨more, rfl⟩
        exact hZero more rfl
      have hColon : ':' ∉ g := hOther ':' (by decide)
      rw [groups_eq hColon]
      simp [isWhole_group ⟨hNe, hDigits⟩, hHead]

end Plain

------------------------------------------------------------
-- Values of Digits
------------------------------------------------------------

section Values

variable {cs g h : List Char}

/- The texts that versions are made of. -/
def IsNumericText (cs : List Char) : Prop :=
  ∀ c ∈ cs, isNumeric c = true

theorem IsGroup.isNumericText
    (hGroup : IsGroup g) :
    IsNumericText g := by
  intro c hMem
  simp [isNumeric, hGroup.2 c hMem]

/- Two groups with a point between them. -/
theorem IsGroup.pointed
    (hG : IsGroup g)
    (hH : IsGroup h) :
    IsNumericText (g ++ '.' :: h) := by
  intro c hMem
  rcases List.mem_append.mp hMem with hFirst | hMore
  · exact hG.isNumericText c hFirst
  · rcases List.mem_cons.mp hMore with rfl | hSecond
    · decide
    · exact hH.isNumericText c hSecond

theorem IsGroup.startsDigit
    (hGroup : IsGroup g)
    (cs : List Char) :
    Plain.StartsDigit (g ++ cs) := by
  rcases List.exists_cons_of_ne_nil hGroup.1 with ⟨c, more, rfl⟩
  exact ⟨c, more ++ cs, rfl, hGroup.2 c (by simp)⟩

theorem IsNumericText.not_mem
    (hNumeric : IsNumericText cs)
    {d : Char}
    (hSign : d ∈ "+-_:\n".toList) :
    d ∉ cs := fun hMem =>
  (isPlainNumeric_of_isNumeric (hNumeric d hMem)).signs d hSign rfl

namespace Numeral

/- Where nothing can be dropped, nothing is. -/
theorem dropWhile_eq
    {p : Char → Bool}
    {ds : List Char}
    (hNone : ∀ c ∈ ds, p c = false) :
    ds.dropWhile p = ds :=
  List.dropWhile_eq_self_iff.mpr fun hSome => by
    simp [hNone _ (List.getElem_mem hSome)]

theorem trimmed_ofChars
    (hNumeric : IsNumericText cs) :
    trimmed (Text.ofChars cs) = cs := by
  have hSpace : ∀ c ∈ cs, isSpace c = false := fun c hMem =>
    (isPlainNumeric_of_isNumeric (hNumeric c hMem)).space
  have hAscii : (Text.ofChars cs).map ascii = cs := by
    unfold Text.ofChars
    rw [List.map_map]
    conv_rhs => rw [← List.map_id cs]
    apply List.map_congr_left
    intro c hMem
    have hLess :=
      (isPlainNumeric_of_isNumeric (hNumeric c hMem)).ascii
    simp [ascii, hLess]
  unfold trimmed
  dsimp only
  rw [hAscii, dropWhile_eq hSpace,
    dropWhile_eq fun c hMem =>
      hSpace c (List.mem_reverse.mp hMem),
    List.reverse_reverse]

theorem sign_eq
    (hNumeric : IsNumericText cs) :
    sign cs = (false, cs) := by
  unfold sign
  split
  · exact (hNumeric.not_mem (by decide)
      (List.mem_cons_self (a := '-'))).elim
  · exact (hNumeric.not_mem (by decide)
      (List.mem_cons_self (a := '+'))).elim
  · rfl

/- The value of digits is that of decimal notation. -/
theorem digitsValue_eq
    (hDigits : ∀ c ∈ g, c.isDigit = true) :
    digitsValue 10 g = Json.digitsValue g := by
  unfold digitsValue Json.digitsValue
  apply List.foldl_ext
  intro n c hMem
  rw [(isPlainDigit_of_isDigit (hDigits c hMem)).value,
    Option.getD_some, Nat.mul_comm 10 n]

/- A group has no letter that announces a base. -/
theorem afterBase_group
    (hGroup : IsGroup g)
    {base : Nat}
    (hBase : base = 8 ∨ base = 10) :
    afterBase base g = g := by
  unfold afterBase
  split
  · next c rest =>
      have hDigit := hGroup.2 c (by simp)
      have hLower :=
        (isPlainNumeric_of_isNumeric (by
          simp [isNumeric, hDigit] : isNumeric c = true)).lower
      have hLetter :=
        (isPlainDigit_of_isDigit hDigit).signs 'o' (by decide)
      rw [hLower]
      rcases hBase with rfl | rfl
      · have hOther : (baseLetter? 8 == some c) = false := by
          simp [baseLetter?, Ne.symm hLetter]
        rw [hOther]
        rfl
      · rfl
  · rfl

/- A decimal whole number has a limited number of digits. -/
theorem int_ten
    (hGroup : IsGroup g) :
    int 10 (Text.ofChars g) =
      if Digit.limit < g.length then .error (.longInteger g.length)
      else .ok (Json.digitsValue g) := by
  have hNumeric := hGroup.isNumericText
  have hAll : ∀ c ∈ g, (digit? 10 c).isSome = true := by
    intro c hMem
    rw [(isPlainDigit_of_isDigit (hGroup.2 c hMem)).value]
    rfl
  have hTake : (g.takeWhile fun c => (digit? 10 c).isSome) = g :=
    List.takeWhile_eq_self_iff.mpr hAll
  have hNe : g.isEmpty = false := by simp [hGroup.1]
  unfold int
  rw [trimmed_ofChars hNumeric, sign_eq hNumeric]
  dsimp only
  rw [afterBase_group hGroup (Or.inr rfl), hTake, hNe,
    digitsValue_eq hGroup.2]
  simp

/- Octal digits are always read. -/
theorem int_eight
    (hGroup : IsGroup g)
    (hOctal : ∀ c ∈ g, c ≤ '7') :
    int 8 (Text.ofChars g) = .ok (digitsValue 8 g : Int) := by
  have hNumeric := hGroup.isNumericText
  have hAll : ∀ c ∈ g, (digit? 8 c).isSome = true := by
    intro c hMem
    rw [(isPlainDigit_of_isDigit (hGroup.2 c hMem)).octal]
    exact decide_eq_true (hOctal c hMem)
  have hTake : (g.takeWhile fun c => (digit? 8 c).isSome) = g :=
    List.takeWhile_eq_self_iff.mpr hAll
  have hNe : g.isEmpty = false := by simp [hGroup.1]
  unfold int
  rw [trimmed_ofChars hNumeric, sign_eq hNumeric]
  dsimp only
  rw [afterBase_group hGroup (Or.inl rfl), hTake, hNe]
  simp

/- Digits with a point are read as the decimal. -/
theorem float_point
    (hG : IsGroup g)
    (hH : IsGroup h) :
    float (Text.ofChars (g ++ '.' :: h)) =
      .ok
        (.ofDecimal false (Json.digitsValue (g ++ h))
          (-(h.length : Int))) := by
  have hNumeric := hG.pointed hH
  have hStarts := hG.startsDigit ('.' :: h)
  have hLower : (g ++ '.' :: h).map Char.toLower = g ++ '.' :: h := by
    conv_rhs => rw [← List.map_id (g ++ '.' :: h)]
    apply List.map_congr_left
    intro c hMem
    exact (isPlainNumeric_of_isNumeric (hNumeric c hMem)).lower
  have hWord :
      ∀ other : List Char,
        (∀ c ∈ other.head?, c.isDigit = false) →
          (g ++ '.' :: h == other) = false := fun other hHead =>
    beq_eq_false_iff_ne.mpr (Plain.ne_of_startsDigit hStarts hHead)
  have hSpan :
      (g ++ '.' :: h).takeWhile Char.isDigit = g ∧
        (g ++ '.' :: h).dropWhile Char.isDigit = '.' :: h := by
    have hPoint : Char.isDigit '.' = false := by decide
    rw [List.takeWhile_append_of_pos hG.2,
      List.dropWhile_append_of_pos hG.2]
    simp [hPoint]
  have hSpan' :
      h.takeWhile Char.isDigit = h ∧
        h.dropWhile Char.isDigit = [] :=
    ⟨List.takeWhile_eq_self_iff.mpr hH.2,
      List.dropWhile_eq_nil_iff.mpr hH.2⟩
  have hDigits : ∀ c ∈ g ++ h, c.isDigit = true := by
    intro c hMem
    rcases List.mem_append.mp hMem with hFirst | hSecond
    · exact hG.2 c hFirst
    · exact hH.2 c hSecond
  have hNe : g.isEmpty = false := by simp [hG.1]
  have hDecimal :
      decimal? false (g ++ '.' :: h) =
        some
          (.ofDecimal false (Json.digitsValue (g ++ h))
            (-(h.length : Int))) := by
    unfold decimal?
    rw [hSpan.1, hSpan.2]
    simp [hSpan'.1, hSpan'.2, hNe, digitsValue_eq hDigits]
  unfold float
  rw [trimmed_ofChars hNumeric, sign_eq hNumeric]
  dsimp only
  rw [hLower, hWord _ (by decide), hWord _ (by decide),
    hWord _ (by decide), hDecimal]
  rfl

end Numeral

namespace Scalar

/- Numbers without underscores are compact. -/
theorem compact_ofChars
    (hNumeric : IsNumericText cs) :
    compact (Text.ofChars cs) = Text.ofChars cs := by
  unfold compact
  rw [List.filter_eq_self]
  intro q hMem
  rcases List.mem_map.mp hMem with ⟨c, hIn, rfl⟩
  have hLine : c ≠ '_' := by
    rintro rfl
    exact hNumeric.not_mem (by decide) hIn
  simp [point, hLine]

theorem contains_colon
    (hNumeric : IsNumericText cs) :
    (Text.ofChars cs).contains (point ':') = false := by
  rw [List.contains_eq_mem, decide_eq_false_iff_not]
  intro hMem
  rcases List.mem_map.mp hMem with ⟨c, hIn, hSame⟩
  cases hSame
  exact hNumeric.not_mem (by decide) hIn

theorem sign_ofChars
    (hNumeric : IsNumericText cs)
    (hNe : cs ≠ []) :
    sign (Text.ofChars cs) = .ok (false, Text.ofChars cs) := by
  rcases List.exists_cons_of_ne_nil hNe with ⟨c, more, rfl⟩
  have hPoint :
      ∀ d ∈ "+-_:\n".toList,
        (CodePoint.scalar c == point d) = false := by
    intro d hMem
    rw [beq_eq_false_iff_ne]
    intro hSame
    cases hSame
    exact hNumeric.not_mem hMem (by simp)
  show (if CodePoint.scalar c == point '-' then _ else _) = _
  rw [hPoint '-' (by decide), if_neg Bool.false_ne_true,
    hPoint '+' (by decide), if_neg Bool.false_ne_true]

/- Digits and points have no capitals. -/
theorem lower_ofChars
    (hNumeric : IsNumericText cs) :
    LetterCase.lower (Text.ofChars cs) = Text.ofChars cs := by
  unfold LetterCase.lower
  generalize ([] : Text) = before
  induction cs generalizing before with
  | nil => rfl
  | cons c cs ih =>
      rcases List.forall_mem_cons.mp hNumeric with ⟨hFirst, hMore⟩
      have hPlain := isPlainNumeric_of_isNumeric hFirst
      have hSigma :
          (CodePoint.scalar c == LetterCase.sigma) = false :=
        beq_eq_false_iff_ne.mpr hPlain.sigma
      show LetterCase.lowerAfter before
        (.scalar c :: Text.ofChars cs) = _
      rw [LetterCase.lowerAfter, hSigma]
      simp only [Bool.false_eq_true, if_false]
      rw [hPlain.small, ih hMore]
      rfl

/- A whole number without a sign. -/
theorem intOf_eq
    (hNumeric : IsNumericText cs)
    (hNe : cs ≠ []) :
    intOf (Text.ofChars cs) = intSize (Text.ofChars cs) := by
  unfold intOf
  rw [compact_ofChars hNumeric, sign_ofChars hNumeric hNe]
  show (intSize (Text.ofChars cs)).bind _ = _
  cases intSize (Text.ofChars cs) with
  | error fault => rfl
  | ok size => rfl

/- A whole number in decimal notation. -/
theorem intOf_decimal
    (hGroup : IsGroup g)
    (hHead : g.head? ≠ some '0') :
    intOf (Text.ofChars g) =
      if Digit.limit < g.length then .error (.longInteger g.length)
      else .ok (Json.digitsValue g) := by
  have hNumeric := hGroup.isNumericText
  have hColon := contains_colon hNumeric
  rw [intOf_eq hNumeric hGroup.1, ← Numeral.int_ten hGroup]
  rcases List.exists_cons_of_ne_nil hGroup.1 with ⟨c, more, rfl⟩
  have hZero : (CodePoint.scalar c == point '0') = false := by
    rw [beq_eq_false_iff_ne]
    intro hSame
    cases hSame
    exact hHead rfl
  show (if CodePoint.scalar c == point '0' then _
    else if (Text.ofChars (c :: more)).contains (point ':') then _
    else _) = _
  rw [hZero, if_neg Bool.false_ne_true, hColon,
    if_neg Bool.false_ne_true]

/- A whole number in octal notation. -/
theorem intOf_octal
    (hGroup : IsGroup ('0' :: g))
    (hNe : g ≠ [])
    (hOctal : ∀ c ∈ g, c ≤ '7') :
    intOf (Text.ofChars ('0' :: g)) =
      .ok (Numeral.digitsValue 8 ('0' :: g) : Int) := by
  have hNumeric := hGroup.isNumericText
  have hAll : ∀ c ∈ '0' :: g, c ≤ '7' :=
    List.forall_mem_cons.mpr ⟨by decide, hOctal⟩
  rw [intOf_eq hNumeric hGroup.1, ← Numeral.int_eight hGroup hAll]
  rcases List.exists_cons_of_ne_nil hNe with ⟨c, more, rfl⟩
  have hDigit := hGroup.2 c (by simp)
  have hLetter :
      ∀ d : Char, d.isDigit = false →
        (CodePoint.scalar c == point d) = false := by
    intro d hNone
    rw [beq_eq_false_iff_ne]
    intro hSame
    cases hSame
    rw [hDigit] at hNone
    cases hNone
  show (if CodePoint.scalar c == point 'b' then _
    else if CodePoint.scalar c == point 'x' then _ else _) = _
  rw [hLetter 'b' (by decide), if_neg Bool.false_ne_true,
    hLetter 'x' (by decide), if_neg Bool.false_ne_true]

/- A decimal. -/
theorem floatOf_point
    (hG : IsGroup g)
    (hH : IsGroup h) :
    floatOf (Text.ofChars (g ++ '.' :: h)) =
      .ok
        (.ofDecimal false (Json.digitsValue (g ++ h))
          (-(h.length : Int))) := by
  have hNumeric := hG.pointed hH
  have hNe : g ++ '.' :: h ≠ [] := by simp
  have hWord :
      ∀ other : List Char,
        (∀ c ∈ other.head?, c.isDigit = false) →
          (Text.ofChars (g ++ '.' :: h) == Text.ofChars other) =
            false := by
    intro other hHead
    rw [beq_eq_false_iff_ne]
    exact fun hSame =>
      Plain.ne_of_startsDigit (hG.startsDigit _) hHead
        (Text.ofChars_injective hSame)
  have hSize :
      floatSize (Text.ofChars (g ++ '.' :: h)) =
        Numeral.float (Text.ofChars (g ++ '.' :: h)) := by
    unfold floatSize Text.ofString
    rw [hWord _ (by decide), if_neg Bool.false_ne_true,
      hWord _ (by decide), if_neg Bool.false_ne_true,
      contains_colon hNumeric, if_neg Bool.false_ne_true]
  have hFloat :
      floatOf (Text.ofChars (g ++ '.' :: h)) =
        floatSize (Text.ofChars (g ++ '.' :: h)) := by
    unfold floatOf
    rw [compact_ofChars hNumeric, lower_ofChars hNumeric,
      sign_ofChars hNumeric hNe]
    show (floatSize (Text.ofChars (g ++ '.' :: h))).bind _ = _
    cases floatSize (Text.ofChars (g ++ '.' :: h)) with
    | error fault => rfl
    | ok size => rfl
  rw [hFloat, hSize, Numeral.float_point hG hH]

end Scalar

end Values

------------------------------------------------------------
-- Tags of Versions
------------------------------------------------------------

namespace Version

variable {g h : List Char}

theorem isNumericText (v : Version) :
    IsNumericText v.chars := by
  intro c hMem
  rcases List.mem_append.mp hMem with hFirst | hMore
  · exact (v.groups v.first (by simp)).isNumericText c hFirst
  · rcases List.mem_flatMap.mp hMore with ⟨h, hIn, hChar⟩
    rcases List.mem_cons.mp hChar with rfl | hLater
    · decide
    · exact (v.groups h (by simp [hIn])).isNumericText c hLater

theorem startsDigit (v : Version) :
    Plain.StartsDigit v.chars :=
  (v.groups v.first (by simp)).startsDigit _

theorem chars_ne_nil (v : Version) : v.chars ≠ [] := by
  rcases v.startsDigit with ⟨c, more, hCons, _⟩
  simp [hCons]

/- A version is a number by its points alone. -/
theorem ofPlain_chars (v : Version) :
    Tag.ofPlain (Text.ofChars v.chars) =
      if Plain.isDecimal v.chars then .float
      else if Plain.isInt v.chars then .int
      else .str :=
  Plain.ofPlain_eq v.startsDigit
    (v.isNumericText.not_mem (by decide))
    (v.isNumericText.not_mem (by decide))
    (v.isNumericText.not_mem (by decide))

/- One group. -/
theorem ofPlain_one
    (hGroup : IsGroup g) :
    Tag.ofPlain (Text.ofChars g) =
      if g.head? != some '0' || g.all (· ≤ '7') then .int
      else .str := by
  have hTag :=
    ofPlain_chars ⟨g, [], by simpa using hGroup⟩
  have hChars :
      chars ⟨g, [], by simpa using hGroup⟩ = g :=
    List.append_nil g
  rw [hChars, Plain.isDecimal_one hGroup,
    Plain.isInt_group hGroup] at hTag
  exact hTag

/- Two groups. -/
theorem ofPlain_two
    (hG : IsGroup g)
    (hH : IsGroup h) :
    Tag.ofPlain (Text.ofChars (g ++ '.' :: h)) = .float := by
  have hAll : ∀ d ∈ [g, h], IsGroup d := by simp [hG, hH]
  have hTag := ofPlain_chars ⟨g, [h], hAll⟩
  have hChars : chars ⟨g, [h], hAll⟩ = g ++ '.' :: h := by
    simp [chars]
  rw [hChars, Plain.isDecimal_two hG hH] at hTag
  exact hTag

/- More than two groups. -/
theorem ofPlain_more
    {v : Version}
    (hMore : 2 ≤ v.others.length) :
    Tag.ofPlain (Text.ofChars v.chars) = .str := by
  rcases v with ⟨first, others, groups⟩
  rcases others with _ | ⟨g, _ | ⟨h, others⟩⟩
  · simp at hMore
  · simp at hMore
  · have hChars :
        chars ⟨first, g :: h :: others, groups⟩ =
          first ++ '.' ::
            (g ++ '.' :: (h ++ others.flatMap ('.' :: ·))) := by
      simp [chars]
    have hPoint : '.' ∈ chars ⟨first, g :: h :: others, groups⟩ := by
      rw [hChars]
      simp
    rw [ofPlain_chars,
      Plain.isInt_eq_false (startsDigit _)
        ((isNumericText _).not_mem (by decide)) hPoint,
      hChars,
      Plain.isDecimal_more (groups first (by simp))
        (groups g (by simp))]
    rfl

end Version

end Yaml

end BiomeMigration
