import BiomeMigration.Proofs.Settings.Rows
import BiomeMigration.Proofs.Settings.Values
import BiomeMigration.Proofs.Yaml.Version

/-
  Quotes around a setting. In quotes a version is kept as it
  is written; without them it is kept unless it is a number
  that is written differently. Quotes make no difference for
  the words of a choice, apart from the digits among them.

  Main declarations:
    * `Yaml.Version.IsKept`
    * `Settings.exists_plainOf`
    * `Settings.isKept_of_versionOf`
    * `Settings.agree_choice`
    * `Settings.quotes_keep_settings`
-/

------------------------------------------------------------
-- Versions that are Kept
------------------------------------------------------------

namespace BiomeMigration

namespace Yaml

namespace Version

/-
  A version that is the same number when it is written again.
  One group has no zero in front, unless digits above seven
  keep it from being octal, and is not too long. Two groups
  are a decimal of the usual format. More groups are text.
-/
def IsKept (v : Version) : Prop :=
  match v.others with
  | [] =>
      (v.first.head? = some '0' ∧
          (v.first = ['0'] ∨ ∃ c ∈ v.first, '7' < c)) ∨
        (v.first.head? ≠ some '0' ∧ v.first.length ≤ Digit.limit)
  | [decimals] => Pointed.IsUsual ⟨v.first, decimals⟩
  | _ => True

/- The digits of a decimal are few enough to be exact. -/
def IsShort (v : Version) : Prop :=
  v.others.length = 1 → v.digitCount ≤ 15

end Version

theorem IsGroup.digits
    {g : List Char}
    (hGroup : IsGroup g) :
    ∀ c ∈ g, Json.isDigit c = true := by
  intro c hMem
  rw [Json.isDigit_eq]
  exact hGroup.2 c hMem

/- A group without a zero in front is a whole number. -/
theorem IsGroup.isWhole
    {g : List Char}
    (hGroup : IsGroup g)
    (hHead : g.head? ≠ some '0') :
    Json.IsWhole g := by
  rcases List.exists_cons_of_ne_nil hGroup.1 with ⟨c, more, hCons⟩
  refine Or.inr ⟨hGroup.digits, c, more, hCons, ?_⟩
  rintro rfl
  exact hHead (by rw [hCons]; rfl)

end Yaml

------------------------------------------------------------
-- Versions as Settings
------------------------------------------------------------

namespace Settings

open Yaml (Version IsGroup Row Scalar Tag)

variable {g h : List Char} {v : Version}

/- Characters name the version of their text. -/
theorem versionOf_ofChars
    (hNe : g ≠ []) :
    versionOf (some (.scalar (.text (Text.ofChars g)))) =
      .ok (some (Text.ofChars g)) := by
  have hText : Text.ofChars g ≠ [] := by
    simpa [Text.ofChars] using hNe
  exact versionOf_text hText

/- A whole number names the version of its digits. -/
theorem versionOf_nat (n : Nat) :
    versionOf (some (.scalar (.int n))) =
      if 10 ^ Digit.limit ≤ n then .error .longNumber
      else .ok (some (Text.ofChars (Nat.toDigits 10 n))) := by
  rw [versionOf_int]
  unfold writeInt
  rw [Int.natAbs_natCast]
  split
  · rfl
  · exact congrArg (fun t => Except.ok (some t))
      (Text.ofString_ofList (Nat.toDigits 10 n))

/- What a version stands for without quotes. -/
def plainOf (v : Version) : Except Yaml.Fault Scalar :=
  Scalar.ofTag (Tag.ofPlain (Text.ofChars v.chars))
    (Text.ofChars v.chars)

/- A text stays what it is. -/
theorem plainOf_str
    (hTag : Tag.ofPlain (Text.ofChars v.chars) = .str) :
    plainOf v = .ok (.text (Text.ofChars v.chars)) := by
  rw [plainOf, hTag]
  rfl

/- One group, as a whole number or as text. -/
theorem exists_plainOf_one
    {groups : ∀ d ∈ [g], IsGroup d}
    (hKept : Version.IsKept ⟨g, [], groups⟩) :
    ∃ s,
      plainOf ⟨g, [], groups⟩ = .ok s ∧
        versionOf (some (.scalar s)) =
          .ok (some (Text.ofChars g)) := by
  have hGroup : IsGroup g := groups g (by simp)
  have hChars : Version.chars ⟨g, [], groups⟩ = g :=
    List.append_nil g
  have hTag := Version.ofPlain_one hGroup
  unfold plainOf
  rw [hChars, hTag]
  rcases hKept with ⟨hZero, rfl | ⟨c, hMem, hMore⟩⟩ | ⟨hHead, hFew⟩
  · refine ⟨.int 0, rfl, ?_⟩
    have hInt := versionOf_nat 0
    rw [if_neg (by simp)] at hInt
    exact hInt
  · have hAll : (g.all (· ≤ '7')) = false := by
      rw [List.all_eq_false]
      exact ⟨c, hMem, by simpa using hMore⟩
    rw [hZero, hAll]
    exact ⟨_, rfl, versionOf_ofChars hGroup.1⟩
  · have hInt := Scalar.intOf_decimal hGroup hHead
    rw [if_neg (not_lt.mpr hFew)] at hInt
    have hLess :
        ¬ 10 ^ Digit.limit ≤ Json.digitsValue g := by
      apply not_le.mpr
      exact (Json.digitsValue_lt hGroup.digits).trans_le
        (Nat.pow_le_pow_right (by decide) hFew)
    have hWritten := versionOf_nat (Json.digitsValue g)
    rw [if_neg hLess,
      Json.toDigits_digitsValue (hGroup.isWhole hHead)] at hWritten
    have hTest : (g.head? != some '0') = true := by
      simp [hHead]
    rw [hTest, Bool.true_or, if_pos rfl]
    refine ⟨_, ?_, hWritten⟩
    show (Scalar.intOf (Text.ofChars g)).map _ = _
    rw [hInt]
    rfl

/- One group of octal digits, as a whole number. -/
theorem plainOf_octal
    (groups : ∀ d ∈ ['0' :: g], IsGroup d)
    (hNe : g ≠ [])
    (hOctal : ∀ c ∈ '0' :: g, c ≤ '7') :
    plainOf ⟨'0' :: g, [], groups⟩ =
      .ok (.int (Yaml.Numeral.digitsValue 8 ('0' :: g) : Nat)) := by
  have hGroup : IsGroup ('0' :: g) := groups _ (by simp)
  have hChars : Version.chars ⟨'0' :: g, [], groups⟩ = '0' :: g :=
    List.append_nil _
  have hAll : ('0' :: g).all (· ≤ '7') = true :=
    List.all_eq_true.mpr fun c hMem => decide_eq_true (hOctal c hMem)
  unfold plainOf
  rw [hChars, Version.ofPlain_one hGroup, hAll, Bool.or_true,
    if_pos rfl]
  show (Scalar.intOf (Text.ofChars ('0' :: g))).map Scalar.int = _
  rw [Scalar.intOf_octal hGroup hNe
    (List.forall_mem_cons.mp hOctal).2]
  rfl

theorem chars_two
    {groups : ∀ d ∈ [g, h], IsGroup d} :
    Version.chars ⟨g, [h], groups⟩ = g ++ '.' :: h := by
  simp [Version.chars]

/- Two groups, as the nearest floating-point number. -/
theorem plainOf_two
    {groups : ∀ d ∈ [g, h], IsGroup d} :
    plainOf ⟨g, [h], groups⟩ =
      .ok
        (.float
          (.ofDecimal false (Json.digitsValue (g ++ h))
            (-(h.length : Int)))) := by
  have hG : IsGroup g := groups g (by simp)
  have hH : IsGroup h := groups h (by simp)
  have hFloat := Scalar.floatOf_point hG hH
  unfold plainOf
  rw [chars_two, Version.ofPlain_two hG hH]
  show (Scalar.floatOf (Text.ofChars (g ++ '.' :: h))).map _ = _
  rw [hFloat]
  rfl

theorem exists_plainOf_two
    {groups : ∀ d ∈ [g, h], IsGroup d}
    (hKept : Version.IsKept ⟨g, [h], groups⟩)
    (hShort : Version.IsShort ⟨g, [h], groups⟩) :
    ∃ s,
      plainOf ⟨g, [h], groups⟩ = .ok s ∧
        versionOf (some (.scalar s)) =
          .ok (some (Text.ofChars (g ++ '.' :: h))) := by
  have hUsual : Pointed.IsUsual ⟨g, h⟩ := hKept
  have hFew : (g ++ h).length ≤ 15 := by
    have hCount := hShort rfl
    simpa [Version.digitCount] using hCount
  refine ⟨_, plainOf_two, ?_⟩
  rw [versionOf_float, hUsual.write_eq hFew,
    Text.ofString_ofList]
  rfl

/- A version that is kept names itself without quotes. -/
theorem exists_plainOf
    (hKept : v.IsKept)
    (hShort : v.IsShort) :
    ∃ s,
      plainOf v = .ok s ∧
        versionOf (some (.scalar s)) =
          .ok (some (Text.ofChars v.chars)) := by
  have hNe := v.chars_ne_nil
  rcases v with ⟨g, others, groups⟩
  rcases others with _ | ⟨h, _ | ⟨next, others⟩⟩
  · have hChars : Version.chars ⟨g, [], groups⟩ = g :=
      List.append_nil g
    rw [hChars]
    exact exists_plainOf_one hKept
  · rw [chars_two]
    exact exists_plainOf_two hKept hShort
  · exact ⟨_, plainOf_str (Version.ofPlain_more (by simp)),
      versionOf_ofChars hNe⟩

theorem write_of_versionOf
    {x : Binary64}
    (hVersion :
      versionOf (some (.scalar (.float x))) =
        .ok (some (Text.ofChars g))) :
    NumberFormat.usual.write x = String.ofList g := by
  rw [versionOf_float, ← Text.ofString_ofList] at hVersion
  exact Text.ofString_injective
    (Option.some.inj (Except.ok.inj hVersion))

theorem toDigits_of_versionOf
    {n : Nat}
    (hVersion :
      versionOf (some (.scalar (.int n))) =
        .ok (some (Text.ofChars g))) :
    Nat.toDigits 10 n = g := by
  rw [versionOf_nat] at hVersion
  split at hVersion
  · cases hVersion
  · exact Text.ofChars_injective
      (Option.some.inj (Except.ok.inj hVersion))

/- One group that names itself. -/
theorem isKept_one
    {groups : ∀ d ∈ [g], IsGroup d}
    {s : Scalar}
    (hPlain : plainOf ⟨g, [], groups⟩ = .ok s)
    (hSame :
      versionOf (some (.scalar s)) =
        .ok (some (Text.ofChars g))) :
    Version.IsKept ⟨g, [], groups⟩ := by
  by_cases hHead : g.head? = some '0'
  · refine Or.inl ⟨hHead, ?_⟩
    by_contra hNone
    rw [not_or] at hNone
    rcases List.head?_eq_some_iff.mp hHead with ⟨more, rfl⟩
    have hMore : more ≠ [] := by
      rintro rfl
      exact hNone.1 rfl
    have hOctal : ∀ c ∈ '0' :: more, c ≤ '7' := fun c hMem =>
      Char.not_lt.mp fun hLess => hNone.2 ⟨c, hMem, hLess⟩
    rw [plainOf_octal groups hMore hOctal] at hPlain
    cases hPlain
    -- No number above zero is written with a zero in front.
    have hDigits := toDigits_of_versionOf hSame
    rcases Json.isWhole_toDigits
        (Yaml.Numeral.digitsValue 8 ('0' :: more)) with
      hZero | hLeading
    · rw [hDigits] at hZero
      exact hNone.1 hZero
    · rw [hDigits] at hLeading
      rcases hLeading.first with ⟨d, rest, hCons, hFirst⟩
      exact hFirst (List.cons.inj hCons).1.symm
  · refine Or.inr ⟨hHead, ?_⟩
    by_contra hLong
    have hGroup : IsGroup g := groups g (by simp)
    have hChars : Version.chars ⟨g, [], groups⟩ = g :=
      List.append_nil g
    unfold plainOf at hPlain
    rw [hChars, Version.ofPlain_one hGroup] at hPlain
    have hTest : (g.head? != some '0') = true := by
      simp [hHead]
    have hInt := Scalar.intOf_decimal hGroup hHead
    rw [if_pos (not_le.mp hLong)] at hInt
    rw [hTest, Bool.true_or, if_pos rfl] at hPlain
    have hValue :
        (Scalar.intOf (Text.ofChars g)).map Scalar.int = .ok s :=
      hPlain
    rw [hInt] at hValue
    cases hValue

/- A version that names itself without quotes is kept. -/
theorem isKept_of_versionOf
    {s : Scalar}
    (hPlain : plainOf v = .ok s)
    (hSame :
      versionOf (some (.scalar s)) =
        .ok (some (Text.ofChars v.chars))) :
    v.IsKept := by
  rcases v with ⟨g, others, groups⟩
  rcases others with _ | ⟨h, _ | ⟨next, others⟩⟩
  · have hChars : Version.chars ⟨g, [], groups⟩ = g :=
      List.append_nil g
    rw [hChars] at hSame
    exact isKept_one hPlain hSame
  · have hG : IsGroup g := groups g (by simp)
    have hH : IsGroup h := groups h (by simp)
    rw [plainOf_two] at hPlain
    cases hPlain
    rw [chars_two] at hSame
    exact Pointed.isUsual_of_write
      (Binary64.isCanonical_ofDecimal _ _ _)
      (show ∀ c ∈ (Pointed.mk g h).whole, _ from hG.digits)
      hH.digits (write_of_versionOf hSame)
  · trivial

------------------------------------------------------------
-- Words for Choices
------------------------------------------------------------

/- The spellings of a word in small and capital letters. -/
def spellings : List Char → List (List Char)
  | [] => [[]]
  | c :: rest =>
      (spellings rest).flatMap fun w => [c :: w, c.toUpper :: w]

/- The letters of the words for choices. -/
def choiceLetters : List Char :=
  "truefalsyno10".toList

theorem mem_spellings
    {w small : List Char}
    (hWord : ∀ c ∈ w, Row.isWordChar c = true)
    (hLetters : ∀ c ∈ small, c ∈ choiceLetters)
    (hLower : w.map Char.toLower = small) :
    w ∈ spellings small := by
  have hAll :
      ∀ n < 128, ∀ d ∈ choiceLetters,
        (Char.ofNat n).toLower = d →
          Char.ofNat n = d ∨ Char.ofNat n = d.toUpper := by
    decide
  induction w generalizing small with
  | nil =>
      subst hLower
      simp [spellings]
  | cons c w ih =>
      subst hLower
      rcases List.forall_mem_cons.mp hWord with ⟨hFirst, hMore⟩
      rcases List.forall_mem_cons.mp hLetters with ⟨hLetter, hRest⟩
      have hCase :=
        hAll c.toNat (Row.toNat_lt_of_isWordChar hFirst) c.toLower
      rw [Char.ofNat_toNat] at hCase
      show _ ∈ (spellings (w.map Char.toLower)).flatMap _
      rw [List.mem_flatMap]
      refine ⟨w, ih hMore hRest rfl, ?_⟩
      rcases hCase hLetter rfl with hSmall | hCapital
      · rw [List.mem_cons]
        left
        rw [← hSmall]
      · rw [List.mem_cons, List.mem_singleton]
        right
        rw [← hCapital]

/- A word for a choice is one of its spellings. -/
theorem exists_spelling
    {w : List Char}
    {b : Bool}
    (hWord : ∀ c ∈ w, Row.isWordChar c = true)
    (hChoice : choiceOfWord w = some b) :
    ∃ small : String,
      (small, b) ∈ choiceWords ∧ w ∈ spellings small.toList := by
  have hTrim : Blank.trim w = w := by
    have hBlank : ∀ c ∈ w, isBlank c = false := fun c hMem =>
      isBlank_of_isWordChar (hWord c hMem)
    unfold Blank.trim
    rw [Yaml.Numeral.dropWhile_eq hBlank,
      Yaml.Numeral.dropWhile_eq fun c hMem =>
        hBlank c (List.mem_reverse.mp hMem),
      List.reverse_reverse]
  have hMem := (choiceOfWord_eq_some_iff w b).mp hChoice
  rw [hTrim] at hMem
  have hLetters :
      ∀ p ∈ choiceWords, ∀ c ∈ p.1.toList, c ∈ choiceLetters := by
    decide
  have hLower := hLetters _ hMem
  rw [String.toList_ofList] at hLower
  refine ⟨_, hMem, ?_⟩
  rw [String.toList_ofList]
  exact mem_spellings hWord hLower rfl

/- The choice that a word makes without quotes. -/
def plainChoice? (w : List Char) : Option (Option Bool) :=
  (Scalar.ofTag (Tag.ofPlain (Text.ofChars w))
    (Text.ofChars w)).toOption.map fun s =>
      choiceOf (some (.scalar s))

/-
  Without quotes every spelling of a word makes the choice
  that it makes in quotes, but a digit makes none.
-/
theorem plainChoice?_spellings :
    ∀ p ∈ choiceWords, ∀ w ∈ spellings p.1.toList,
      plainChoice? w =
        some (if w = ['1'] ∨ w = ['0'] then none else some p.2) := by
  decide +kernel

/- What a word makes in quotes it makes without them. -/
theorem exists_plain_choice
    {w : List Char}
    {b : Bool}
    (hWord : ∀ c ∈ w, Row.isWordChar c = true)
    (hChoice : choiceOfWord w = some b) :
    ∃ s,
      Scalar.ofTag (Tag.ofPlain (Text.ofChars w))
          (Text.ofChars w) = .ok s ∧
        choiceOf (some (.scalar s)) =
          if w = ['1'] ∨ w = ['0'] then none else some b := by
  rcases exists_spelling hWord hChoice with
    ⟨small, hMem, hSpelling⟩
  have hPlain := plainChoice?_spellings _ hMem w hSpelling
  unfold plainChoice? at hPlain
  cases hValue :
      Scalar.ofTag (Tag.ofPlain (Text.ofChars w))
        (Text.ofChars w) with
  | error fault =>
      rw [hValue] at hPlain
      cases hPlain
  | ok s =>
      rw [hValue] at hPlain
      exact ⟨s, rfl, Option.some.inj hPlain⟩

------------------------------------------------------------
-- Rows of Settings
------------------------------------------------------------

/- The settings that are choices. -/
def choiceNames : List String :=
  ["remove_legacy", "clean_comments", "run_fix"]

/- The row of a version. -/
def versionRow
    (quoted : Bool)
    (v : Version) : Row where
  key := "biome_version".toList
  quoted := quoted
  word := v.chars

/- The row of a choice. -/
def choiceRow
    (quoted : Bool)
    (name : String)
    (word : List Char) : Row where
  key := name.toList
  quoted := quoted
  word := word

/- The names of settings are words that stand for themselves. -/
theorem names_spec :
    ∀ name ∈ "biome_version" :: choiceNames,
      (∀ c ∈ name.toList, Row.isKeyChar c = true) ∧
        name.toList ≠ [] ∧ name.toList.length ≤ 1024 ∧
        Tag.ofPlain (Text.ofChars name.toList) = .str := by
  decide +kernel

theorem isNamed_mk
    {name : String}
    (hName : name ∈ "biome_version" :: choiceNames)
    (quoted : Bool)
    {word : List Char}
    (hNe : word ≠ [])
    (hWord : ∀ c ∈ word, Row.isWordChar c = true) :
    IsNamed ⟨name.toList, quoted, word⟩ := by
  rcases names_spec name hName with ⟨hKey, hSome, hLength, hTag⟩
  exact ⟨⟨hSome, hLength, hKey, hNe, hWord⟩, hTag⟩

theorem isNamed_versionRow
    (quoted : Bool)
    (v : Version) :
    IsNamed (versionRow quoted v) := by
  apply isNamed_mk (by simp)
  · exact v.chars_ne_nil
  · intro c hMem
    have hNumeric := v.isNumericText c hMem
    simp only [Yaml.isNumeric, Bool.or_eq_true] at hNumeric
    rcases hNumeric with hDigit | hPoint
    · simp [Row.isWordChar, Row.isKeyChar, Char.isAlphanum, hDigit]
    · simp [Row.isWordChar, hPoint]

theorem isNamed_choiceRow
    (quoted : Bool)
    {name : String}
    (hName : name ∈ choiceNames)
    {w : List Char}
    {b : Bool}
    (hWord : ∀ c ∈ w, Row.isWordChar c = true)
    (hChoice : choiceOfWord w = some b) :
    IsNamed (choiceRow quoted name w) := by
  apply isNamed_mk (List.mem_cons_of_mem _ hName) _ _ hWord
  rintro rfl
  have hNone : choiceOfWord [] = none := by decide
  rw [hNone] at hChoice
  cases hChoice

/- A quoted word is the value of its row. -/
theorem member_quoted
    (name : String)
    (word : List Char) :
    Row.member ⟨name.toList, true, word⟩ =
      .ok
        (.text (Text.ofString name),
          .scalar (.text (Text.ofChars word))) := rfl

theorem member_plain
    {name : String}
    {word : List Char}
    {s : Scalar}
    (hValue :
      Scalar.ofTag (Tag.ofPlain (Text.ofChars word))
        (Text.ofChars word) = .ok s) :
    Row.member ⟨name.toList, false, word⟩ =
      .ok (.text (Text.ofString name), .scalar s) := by
  show (Scalar.ofTag (Tag.ofPlain (Text.ofChars word))
    (Text.ofChars word)).bind _ = _
  rw [hValue]
  rfl

/- The settings of a version alone. -/
theorem ofEntries_version (x : Yaml.Value) :
    ofEntries [(.text (Text.ofString "biome_version"), x)] =
      (versionOf (some x)).map fun version? =>
        { standard with
          version := version?.getD standard.version } := by
  show (versionOf (some x)).bind _ = _
  cases versionOf (some x) with
  | error failure => rfl
  | ok version? => rfl

/- In quotes a version is kept. -/
theorem ofRows_quoted_version
    (depths : Yaml.Depths)
    (file : String)
    (v : Version) :
    ofRows depths file [versionRow true v] =
      .ok { standard with version := Text.ofChars v.chars } := by
  rw [ofRows_single_ok depths file (isNamed_versionRow true v)
      (member_quoted "biome_version" v.chars),
    ofEntries_version, versionOf_ofChars v.chars_ne_nil]
  rfl

/- The points of a version tell how many groups it has. -/
theorem count_point (v : Version) :
    v.chars.count '.' = v.others.length := by
  have hGroup :
      ∀ d : List Char, IsGroup d → d.count '.' = 0 := by
    intro d hD
    apply List.count_eq_zero.mpr
    intro hMem
    have hDigit := hD.2 '.' hMem
    cases hDigit
  rcases v with ⟨g, others, groups⟩
  rcases List.forall_mem_cons.mp groups with ⟨hFirst, hMore⟩
  show (g ++ others.flatMap ('.' :: ·)).count '.' = others.length
  rw [List.count_append, hGroup g hFirst, Nat.zero_add]
  clear groups hFirst
  induction others with
  | nil => rfl
  | cons h others ih =>
      rcases List.forall_mem_cons.mp hMore with ⟨hH, hRest⟩
      rw [List.flatMap_cons, List.count_append, ih hRest,
        List.count_cons_self, hGroup h hH, List.length_cons]
      omega

/- The standard version has three groups. -/
theorem isKept_of_standard
    (hSame : standard.version = Text.ofChars v.chars) :
    v.IsKept := by
  have hChars : v.chars = ['2', '.', '3', '.', '8'] := by
    have hText :
        Text.ofChars ['2', '.', '3', '.', '8'] =
          Text.ofChars v.chars :=
      hSame
    exact (Text.ofChars_injective hText).symm
  have hTwo : List.count '.' ['2', '.', '3', '.', '8'] = 2 := by
    decide
  have hCount := count_point v
  rw [hChars, hTwo] at hCount
  rcases v with ⟨g, others, groups⟩
  rcases others with _ | ⟨h, _ | ⟨next, others⟩⟩
  · cases hCount
  · cases hCount
  · trivial

/- Without quotes only a version that is kept names itself. -/
theorem isKept_of_ofRows
    {depths : Yaml.Depths}
    {file : String}
    (hSame :
      ofRows depths file [versionRow false v] =
        .ok { standard with version := Text.ofChars v.chars }) :
    v.IsKept := by
  cases hPlain : plainOf v with
  | error fault =>
      have hMember : (versionRow false v).member = .error fault := by
        show (plainOf v).bind _ = _
        rw [hPlain]
        rfl
      rw [ofRows_single_error depths file (isNamed_versionRow false v)
        hMember] at hSame
      cases hSame
  | ok s =>
      rw [ofRows_single_ok depths file (isNamed_versionRow false v)
          (member_plain hPlain), ofEntries_version] at hSame
      cases hVersion : versionOf (some (.scalar s)) with
      | error failure =>
          rw [hVersion] at hSame
          cases hSame
      | ok version? =>
          rw [hVersion] at hSame
          have hText :
              version?.getD standard.version =
                Text.ofChars v.chars :=
            congrArg Settings.version (Except.ok.inj hSame)
          cases version? with
          | none => exact isKept_of_standard hText
          | some text =>
              apply isKept_of_versionOf hPlain
              rw [hVersion]
              exact congrArg (Except.ok ∘ some) hText

/- A version that is kept needs no quotes. -/
theorem agree_version
    (hKept : v.IsKept)
    (hShort : v.IsShort) :
    ∃ s,
      plainOf v = .ok s ∧
        Agree "biome_version" (.scalar s)
          (.scalar (.text (Text.ofChars v.chars))) := by
  rcases exists_plainOf hKept hShort with ⟨s, hPlain, hVersion⟩
  refine ⟨s, hPlain, fun _ => ?_, fun hOther => (hOther rfl).elim⟩
  rw [hVersion, versionOf_ofChars v.chars_ne_nil]

/- A word for a choice that is no digit needs no quotes. -/
theorem agree_choice
    {name : String}
    (hName : name ∈ choiceNames)
    {w : List Char}
    {b : Bool}
    (hWord : ∀ c ∈ w, Row.isWordChar c = true)
    (hChoice : choiceOfWord w = some b)
    (hDigit : w ≠ ['1'] ∧ w ≠ ['0']) :
    ∃ s,
      Scalar.ofTag (Tag.ofPlain (Text.ofChars w))
          (Text.ofChars w) = .ok s ∧
        Agree name (.scalar s)
          (.scalar (.text (Text.ofChars w))) := by
  have hOther : name ≠ "biome_version" := by
    rintro rfl
    exact absurd hName (by decide)
  rcases exists_plain_choice hWord hChoice with
    ⟨s, hPlain, hSame⟩
  rw [if_neg (by rw [not_or]; exact hDigit)] at hSame
  refine ⟨s, hPlain, fun h => (hOther h).elim, fun _ => ?_⟩
  rw [hSame]
  show _ = (Text.ofChars w).chars?.bind choiceOfWord
  rw [Text.chars?_ofChars]
  exact hChoice.symm

/- A value that makes no choice counts for nothing. -/
theorem ofEntries_no_choice
    {name : String}
    (hName : name ∈ choiceNames)
    {x : Yaml.Value}
    (hNone : choiceOf (some x) = none) :
    ofEntries [(.text (Text.ofString name), x)] = .ok standard := by
  have hOther : name ≠ "biome_version" := by
    rintro rfl
    exact absurd hName (by decide)
  have hGet :
      ∀ key, name ≠ key →
        Yaml.Entries.get? [(.text (Text.ofString name), x)] key =
          none := by
    intro key hNe
    have hMiddle :=
      Yaml.Entries.get?_middle [] [] (.text (Text.ofString name)) x
        key
    rw [if_neg fun hSame =>
      hNe (Text.ofString_injective (Scalar.text.inj hSame))] at hMiddle
    exact hMiddle
  have hChoice :
      ∀ key,
        choiceOf
            (Yaml.Entries.get?
              [(.text (Text.ofString name), x)] key) =
          none := by
    intro key
    by_cases hSame : name = key
    · have hMiddle :=
        Yaml.Entries.get?_middle [] []
          (.text (Text.ofString name)) x key
      rw [hSame, if_pos rfl] at hMiddle
      rw [hSame]
      exact (congrArg choiceOf hMiddle).trans hNone
    · rw [hGet key hSame]
      rfl
  unfold ofEntries
  rw [hGet _ hOther, hChoice, hChoice, hChoice]
  rfl

------------------------------------------------------------
-- Quotes
------------------------------------------------------------

/-
  In quotes a version is kept. Without them it is kept at
  most if it is written as the number that it is, and then,
  unless it is a decimal of many digits, quotes make no
  difference in any file. They make none for the words of a
  choice either, but for the digits, which count for nothing
  without them.
-/
theorem quotes_keep_settings
    (depths : Yaml.Depths)
    (file : String) :
    (∀ v : Version,
      ofRows depths file [versionRow true v] =
        .ok
          { standard with version := Text.ofChars v.chars }) ∧
    (∀ v : Version,
      ofRows depths file [versionRow false v] =
          .ok
            { standard with version := Text.ofChars v.chars } →
        v.IsKept) ∧
    (∀ (before after : List Row) (v : Version),
      (∀ r ∈ before ++ after, IsNamed r) →
        v.IsKept → v.IsShort →
          ofRows depths file (before ++ versionRow false v :: after) =
            ofRows depths file
              (before ++ versionRow true v :: after)) ∧
    (∀ (before after : List Row) (name : String)
        (w : List Char) (b : Bool),
      (∀ r ∈ before ++ after, IsNamed r) →
        name ∈ choiceNames →
          (∀ c ∈ w, Row.isWordChar c = true) →
            choiceOfWord w = some b → w ≠ ['1'] ∧ w ≠ ['0'] →
              ofRows depths file
                  (before ++ choiceRow false name w :: after) =
                ofRows depths file
                  (before ++ choiceRow true name w :: after)) ∧
    ∀ name ∈ choiceNames, ∀ w ∈ [['1'], ['0']],
      ofRows depths file [choiceRow false name w] = .ok standard := by
  refine ⟨ofRows_quoted_version depths file,
    fun v hSame => isKept_of_ofRows hSame, ?_, ?_, ?_⟩
  · intro before after v hNamed hKept hShort
    rcases agree_version hKept hShort with ⟨s, hPlain, hAgree⟩
    apply ofRows_congr depths file _ (isNamed_versionRow true v)
      (member_plain hPlain) (member_quoted "biome_version" v.chars)
      hAgree
    intro r hMem
    rcases List.mem_append.mp hMem with hBefore | hMore
    · exact hNamed r (List.mem_append_left _ hBefore)
    · rcases List.mem_cons.mp hMore with rfl | hAfter
      · exact isNamed_versionRow false v
      · exact hNamed r (List.mem_append_right _ hAfter)
  · intro before after name w b hNamed hName hWord hChoice hDigit
    rcases agree_choice hName hWord hChoice hDigit with
      ⟨s, hPlain, hAgree⟩
    apply ofRows_congr depths file _
      (isNamed_choiceRow true hName hWord hChoice)
      (member_plain hPlain) (member_quoted name w) hAgree
    intro r hMem
    rcases List.mem_append.mp hMem with hBefore | hMore
    · exact hNamed r (List.mem_append_left _ hBefore)
    · rcases List.mem_cons.mp hMore with rfl | hAfter
      · exact isNamed_choiceRow false hName hWord hChoice
      · exact hNamed r (List.mem_append_right _ hAfter)
  · intro name hName w hDigit
    have hChoice :
        ∃ b,
          (∀ c ∈ w, Row.isWordChar c = true) ∧
            choiceOfWord w = some b ∧ (w = ['1'] ∨ w = ['0']) := by
      simp only [List.mem_cons, List.not_mem_nil, or_false]
        at hDigit
      rcases hDigit with rfl | rfl
      · exact ⟨true, by decide, by decide, by decide⟩
      · exact ⟨false, by decide, by decide, by decide⟩
    rcases hChoice with ⟨b, hWord, hWords, hEither⟩
    rcases exists_plain_choice hWord hWords with ⟨s, hPlain, hNone⟩
    rw [if_pos hEither] at hNone
    rw [ofRows_single_ok depths file
        (isNamed_choiceRow false hName hWord hWords)
        (member_plain hPlain)]
    exact ofEntries_no_choice hName hNone

/- A version with two groups. -/
def twoNine : Version where
  first := ['2']
  others := [['9']]
  groups := by decide

/- Quotes make no difference to a version behind a choice. -/
theorem quotes_keep_twoNine :
    (∀ r ∈ [choiceRow false "run_fix" "NO".toList] ++ [],
      IsNamed r) ∧
    twoNine.IsKept ∧ twoNine.IsShort ∧
    ofRows Depths.usual.yaml fileName
        ([choiceRow false "run_fix" "NO".toList] ++
          versionRow false twoNine :: []) =
      ofRows Depths.usual.yaml fileName
        ([choiceRow false "run_fix" "NO".toList] ++
          versionRow true twoNine :: []) := by
  have hNamed :
      ∀ r ∈ [choiceRow false "run_fix" "NO".toList] ++ [],
        IsNamed r := by
    intro r hMem
    rw [List.append_nil, List.mem_singleton] at hMem
    subst hMem
    exact isNamed_choiceRow (b := false) false (by decide)
      (by decide) (by decide)
  have hKept : twoNine.IsKept :=
    show Pointed.IsUsual ⟨['2'], ['9']⟩ from
      { whole :=
          Or.inr ⟨by decide, '2', [], rfl, by decide⟩
        digits := by decide
        ne_nil := by decide
        last := by decide
        near := by decide }
  have hShort : twoNine.IsShort := fun _ => by decide
  exact ⟨hNamed, hKept, hShort,
    (quotes_keep_settings Depths.usual.yaml fileName).2.2.1
      [choiceRow false "run_fix" "NO".toList] [] twoNine hNamed
      hKept hShort⟩

/- A version whose second group ends in a zero. -/
def twoTen : Version where
  first := ['2']
  others := [['1', '0']]
  groups := by decide

/- Without quotes the version 2.10 is the version 2.1. -/
theorem not_same_twoTen :
    ¬ ∀ v : Version,
        ofRows Depths.usual.yaml fileName [versionRow false v] =
            ofRows Depths.usual.yaml fileName [versionRow true v] ∧
          ofRows Depths.usual.yaml fileName [versionRow false v] =
            .ok
              { standard with version := Text.ofChars v.chars } := by
  intro hSame
  have hPlain := @plainOf_two ['2'] ['1', '0'] twoTen.groups
  have hWrite :
      NumberFormat.usual.write
          (.ofDecimal false
            (Json.digitsValue (['2'] ++ ['1', '0']))
            (-(['1', '0'].length : Int))) = "2.1" := by
    decide +kernel
  have hVersion := versionOf_float
    (.ofDecimal false (Json.digitsValue (['2'] ++ ['1', '0']))
      (-(['1', '0'].length : Int)))
  rw [hWrite] at hVersion
  have hOne :
      ofRows Depths.usual.yaml fileName [versionRow false twoTen] =
        .ok { standard with version := "2.1" } := by
    rw [ofRows_single_ok _ fileName
        (isNamed_versionRow false twoTen) (member_plain hPlain),
      ofEntries_version, hVersion]
    rfl
  have hTexts :
      .ok { standard with version := "2.1" } =
        (.ok { standard with version := "2.10" } :
          Except Failure Settings) :=
    hOne.symm.trans (hSame twoTen).2
  have hVersions := congrArg version (Except.ok.inj hTexts)
  exact absurd hVersions (by decide)

end Settings

end BiomeMigration
