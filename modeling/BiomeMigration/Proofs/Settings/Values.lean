import BiomeMigration.Proofs.Text.Encoding
import BiomeMigration.Settings

/-
  What the values of a settings file stand for: the version
  that a value names and the choice that it makes. Settings
  are taken from these and from nothing else.

  Main declarations:
    * `Settings.NamesVersion`
    * `Settings.MakesChoice`
    * `Settings.versionOf_spec`
    * `Settings.choiceOf_spec`
    * `Settings.of_ofEntries`
-/

------------------------------------------------------------
-- Names and Choices
------------------------------------------------------------

namespace BiomeMigration

namespace Settings

/- A value names a version: text that is not empty, or a number. -/
inductive NamesVersion : Yaml.Value → Text → Prop where
  | text
      {t : Text}
      (hNe : t ≠ []) :
      NamesVersion (.scalar (.text t)) t
  | int (n : Int) : NamesVersion (.scalar (.int n)) (toString n)
  | float (x : Binary64) :
      NamesVersion (.scalar (.float x)) (NumberFormat.usual.write x)

/-
  A value makes a choice: a truth value, or a text that is a
  word for it in small or capital letters, with blanks around
  it or none.
-/
inductive MakesChoice : Yaml.Value → Bool → Prop where
  | bool (b : Bool) : MakesChoice (.scalar (.bool b)) b
  | word
      {cs : List Char}
      {b : Bool}
      (hWord :
        (String.ofList (Blank.lower (Blank.trim cs)), b) ∈
          choiceWords) :
      MakesChoice (.scalar (.text (Text.ofChars cs))) b

/- The value of a key names a version. -/
def Names
    (entries : Yaml.Entries)
    (version : Text) : Prop :=
  ∃ v,
    entries.get? "biome_version" = some v ∧
      NamesVersion v version

/- The value of a key makes a choice. -/
def Chooses
    (entries : Yaml.Entries)
    (key : String)
    (b : Bool) : Prop :=
  ∃ v, entries.get? key = some v ∧ MakesChoice v b

/- A whole number that cannot be written stands for the version. -/
def HasLongVersion (entries : Yaml.Entries) : Prop :=
  ∃ n : Int,
    entries.get? "biome_version" = some (.scalar (.int n)) ∧
      10 ^ Digit.limit ≤ n.natAbs

------------------------------------------------------------
-- Versions of Values
------------------------------------------------------------

theorem ofList_ne
    {cs : List Char}
    (hNe : cs ≠ []) :
    String.ofList cs ≠ "" := by
  intro hSame
  have hList := congrArg String.toList hSame
  rw [String.toList_ofList] at hList
  exact hNe hList

theorem ofString_ne
    {s : String}
    (hNe : s ≠ "") :
    Text.ofString s ≠ [] := by
  intro hNil
  exact hNe (String.toList_eq_nil_iff.mp (List.map_eq_nil_iff.mp hNil))

theorem toString_ne (n : Int) : toString n ≠ "" := by
  cases n with
  | ofNat m =>
      exact @ofList_ne (Nat.toDigits 10 m) Nat.toDigits_ne_nil
  | negSucc m =>
      intro hSame
      have hList := congrArg String.toList hSame
      have hText :
          toString (Int.negSucc m) = "-" ++ toString (m + 1) := rfl
      rw [hText, String.toList_append] at hList
      simp at hList

theorem write_ne (x : Binary64) :
    NumberFormat.usual.write x ≠ "" := by
  have hLayout :
      ∀ d, NumberFormat.usual.layout d ≠ [] := by
    intro d
    unfold NumberFormat.layout NumberFormat.positional
      NumberFormat.scientific
    dsimp only
    repeat' split
    all_goals simp
  cases x with
  | nan => decide
  | infinite negative =>
      cases negative with
      | false => decide
      | true => decide
  | finite negative mantissa exponent =>
      apply ofList_ne
      split
      · simp
      · split
        · simp
        · exact hLayout _

theorem keep_eq
    {t : Text}
    (hNe : t ≠ []) :
    (if t.isEmpty then none else some t) = some t :=
  if_neg (by simpa using hNe)

theorem versionOf_text
    {t : Text}
    (hNe : t ≠ []) :
    versionOf (some (.scalar (.text t))) = .ok (some t) :=
  congrArg Except.ok (keep_eq hNe)

theorem versionOf_int (n : Int) :
    versionOf (some (.scalar (.int n))) =
      (writeInt n).map fun text => some (Text.ofString text) := by
  show ((writeInt n).map Text.ofString).bind (fun text =>
    .ok (if text.isEmpty then none else some text)) = _
  unfold writeInt
  split
  · rfl
  · exact congrArg Except.ok
      (keep_eq (ofString_ne (toString_ne n)))

theorem versionOf_float (x : Binary64) :
    versionOf (some (.scalar (.float x))) =
      .ok (some (Text.ofString (NumberFormat.usual.write x))) :=
  congrArg Except.ok (keep_eq (ofString_ne (write_ne x)))

/- What a value names is its version, if it has one. -/
theorem versionOf_names
    {v : Yaml.Value}
    {version : Text}
    (hNames : NamesVersion v version)
    {version? : Option Text}
    (hVersion : versionOf (some v) = .ok version?) :
    version? = some version := by
  cases hNames with
  | text hNe =>
      rw [versionOf_text hNe] at hVersion
      exact (Except.ok.inj hVersion).symm
  | int n =>
      rw [versionOf_int] at hVersion
      unfold writeInt at hVersion
      split at hVersion
      · cases hVersion
      · exact (Except.ok.inj hVersion).symm
  | float x =>
      rw [versionOf_float] at hVersion
      exact (Except.ok.inj hVersion).symm

/- A value with a version names it. -/
theorem names_of_versionOf
    {value? : Option Yaml.Value}
    {version : Text}
    (hVersion : versionOf value? = .ok (some version)) :
    ∃ v, value? = some v ∧ NamesVersion v version := by
  cases value? with
  | none => cases hVersion
  | some v =>
      refine ⟨v, rfl, ?_⟩
      cases v with
      | collection => cases hVersion
      | scalar scalar =>
          cases scalar with
          | text t =>
              have hNe : t ≠ [] := by
                rintro rfl
                cases hVersion
              rw [versionOf_text hNe] at hVersion
              cases hVersion
              exact .text hNe
          | int n =>
              rw [versionOf_int] at hVersion
              unfold writeInt at hVersion
              split at hVersion
              · cases hVersion
              · cases hVersion
                exact .int n
          | float x =>
              rw [versionOf_float] at hVersion
              cases hVersion
              exact .float x
          | _ => cases hVersion

/- The version of a value is the one that it names, if any. -/
theorem versionOf_spec
    {value? : Option Yaml.Value}
    {version? : Option Text}
    (hVersion : versionOf value? = .ok version?)
    (version : Text) :
    version? = some version ↔
      ∃ v, value? = some v ∧ NamesVersion v version := by
  constructor
  · rintro rfl
    exact names_of_versionOf hVersion
  · rintro ⟨v, rfl, hNames⟩
    exact versionOf_names hNames hVersion

------------------------------------------------------------
-- Choices of Values
------------------------------------------------------------

/- A word makes at most one choice. -/
theorem choiceOfWord_eq_some_iff
    (cs : List Char)
    (b : Bool) :
    choiceOfWord cs = some b ↔
      (String.ofList (Blank.lower (Blank.trim cs)), b) ∈
        choiceWords := by
  unfold choiceOfWord
  dsimp only
  generalize String.ofList (Blank.lower (Blank.trim cs)) = word
  constructor
  · intro hFound
    rcases List.lookup_eq_some_iff.mp hFound with
      ⟨front, back, hWords, _⟩
    rw [hWords]
    simp
  · intro hMem
    have hAll :
        ∀ p ∈ choiceWords, choiceWords.lookup p.1 = some p.2 := by
      decide
    exact hAll _ hMem

/- The choice of a value is the one that it makes, if any. -/
theorem choiceOf_spec
    (value? : Option Yaml.Value)
    (b : Bool) :
    choiceOf value? = some b ↔
      ∃ v, value? = some v ∧ MakesChoice v b := by
  constructor
  · intro hChoice
    unfold choiceOf at hChoice
    split at hChoice
    · next c =>
        rcases Option.some.inj hChoice with rfl
        exact ⟨_, rfl, .bool c⟩
    · next t =>
        rcases Option.bind_eq_some_iff.mp hChoice with
          ⟨cs, hChars, hWord⟩
        rw [Text.eq_ofChars hChars]
        exact ⟨_, rfl,
          .word ((choiceOfWord_eq_some_iff cs b).mp hWord)⟩
    · cases hChoice
  · rintro ⟨v, rfl, hMakes⟩
    cases hMakes with
    | bool => rfl
    | word hWord =>
        show (Text.chars? _).bind choiceOfWord = some b
        rw [Text.chars?_ofChars]
        exact (choiceOfWord_eq_some_iff _ b).mpr hWord

------------------------------------------------------------
-- Settings of Members
------------------------------------------------------------

/- The settings of members, once the version has been named. -/
theorem of_ofEntries
    {entries : Yaml.Entries}
    {settings : Settings}
    (hSettings : ofEntries entries = .ok settings) :
    ∃ version?,
      versionOf (entries.get? "biome_version") = .ok version? ∧
        settings =
          { version := version?.getD standard.version
            removeLegacy? := choiceOf (entries.get? "remove_legacy")
            cleanComments? :=
              choiceOf (entries.get? "clean_comments")
            runFix :=
              (choiceOf (entries.get? "run_fix")).getD
                standard.runFix } := by
  have hBind :
      (versionOf (entries.get? "biome_version")).bind _ =
        .ok settings := hSettings
  cases hVersion : versionOf (entries.get? "biome_version") with
  | error failure =>
      rw [hVersion] at hBind
      cases hBind
  | ok version? =>
      rw [hVersion] at hBind
      exact ⟨version?, rfl, (Except.ok.inj hBind).symm⟩

end Settings

end BiomeMigration
