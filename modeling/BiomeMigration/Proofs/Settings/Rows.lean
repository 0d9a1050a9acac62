import BiomeMigration.Proofs.Settings.Loading
import BiomeMigration.Proofs.Text.Encoding
import BiomeMigration.Proofs.Yaml.Members

/-
  The settings that the text of rows makes. Two values of one
  key that a setting cannot tell apart make the same
  settings, wherever their row stands.

  Main declarations:
    * `Settings.ofRows`
    * `Settings.Agree`
    * `Settings.ofRows_congr`
-/

------------------------------------------------------------
-- Looking Up Members
------------------------------------------------------------

namespace BiomeMigration

namespace Yaml

namespace Entries

/- The last member with a key counts. -/
theorem get?_middle
    (before after : Entries)
    (k : Scalar)
    (v : Value)
    (key : String) :
    get? (before ++ (k, v) :: after) key =
      ((get? after key).or
        (if k = .text (Text.ofString key) then some v else none)).or
          (get? before key) := by
  unfold get?
  dsimp only
  rw [List.reverse_append, List.reverse_cons, List.find?_append,
    List.find?_append, List.find?_singleton, Option.map_or,
    Option.map_or]
  by_cases hSame : k = .text (Text.ofString key)
  · simp [hSame]
  · simp [hSame]

end Entries

end Yaml

------------------------------------------------------------
-- Settings of Members
------------------------------------------------------------

namespace Settings

open Yaml (Entries Row Scalar Value)

/-
  Two values of a key make the same setting: the setting
  that the key names cannot tell them apart.
-/
structure Agree (key : String) (v v' : Value) : Prop where
  version :
    key = "biome_version" →
      versionOf (some v) = versionOf (some v')
  choice :
    key ≠ "biome_version" →
      choiceOf (some v) = choiceOf (some v')

variable {key : String} {v v' : Value}

/- What is looked up is the same, or the two values. -/
theorem get?_cases
    (before after : Entries)
    (v v' : Value)
    (key name : String) :
    Entries.get?
          (before ++ (.text (Text.ofString key), v) :: after) name =
        Entries.get?
          (before ++ (.text (Text.ofString key), v') :: after)
          name ∨
      key = name ∧
        Entries.get?
            (before ++ (.text (Text.ofString key), v) :: after)
            name =
          some v ∧
        Entries.get?
            (before ++ (.text (Text.ofString key), v') :: after)
            name =
          some v' := by
  rw [Entries.get?_middle, Entries.get?_middle]
  by_cases hSame : key = name
  · subst hSame
    cases Entries.get? after key with
    | some w => exact Or.inl rfl
    | none => exact Or.inr ⟨rfl, by simp, by simp⟩
  · have hOther :
        Yaml.Scalar.text (Text.ofString key) ≠
          .text (Text.ofString name) := by
      intro hText
      exact hSame
        (Text.ofString_injective (Yaml.Scalar.text.inj hText))
    rw [if_neg hOther, if_neg hOther]
    exact Or.inl rfl

/- Values that agree make the same settings. -/
theorem ofEntries_congr
    (hAgree : Agree key v v')
    (before after : Entries) :
    ofEntries (before ++ (.text (Text.ofString key), v) :: after) =
      ofEntries
        (before ++ (.text (Text.ofString key), v') :: after) := by
  have hVersion :
      versionOf
          (Entries.get?
            (before ++ (.text (Text.ofString key), v) :: after)
            "biome_version") =
        versionOf
          (Entries.get?
            (before ++ (.text (Text.ofString key), v') :: after)
            "biome_version") := by
    rcases get?_cases before after v v' key "biome_version" with
      hSame | ⟨hKey, hFirst, hSecond⟩
    · rw [hSame]
    · rw [hFirst, hSecond, hAgree.version hKey]
  have hChoice :
      ∀ name, name ≠ "biome_version" →
        choiceOf
            (Entries.get?
              (before ++ (.text (Text.ofString key), v) :: after)
              name) =
          choiceOf
            (Entries.get?
              (before ++ (.text (Text.ofString key), v') :: after)
              name) := by
    intro name hName
    rcases get?_cases before after v v' key name with
      hSame | ⟨rfl, hFirst, hSecond⟩
    · rw [hSame]
    · rw [hFirst, hSecond, hAgree.choice hName]
  unfold ofEntries
  rw [hVersion, hChoice "remove_legacy" (by decide),
    hChoice "clean_comments" (by decide),
    hChoice "run_fix" (by decide)]

------------------------------------------------------------
-- Settings of Rows
------------------------------------------------------------

/- A row whose key stands for itself. -/
structure IsNamed (r : Row) : Prop where
  sound : r.IsSound
  name : Yaml.Tag.ofPlain (Text.ofChars r.key) = .str

/- The settings that the text of some rows makes. -/
def ofRows
    (depths : Yaml.Depths)
    (file : String)
    (rows : List Row) : Except Failure Settings :=
  ofText depths file (Row.textOf rows)

/- Words are not blank. -/
theorem isBlank_of_isWordChar
    {c : Char}
    (hWord : Row.isWordChar c = true) :
    isBlank c = false := by
  have hAll :
      ∀ n < 128, Row.isWordChar (Char.ofNat n) = true →
        isBlank (Char.ofNat n) = false := by
    decide
  have hSame := hAll c.toNat (Row.toNat_lt_of_isWordChar hWord)
  rw [Char.ofNat_toNat] at hSame
  exact hSame hWord

/- What the text of rows holds. -/
theorem contentOf_textOf
    (depths : Yaml.Depths)
    {rows : List Row}
    (hNe : rows ≠ [])
    (hNamed : ∀ r ∈ rows, IsNamed r) :
    contentOf depths (Row.textOf rows) =
      (rows.mapM Row.member).map .mapping := by
  rcases List.exists_cons_of_ne_nil hNe with ⟨r, more, rfl⟩
  have hLoad :=
    Yaml.load_textOf depths (fun s hMem => (hNamed s hMem).sound)
      fun s hMem => (hNamed s hMem).name
  have hBlank : (Row.textOf (r :: more)).all isBlank = false := by
    have hSound := (hNamed r (by simp)).sound
    rcases List.exists_cons_of_ne_nil hSound.key_ne_nil with
      ⟨c, key, hCons⟩
    have hBlank :=
      isBlank_of_isWordChar
        (Row.isWordChar_of_isKeyChar
          (hSound.key c (by simp [hCons])))
    simp [Row.textOf, Row.lineBefore, hCons, hBlank]
  unfold contentOf
  rw [hBlank]
  exact hLoad

/- The bytes of the text of rows are read as their members. -/
theorem reads_textOf
    (depths : Yaml.Depths)
    {rows : List Row}
    (hNe : rows ≠ [])
    (hNamed : ∀ r ∈ rows, IsNamed r) :
    Reads depths (Utf8.encode (Row.textOf rows))
      ((rows.mapM Row.member).map .mapping) := by
  refine ⟨Row.textOf rows, Utf8.decode_encode _, ?_⟩
  rw [LineBreak.unify_eq_self
    (Row.return_not_mem_textOf fun r hMem => (hNamed r hMem).sound)]
  exact contentOf_textOf depths hNe hNamed

theorem ofRows_eq
    (depths : Yaml.Depths)
    (file : String)
    {rows : List Row}
    (hNamed : ∀ r ∈ rows, IsNamed r) :
    ofRows depths file rows =
      if rows = [] then .ok standard
      else
        ((rows.mapM Row.member).mapError (failureOf file)).bind
          ofEntries := by
  cases rows with
  | nil => rfl
  | cons r rows =>
      unfold ofRows
      rw [ofText_eq, contentOf_textOf depths (by simp) hNamed,
        if_neg (by simp)]
      cases (r :: rows).mapM Row.member with
      | error fault => rfl
      | ok entries => rfl

/- Rows whose values agree make the same settings. -/
theorem ofRows_congr
    (depths : Yaml.Depths)
    (file : String)
    {before after : List Row}
    {r r' : Row}
    (hNamed : ∀ s ∈ before ++ r :: after, IsNamed s)
    (hNamed' : IsNamed r')
    (hMember :
      r.member = .ok (.text (Text.ofString key), v))
    (hMember' :
      r'.member = .ok (.text (Text.ofString key), v'))
    (hAgree : Agree key v v') :
    ofRows depths file (before ++ r :: after) =
      ofRows depths file (before ++ r' :: after) := by
  have hOther : ∀ s ∈ before ++ r' :: after, IsNamed s := by
    intro s hMem
    rcases List.mem_append.mp hMem with hBefore | hMore
    · exact hNamed s (List.mem_append_left _ hBefore)
    · rcases List.mem_cons.mp hMore with rfl | hAfter
      · exact hNamed'
      · exact hNamed s (by simp [hAfter])
  have hEntries :
      ∀ {s : Row} {w : Value},
        s.member = .ok (.text (Text.ofString key), w) →
          (before ++ s :: after).mapM Row.member =
            (before.mapM Row.member).bind fun front =>
              (after.mapM Row.member).map fun back =>
                front ++ (.text (Text.ofString key), w) :: back := by
    intro s w hOk
    rw [List.mapM_append, List.mapM_cons, hOk]
    cases before.mapM Row.member with
    | error fault => rfl
    | ok front =>
        cases after.mapM Row.member with
        | error fault => rfl
        | ok back => rfl
  rw [ofRows_eq depths file hNamed, ofRows_eq depths file hOther,
    if_neg (by simp), if_neg (by simp), hEntries hMember,
    hEntries hMember']
  cases before.mapM Row.member with
  | error fault => rfl
  | ok front =>
      cases after.mapM Row.member with
      | error fault => rfl
      | ok back => exact ofEntries_congr hAgree front back

/- The settings of a single row. -/
theorem ofRows_single
    (depths : Yaml.Depths)
    (file : String)
    {r : Row}
    (hNamed : IsNamed r) :
    ofRows depths file [r] =
      (r.member.mapError (failureOf file)).bind fun entry =>
        ofEntries [entry] := by
  rw [ofRows_eq depths file (by simpa using hNamed), if_neg (by simp)]
  show (Except.mapError _ (r.member.bind _)).bind _ = _
  cases r.member with
  | error fault => rfl
  | ok entry => rfl

theorem ofRows_single_ok
    (depths : Yaml.Depths)
    (file : String)
    {r : Row}
    (hNamed : IsNamed r)
    {entry : Scalar × Value}
    (hMember : r.member = .ok entry) :
    ofRows depths file [r] = ofEntries [entry] := by
  rw [ofRows_single depths file hNamed, hMember]
  rfl

theorem ofRows_single_error
    (depths : Yaml.Depths)
    (file : String)
    {r : Row}
    (hNamed : IsNamed r)
    {fault : Yaml.Fault}
    (hMember : r.member = .error fault) :
    ofRows depths file [r] = .error (failureOf file fault) := by
  rw [ofRows_single depths file hNamed, hMember]
  rfl

end Settings

end BiomeMigration
