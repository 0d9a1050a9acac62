import BiomeMigration.Proofs.Files.Writing
import BiomeMigration.Proofs.Yaml.Values
import BiomeMigration.Settings

/-
  What becomes of a settings file. Its bytes make settings,
  or one of two failures that a user is expected to meet, or
  another failure, which their encoding, their text or a
  value in it runs into.

  Main declarations:
    * `Settings.Holds`
    * `Settings.Accepts`
    * `Settings.Rejects`
    * `Settings.Escapes`
    * `Settings.outcomes_of_holds`
-/

------------------------------------------------------------
-- Texts of Settings Files
------------------------------------------------------------

namespace BiomeMigration

namespace Settings

/-
  A path stands for a settings file that is there, in a
  directory and with some bytes.
-/
structure Holds
    (fs : FileSystem)
    (p file root : Path)
    (bytes : Bytes) : Prop where
  stands : fileAt fs p = .ok file
  resolves : fs.resolve file.parent = .ok root
  reads : fs.read file = .ok bytes

/- What a text holds. A blank one is not looked into. -/
def contentOf
    (depths : Yaml.Depths)
    (cs : List Char) : Except Yaml.Fault Yaml.Content :=
  if cs.all isBlank then .ok .nothing else Yaml.load depths cs

/-
  What some bytes hold, if they are those of a text; its
  line ends become line feeds.
-/
def Reads
    (depths : Yaml.Depths)
    (bytes : Bytes)
    (found : Except Yaml.Fault Yaml.Content) : Prop :=
  ∃ cs,
    Utf8.decode bytes = .ok cs ∧
      contentOf depths (LineBreak.unify cs) = found

/- The settings that some bytes make. -/
inductive Accepts
    (depths : Yaml.Depths)
    (bytes : Bytes) : Settings → Prop where
  | nothing
      (hReads : Reads depths bytes (.ok .nothing)) :
      Accepts depths bytes standard
  | mapping
      {entries : Yaml.Entries}
      {settings : Settings}
      (hReads : Reads depths bytes (.ok (.mapping entries)))
      (hSettings : ofEntries entries = .ok settings) :
      Accepts depths bytes settings

/- The failures that tell a user what is wrong with a file. -/
inductive Rejects
    (depths : Yaml.Depths)
    (name : String)
    (bytes : Bytes) : Failure → Prop where
  | malformed
      (hReads : Reads depths bytes (.error .malformed)) :
      Rejects depths name bytes (.settings name)
  | root
      (hReads : Reads depths bytes (.ok .other)) :
      Rejects depths name bytes .settingsRoot

/- The other failures, with what each of them comes from. -/
inductive Escapes
    (depths : Yaml.Depths)
    (bytes : Bytes) : Failure → Prop where
  | encoding
      {fault : Utf8.Fault}
      (hBytes : Utf8.decode bytes = .error fault) :
      Escapes depths bytes (.decoding fault)
  | content
      {cs : List Char}
      {fault : Yaml.Fault}
      (hBytes : Utf8.decode bytes = .ok cs)
      (hContent :
        contentOf depths (LineBreak.unify cs) = .error fault)
      (hOther : fault ≠ .malformed)
      (hOrigin :
        Yaml.Origin depths.collections (LineBreak.unify cs) fault) :
      Escapes depths bytes (.settingsValue fault)
  | version
      {entries : Yaml.Entries}
      {n : Int}
      (hReads : Reads depths bytes (.ok (.mapping entries)))
      (hVersion :
        entries.get? "biome_version" = some (.scalar (.int n)))
      (hLong : 10 ^ Digit.limit ≤ n.natAbs) :
      Escapes depths bytes .longNumber

------------------------------------------------------------
-- Failures and Settings of Contents
------------------------------------------------------------

theorem ofText_eq
    (depths : Yaml.Depths)
    (name : String)
    (cs : List Char) :
    ofText depths name cs =
      ((contentOf depths cs).mapError
        (failureOf name)).bind ofContent := by
  unfold ofText contentOf
  split
  · rfl
  · rfl

theorem load_of_holds
    {fs : FileSystem}
    {p file root : Path}
    {bytes : Bytes}
    (hHolds : Holds fs p file root bytes) :
    load fs p =
      ((Utf8.decode bytes).mapError .decoding).bind fun cs =>
        (ofText fs.depths.yaml file.name
          (LineBreak.unify cs)).map fun settings =>
            ⟨root, settings⟩ := by
  have hThere : fs.exists? file = .ok true := by
    rcases FileSystem.read_eq_ok_iff.mp hHolds.reads with
      ⟨loc, hLeads⟩
    exact FileSystem.exists?_of_leadsTo hLeads
  unfold load
  rw [hHolds.stands]
  show ((fs.resolve file.parent).mapError Failure.path).bind _ = _
  rw [hHolds.resolves]
  show ((fs.exists? file).mapError Failure.path).bind _ = _
  rw [hThere]
  show ((fs.read file).mapError Failure.path).bind _ = _
  rw [hHolds.reads]
  show ((Utf8.decode bytes).mapError Failure.decoding).bind _ = _
  cases Utf8.decode bytes with
  | error fault => rfl
  | ok cs =>
      show (ofText _ file.name (LineBreak.unify cs)).bind _ =
        (ofText _ file.name (LineBreak.unify cs)).map _
      cases ofText _ file.name (LineBreak.unify cs) with
      | error failure => rfl
      | ok settings => rfl

/- A whole number cannot be written if it is too long. -/
theorem writeInt_error_iff
    (n : Int)
    (failure : Failure) :
    writeInt n = .error failure ↔
      failure = .longNumber ∧ 10 ^ Digit.limit ≤ n.natAbs := by
  unfold writeInt
  split
  · next hLong =>
      constructor
      · intro hError
        exact ⟨(Except.error.inj hError).symm, hLong⟩
      · rintro ⟨rfl, _⟩
        rfl
  · next hShort =>
      constructor
      · intro hError
        cases hError
      · rintro ⟨_, hLong⟩
        exact absurd hLong hShort

theorem versionOf_error_iff
    (value? : Option Yaml.Value)
    (failure : Failure) :
    versionOf value? = .error failure ↔
      failure = .longNumber ∧
        ∃ n : Int,
          value? = some (.scalar (.int n)) ∧
            10 ^ Digit.limit ≤ n.natAbs := by
  constructor
  · intro hError
    unfold versionOf at hError
    dsimp only at hError
    split at hError
    · cases hError
    · next n =>
        have hWrite : writeInt n = .error failure := by
          cases hText : writeInt n with
          | ok text =>
              rw [hText] at hError
              cases hError
          | error other =>
              rw [hText] at hError
              rw [Except.error.inj hError]
        rcases (writeInt_error_iff n failure).mp hWrite with
          ⟨hFailure, hLong⟩
        exact ⟨hFailure, n, rfl, hLong⟩
    · cases hError
    · cases hError
  · rintro ⟨hFailure, n, hValue, hLong⟩
    have hWrite :=
      (writeInt_error_iff n failure).mpr ⟨hFailure, hLong⟩
    subst hValue
    unfold versionOf
    dsimp only
    rw [hWrite]
    rfl

/- Only a whole number of too many digits makes no settings. -/
theorem ofEntries_error_iff
    (entries : Yaml.Entries)
    (failure : Failure) :
    ofEntries entries = .error failure ↔
      failure = .longNumber ∧
        ∃ n : Int,
          entries.get? "biome_version" = some (.scalar (.int n)) ∧
            10 ^ Digit.limit ≤ n.natAbs := by
  rw [← versionOf_error_iff]
  show (versionOf (entries.get? "biome_version")).bind _ = _ ↔ _
  cases versionOf (entries.get? "biome_version") with
  | error other =>
      constructor
      · intro hError
        exact congrArg Except.error (Except.error.inj hError)
      · intro hError
        exact congrArg Except.error (Except.error.inj hError)
  | ok version? =>
      constructor
      · rintro ⟨⟩
      · rintro ⟨⟩

------------------------------------------------------------
-- Outcomes
------------------------------------------------------------

variable {fs : FileSystem} {p file root : Path} {bytes : Bytes}
variable {failure : Failure} {settings : Settings}
variable {depths : Yaml.Depths}

theorem load_of_reads
    (hHolds : Holds fs p file root bytes)
    {found : Except Yaml.Fault Yaml.Content}
    (hReads : Reads fs.depths.yaml bytes found) :
    load fs p =
      ((found.mapError (failureOf file.name)).bind ofContent).map
        fun settings => ⟨root, settings⟩ := by
  rcases hReads with ⟨cs, hBytes, hContent⟩
  rw [load_of_holds hHolds, hBytes, ← hContent, ← ofText_eq]
  rfl

theorem load_of_accepts
    (hHolds : Holds fs p file root bytes)
    (hAccepts : Accepts fs.depths.yaml bytes settings) :
    load fs p = .ok ⟨root, settings⟩ := by
  cases hAccepts with
  | nothing hReads =>
      rw [load_of_reads hHolds hReads]
      rfl
  | mapping hReads hSettings =>
      rw [load_of_reads hHolds hReads]
      show (ofEntries _).map _ = _
      rw [hSettings]
      rfl

theorem load_of_rejects
    (hHolds : Holds fs p file root bytes)
    (hRejects : Rejects fs.depths.yaml file.name bytes failure) :
    load fs p = .error failure := by
  cases hRejects with
  | malformed hReads =>
      rw [load_of_reads hHolds hReads]
      rfl
  | root hReads =>
      rw [load_of_reads hHolds hReads]
      rfl

theorem load_of_escapes
    (hHolds : Holds fs p file root bytes)
    (hEscapes : Escapes fs.depths.yaml bytes failure) :
    load fs p = .error failure := by
  cases hEscapes with
  | encoding hBytes =>
      rw [load_of_holds hHolds, hBytes]
      rfl
  | content hBytes hContent hOther hOrigin =>
      rw [load_of_reads hHolds ⟨_, hBytes, hContent⟩]
      show Except.error (failureOf file.name _) = _
      unfold failureOf
      split
      · exact absurd rfl hOther
      · rfl
  | version hReads hVersion hLong =>
      have hError :=
        (ofEntries_error_iff _ .longNumber).mpr
          ⟨rfl, _, hVersion, hLong⟩
      rw [load_of_reads hHolds hReads]
      show (ofEntries _).map _ = _
      rw [hError]
      rfl

/- Some bytes come to settings, or to a failure of one sort. -/
theorem exists_outcome
    (depths : Yaml.Depths)
    (name : String)
    (bytes : Bytes) :
    (∃ settings, Accepts depths bytes settings) ∨
      (∃ failure, Rejects depths name bytes failure) ∨
      ∃ failure, Escapes depths bytes failure := by
  cases hBytes : Utf8.decode bytes with
  | error fault => exact Or.inr (Or.inr ⟨_, .encoding hBytes⟩)
  | ok cs =>
      have hReads :
          Reads depths bytes
            (contentOf depths (LineBreak.unify cs)) :=
        ⟨cs, hBytes, rfl⟩
      cases hContent : contentOf depths (LineBreak.unify cs) with
      | error fault =>
          rw [hContent] at hReads
          by_cases hOther : fault = .malformed
          · subst hOther
            exact Or.inr (Or.inl ⟨_, .malformed hReads⟩)
          · have hOrigin :
                Yaml.Origin depths.collections
                  (LineBreak.unify cs) fault := by
              unfold contentOf at hContent
              split at hContent
              · cases hContent
              · exact Yaml.origin_of_load _ _ fault hContent
            exact Or.inr
              (Or.inr ⟨_, .content hBytes hContent hOther hOrigin⟩)
      | ok content =>
          rw [hContent] at hReads
          cases content with
          | nothing => exact Or.inl ⟨_, .nothing hReads⟩
          | other => exact Or.inr (Or.inl ⟨_, .root hReads⟩)
          | mapping entries =>
              cases hSettings : ofEntries entries with
              | ok settings =>
                  exact Or.inl ⟨_, .mapping hReads hSettings⟩
              | error failure =>
                  rcases (ofEntries_error_iff _ _).mp hSettings with
                    ⟨_, n, hVersion, hLong⟩
                  exact Or.inr
                    (Or.inr ⟨_, .version hReads hVersion hLong⟩)

/- The kinds of the failures that are not expected. -/
def escapeKinds : List String :=
  ["UnicodeDecodeError", "ValueError", "OverflowError",
    "RecursionError", "IndexError", "KeyError", "AttributeError",
    "TypeError"]

theorem valueKind_mem
    {fault : Yaml.Fault}
    (hOther : fault ≠ .malformed) :
    Failure.valueKind fault ∈ escapeKinds := by
  unfold Failure.valueKind escapeKinds
  cases fault with
  | malformed => exact absurd rfl hOther
  | codePoint n =>
      dsimp only
      split
      · simp
      · simp
  | _ => simp

example :
    ["a: 2024-13-01", "a: !!bool x", "a: !!int ''",
          "a: !!timestamp x", "\x22\\Uffffffff\x22"].map
        (fun text =>
          match Yaml.load ⟨9, 9, 9⟩ text.toList with
          | .error fault => Failure.valueKind fault
          | .ok _ => "") =
      ["ValueError", "KeyError", "IndexError", "AttributeError",
        "OverflowError"] := by
  decide +kernel

theorem kind_of_rejects
    {name : String}
    (hRejects : Rejects depths name bytes failure) :
    failure.kind = "ConfigError" := by
  cases hRejects with
  | malformed hReads => rfl
  | root hReads => rfl

theorem kind_of_escapes
    (hEscapes : Escapes depths bytes failure) :
    failure.kind ∈ escapeKinds := by
  cases hEscapes with
  | encoding hBytes => exact List.mem_cons_self
  | content hBytes hContent hOther hOrigin =>
      exact valueKind_mem hOther
  | version hReads hVersion hLong => decide

theorem kind_ne_of_escapes
    (hEscapes : Escapes depths bytes failure) :
    failure.kind ≠ "ConfigError" := by
  have hOther : ∀ kind ∈ escapeKinds, kind ≠ "ConfigError" := by
    decide
  exact hOther _ (kind_of_escapes hEscapes)

theorem accepts_of_load
    (hHolds : Holds fs p file root bytes)
    {found : Located}
    (hLoad : load fs p = .ok found) :
    found.root = root ∧
      Accepts fs.depths.yaml bytes found.settings := by
  rcases exists_outcome fs.depths.yaml file.name bytes with
    ⟨settings, hAccepts⟩ | ⟨failure, hRejects⟩ | ⟨failure, hEscapes⟩
  · rw [load_of_accepts hHolds hAccepts] at hLoad
    rw [← Except.ok.inj hLoad]
    exact ⟨rfl, hAccepts⟩
  · rw [load_of_rejects hHolds hRejects] at hLoad
    cases hLoad
  · rw [load_of_escapes hHolds hEscapes] at hLoad
    cases hLoad

theorem rejects_or_escapes_of_load
    (hHolds : Holds fs p file root bytes)
    (hLoad : load fs p = .error failure) :
    Rejects fs.depths.yaml file.name bytes failure ∨
      Escapes fs.depths.yaml bytes failure := by
  rcases exists_outcome fs.depths.yaml file.name bytes with
    ⟨settings, hAccepts⟩ | ⟨other, hRejects⟩ | ⟨other, hEscapes⟩
  · rw [load_of_accepts hHolds hAccepts] at hLoad
    cases hLoad
  · rw [load_of_rejects hHolds hRejects] at hLoad
    rw [← Except.error.inj hLoad]
    exact Or.inl hRejects
  · rw [load_of_escapes hHolds hEscapes] at hLoad
    rw [← Except.error.inj hLoad]
    exact Or.inr hEscapes

/-
  What becomes of a settings file that is there: it makes
  settings, or a failure of the kind for settings files,
  just if its bytes are accepted or rejected. Every other
  failure is one that they run into in their encoding, in
  their form, in one of their values or in the version, and
  is of a kind of its own.
-/
theorem outcomes_of_holds
    (hHolds : Holds fs p file root bytes) :
    (∀ found,
      load fs p = .ok found ↔
        found.root = root ∧
          Accepts fs.depths.yaml bytes found.settings) ∧
    (∀ failure,
      load fs p = .error failure ∧ failure.kind = "ConfigError" ↔
        Rejects fs.depths.yaml file.name bytes failure) ∧
    ∀ failure,
      (load fs p = .error failure ∧ failure.kind ≠ "ConfigError" ↔
        Escapes fs.depths.yaml bytes failure) ∧
      (Escapes fs.depths.yaml bytes failure → failure.kind ∈ escapeKinds) := by
  refine ⟨fun found => ⟨accepts_of_load hHolds, ?_⟩,
    fun failure => ⟨?_, fun hRejects => ?_⟩,
    fun failure => ⟨⟨?_, fun hEscapes => ?_⟩, kind_of_escapes⟩⟩
  · rintro ⟨rfl, hAccepts⟩
    exact load_of_accepts hHolds hAccepts
  · rintro ⟨hLoad, hKind⟩
    rcases rejects_or_escapes_of_load hHolds hLoad with
      hRejects | hEscapes
    · exact hRejects
    · exact absurd hKind (kind_ne_of_escapes hEscapes)
  · exact ⟨load_of_rejects hHolds hRejects, kind_of_rejects hRejects⟩
  · rintro ⟨hLoad, hKind⟩
    rcases rejects_or_escapes_of_load hHolds hLoad with
      hRejects | hEscapes
    · exact absurd (kind_of_rejects hRejects) hKind
    · exact hEscapes
  · exact ⟨load_of_escapes hHolds hEscapes,
      kind_ne_of_escapes hEscapes⟩

/- A project with nothing in it but a settings file. -/
def settingsFiles (bytes : Bytes) : FileSystem where
  root := .directory [("p", .directory [(fileName, .file bytes)])]
  working := []
  home := ⟨.root, []⟩
  homes := []
  opened := []

/- Any bytes may be those of the settings file of a project. -/
theorem holds_settingsFiles (bytes : Bytes) :
    Holds (settingsFiles bytes) ⟨.root, ["p"]⟩
      ⟨.root, ["p", fileName]⟩ ⟨.root, ["p"]⟩ bytes where
  stands := rfl
  resolves := rfl
  reads := rfl

/- A byte that starts no character is no failure of a setting. -/
theorem escapes_loneByte :
    Holds (settingsFiles [0xFF]) ⟨.root, ["p"]⟩
        ⟨.root, ["p", fileName]⟩ ⟨.root, ["p"]⟩ [0xFF] ∧
      load (settingsFiles [0xFF]) ⟨.root, ["p"]⟩ =
        .error (.decoding ⟨.invalidStart, 0xFF, 0, 1⟩) ∧
      Failure.kind (.decoding ⟨.invalidStart, 0xFF, 0, 1⟩) ≠
        "ConfigError" := by
  have hOutcomes := outcomes_of_holds (holds_settingsFiles [0xFF])
  exact ⟨holds_settingsFiles [0xFF],
    (hOutcomes.2.2 _).1.mpr (.encoding rfl)⟩

/- So a settings file is not always accepted or rejected. -/
theorem not_always_expected :
    ¬ ∀ (fs : FileSystem) (p file root : Path) (bytes : Bytes),
        Holds fs p file root bytes →
          (∃ found, load fs p = .ok found) ∨
            ∃ failure,
              load fs p = .error failure ∧
                failure.kind = "ConfigError" := by
  intro hAlways
  have hHolds := holds_settingsFiles [0xFF]
  have hEscapes :
      Escapes (settingsFiles [0xFF]).depths.yaml [0xFF]
        (.decoding ⟨.invalidStart, 0xFF, 0, 1⟩) :=
    .encoding rfl
  have hLoad := load_of_escapes hHolds hEscapes
  rcases hAlways _ _ _ _ _ hHolds with
    ⟨found, hFound⟩ | ⟨failure, hFailure, hKind⟩
  · rw [hLoad] at hFound
    cases hFound
  · rw [hLoad] at hFailure
    rw [← Except.error.inj hFailure] at hKind
    exact kind_ne_of_escapes hEscapes hKind

end Settings

end BiomeMigration
