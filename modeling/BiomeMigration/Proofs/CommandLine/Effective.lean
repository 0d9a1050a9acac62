import BiomeMigration.Proofs.CommandLine.Exit
import BiomeMigration.Proofs.Settings.Quoting

/-
  The settings that a migration gets. A version comes from
  the command line, or else from the settings file, or else
  it is the standard one; the file makes the choices. Each
  setting depends on the value of its own key alone, and a
  value that it cannot use counts for nothing.

  Main declarations:
    * `CommandLine.Effective`
    * `CommandLine.Effective.coincide`
    * `CommandLine.effective_of_run`
-/

------------------------------------------------------------
-- Settings that Take Effect
------------------------------------------------------------

namespace BiomeMigration

namespace CommandLine

open Session
open Settings (Names Chooses HasLongVersion)

/- The version that a command line asks for. -/
def flagOf (args : Arguments) : Option Text :=
  (args.version?.filter (· ≠ "")).map Text.ofString

/-
  The settings that a command line and the members of a
  settings file make. Each one is told by its own option and
  the value of its own key.
-/
structure Effective
    (args : Arguments)
    (entries : Yaml.Entries)
    (s : Settings) : Prop where
  flag : ∀ version, flagOf args = some version → s.version = version
  named :
    flagOf args = none →
      ∀ version, Names entries version → s.version = version
  unnamed :
    flagOf args = none →
      (¬ ∃ version, Names entries version) →
        s.version = Settings.standard.version
  removeLegacy :
    ∀ b,
      s.removeLegacy? = some b ↔ Chooses entries "remove_legacy" b
  cleanComments :
    ∀ b,
      s.cleanComments? = some b ↔ Chooses entries "clean_comments" b
  runFix :
    s.runFix = false ↔
      args.skipFix = true ∨ Chooses entries "run_fix" false

variable {args args' : Arguments} {entries entries' : Yaml.Entries}
variable {s s' : Settings}

theorem Effective.version_eq
    (hEffective : Effective args entries s)
    (hEffective' : Effective args' entries' s')
    (hFlag : flagOf args' = flagOf args)
    (hNames :
      ∀ version, Names entries' version ↔ Names entries version) :
    s'.version = s.version := by
  cases hSome : flagOf args with
  | some version =>
      rw [hEffective.flag version hSome,
        hEffective'.flag version (hFlag.trans hSome)]
  | none =>
      have hNone := hFlag.trans hSome
      by_cases hNamed : ∃ version, Names entries version
      · rcases hNamed with ⟨version, hHere⟩
        rw [hEffective.named hSome version hHere,
          hEffective'.named hNone version
            ((hNames version).mpr hHere)]
      · have hNamed' : ¬ ∃ version, Names entries' version := by
          rintro ⟨version, hThere⟩
          exact hNamed ⟨version, (hNames version).mp hThere⟩
        rw [hEffective.unnamed hSome hNamed,
          hEffective'.unnamed hNone hNamed']

/-
  Settings of two command lines and two files: each of them
  is the same in both, if its own option and what its own
  key names or chooses are, whatever else there is.
-/
structure Coincide
    (args args' : Arguments)
    (entries entries' : Yaml.Entries)
    (s s' : Settings) : Prop where
  version :
    flagOf args' = flagOf args →
      (∀ version, Names entries' version ↔ Names entries version) →
        s'.version = s.version
  removeLegacy :
    (∀ b,
      Chooses entries' "remove_legacy" b ↔
        Chooses entries "remove_legacy" b) →
      s'.removeLegacy? = s.removeLegacy?
  cleanComments :
    (∀ b,
      Chooses entries' "clean_comments" b ↔
        Chooses entries "clean_comments" b) →
      s'.cleanComments? = s.cleanComments?
  runFix :
    args'.skipFix = args.skipFix →
      (∀ b,
        Chooses entries' "run_fix" b ↔ Chooses entries "run_fix" b) →
        s'.runFix = s.runFix

/- Each setting that takes effect depends on its own key alone. -/
theorem Effective.coincide
    (hEffective : Effective args entries s)
    (hEffective' : Effective args' entries' s') :
    Coincide args args' entries entries' s s' := by
  refine ⟨hEffective.version_eq hEffective', fun hSame => ?_,
    fun hSame => ?_, fun hSkip hSame => ?_⟩
  · apply Option.ext
    intro b
    rw [hEffective'.removeLegacy, hSame, hEffective.removeLegacy]
  · apply Option.ext
    intro b
    rw [hEffective'.cleanComments, hSame, hEffective.cleanComments]
  · have hFalse : s'.runFix = false ↔ s.runFix = false := by
      rw [hEffective'.runFix, hEffective.runFix, hSkip, hSame]
    exact Bool.eq_iff_iff.mpr (by simpa using not_congr hFalse)

theorem version_settingsFor
    (args : Arguments)
    (settings : Settings) :
    (settingsFor args settings).version =
      (flagOf args).getD settings.version := by
  unfold settingsFor flagOf
  cases args.version? with
  | none => rfl
  | some version =>
      by_cases hEmpty : version = ""
      · simp [hEmpty, Option.filter]
      · simp [hEmpty, Option.filter]

/- What the options make of the settings of a file takes effect. -/
theorem effective_settingsFor
    {settings : Settings}
    (hSettings : Settings.ofEntries entries = .ok settings) :
    Effective args entries (settingsFor args settings) := by
  rcases Settings.of_ofEntries hSettings with
    ⟨version?, hVersion, rfl⟩
  have hSpec := Settings.versionOf_spec hVersion
  refine ⟨?_, ?_, ?_, Settings.choiceOf_spec _,
    Settings.choiceOf_spec _, ?_⟩
  · intro version hFlag
    rw [version_settingsFor, hFlag]
    rfl
  · intro hFlag version hNames
    rw [version_settingsFor, hFlag, (hSpec version).mpr hNames]
    rfl
  · intro hFlag hUnnamed
    have hNone : version? = none := by
      rw [Option.eq_none_iff_forall_ne_some]
      intro version hSome
      exact hUnnamed ⟨version, (hSpec version).mp hSome⟩
    rw [version_settingsFor, hFlag, hNone]
    rfl
  · have hChoice :=
      Settings.choiceOf_spec (entries.get? "run_fix") false
    have hBoth :
        ∀ (choice? : Option Bool) (skip : Bool),
          (choice?.getD true && !skip) = false ↔
            skip = true ∨ choice? = some false := by
      intro choice? skip
      cases skip with
      | true => simp
      | false =>
          cases choice? with
          | none => simp
          | some b => simp
    rw [Chooses, ← hChoice]
    exact hBoth _ args.skipFix

------------------------------------------------------------
-- Settings of a Migration
------------------------------------------------------------

variable {argv : List String} {w v : World}
variable {file root : Path} {bytes : Bytes}

/- What is left to be arranged, once a logger is configured. -/
theorem ends_arrange_iff
    (hConfigured :
      Runs (configure args.verbose args.log) w () v)
    {result : Except Failure Migration}
    {u : World} :
    Ends (arrange args) w result u ↔
      Ends
        (Session.ofExcept
            (Settings.load v.files (Path.ofString args.path)) >>=
          fun located =>
            Migration.prepare (Path.ofString args.path)
              (some (settingsFor args located.settings)) args.yes)
        v result u := by
  have hFirst : Ends (configure args.verbose args.log) w (.ok ()) v :=
    hConfigured
  unfold arrange
  constructor
  · intro hEnds
    exact (ends_files v).of_bind (hFirst.of_bind hEnds)
  · intro hEnds
    exact hFirst.bind ((ends_files v).bind hEnds)

/- Nothing is arranged for a version that cannot be written. -/
theorem ends_arrange_of_longVersion
    (hConfigured :
      Runs (configure args.verbose args.log) w () v)
    (hHolds :
      Settings.Holds v.files (Path.ofString args.path) file root
        bytes)
    (hReads :
      Settings.Reads v.files.depths.yaml bytes
        (.ok (.mapping entries)))
    (hLong : HasLongVersion entries) :
    Ends (arrange args) w (.error .longNumber) v := by
  rcases hLong with ⟨n, hVersion, hMany⟩
  have hLoad :=
    Settings.load_of_escapes hHolds (.version hReads hVersion hMany)
  rw [ends_arrange_iff hConfigured, hLoad]
  exact Ends.bind_error (ends_ofExcept_iff.mpr ⟨rfl, rfl⟩) _

/- A migration gets the settings that its members make. -/
theorem ends_arrange_of_ofEntries
    (hConfigured :
      Runs (configure args.verbose args.log) w () v)
    (hHolds :
      Settings.Holds v.files (Path.ofString args.path) file root
        bytes)
    (hReads :
      Settings.Reads v.files.depths.yaml bytes
        (.ok (.mapping entries)))
    {settings : Settings}
    (hSettings : Settings.ofEntries entries = .ok settings)
    (result : Except Failure Migration)
    (u : World) :
    Ends (arrange args) w result u ↔
      Ends
        (Migration.prepare (Path.ofString args.path)
          (some (settingsFor args settings)) args.yes)
        v result u := by
  have hLoad :=
    Settings.load_of_accepts hHolds (.mapping hReads hSettings)
  have hLoaded :
      Ends
        (Session.ofExcept
          (Settings.load v.files (Path.ofString args.path)))
        v (.ok ⟨root, settings⟩) v :=
    ends_ofExcept_iff.mpr ⟨hLoad.symm, rfl⟩
  rw [ends_arrange_iff hConfigured]
  constructor
  · exact hLoaded.of_bind
  · intro hEnds
    exact hLoaded.bind hEnds

/- What a migration can fail with before it gets its settings. -/
theorem path_of_ends_prepare
    {p : Path}
    {settings : Settings}
    {yes : Bool}
    {failure : Failure}
    {u : World}
    (hEnds :
      Ends (Migration.prepare p (some settings) yes) w
        (.error failure) u) :
    ∃ fault, failure = .path fault := by
  unfold Migration.prepare at hEnds
  rcases ends_bind_iff.mp hEnds with
    ⟨other, hFailed, hSame⟩ | ⟨home, v, _, hRest⟩
  · rcases Except.error.inj hSame with rfl
    exact (ends_ofFiles_error hFailed).1
  · cases (ends_pure_iff.mp hRest).1

------------------------------------------------------------
-- Projects with Rows of Settings
------------------------------------------------------------

/- A project whose settings file is the text of some rows. -/
def rowsWorld (rows : List Yaml.Row) : World where
  files :=
    Settings.settingsFiles (Utf8.encode (Yaml.Row.textOf rows))
  logger := .plain false
  lines := []
  journal := []

theorem holds_rowsWorld (rows : List Yaml.Row) :
    Settings.Holds (rowsWorld rows).files (Path.ofString "/p")
      ⟨.root, ["p", Settings.fileName]⟩ ⟨.root, ["p"]⟩
      (Utf8.encode (Yaml.Row.textOf rows)) := by
  have hPath : Path.ofString "/p" = ⟨.root, ["p"]⟩ := by decide
  rw [hPath]
  exact Settings.holds_settingsFiles _

/- The digits of a power of eight, after an octal zero. -/
def octalDigits (k : Nat) : List Char :=
  '0' :: '1' :: List.replicate k '0'

theorem mem_octalDigits
    {k : Nat}
    {c : Char}
    (hMem : c ∈ octalDigits k) :
    c = '0' ∨ c = '1' := by
  simp only [octalDigits, List.mem_cons, List.mem_replicate] at hMem
  rcases hMem with hZero | hOne | ⟨_, hZero⟩
  · exact Or.inl hZero
  · exact Or.inr hOne
  · exact Or.inl hZero

/- A version of one group, which is such a number. -/
def octalPower (k : Nat) : Yaml.Version where
  first := octalDigits k
  others := []
  groups := by
    intro g hMem
    rw [List.mem_singleton.mp hMem]
    refine ⟨by simp [octalDigits], fun c hChar => ?_⟩
    rcases mem_octalDigits hChar with rfl | rfl
    · decide
    · decide

theorem digitsValue_octalPower (k : Nat) :
    Yaml.Numeral.digitsValue 8 (octalPower k).first = 8 ^ k := by
  show ('0' :: '1' :: List.replicate k '0').foldl _ 0 = 8 ^ k
  rw [List.foldl_cons, List.foldl_cons]
  -- Each zero multiplies what stands before it.
  have hZeros :
      ∀ n : Nat,
        (List.replicate k '0').foldl
            (fun n c =>
              8 * n + (Yaml.Numeral.digit? 8 c).getD 0) n =
          8 ^ k * n := by
    induction k with
    | zero =>
        intro n
        simp
    | succ k ih =>
        intro n
        have hZero : (Yaml.Numeral.digit? 8 '0').getD 0 = 0 := by
          decide
        rw [List.replicate_succ, List.foldl_cons, ih, hZero, pow_succ,
          Nat.mul_assoc, Nat.add_zero]
  rw [hZeros]
  exact Nat.mul_one _

/- There are rows whose version cannot be written. -/
theorem exists_longVersion
    {k : Nat}
    (hMany : 10 ^ Digit.limit ≤ 8 ^ k) :
    ∃ row entries,
      Settings.IsNamed row ∧
        [row].mapM Yaml.Row.member = .ok entries ∧
        HasLongVersion entries := by
  have hOctal : ∀ c ∈ (octalPower k).first, c ≤ '7' := by
    intro c hMem
    rcases mem_octalDigits hMem with rfl | rfl
    · decide
    · decide
  have hPlain :
      Settings.plainOf (octalPower k) =
        .ok
          (.int
            (Yaml.Numeral.digitsValue 8
              (octalPower k).first : Nat)) :=
    Settings.plainOf_octal (octalPower k).groups (by simp) hOctal
  have hMember :
      [Settings.versionRow false (octalPower k)].mapM
          Yaml.Row.member =
        .ok
          [(.text (Text.ofString "biome_version"),
            .scalar
              (.int
                (Yaml.Numeral.digitsValue 8
                  (octalPower k).first : Nat)))] := by
    have hRow :
        (Settings.versionRow false (octalPower k)).member = .ok _ :=
      @Settings.member_plain "biome_version" _ _ hPlain
    show ((Settings.versionRow false (octalPower k)).member).bind _ =
      _
    rw [hRow]
    rfl
  refine ⟨_, _, Settings.isNamed_versionRow false (octalPower k),
    hMember, _, rfl, ?_⟩
  rw [Int.natAbs_natCast, digitsValue_octalPower]
  exact hMany

------------------------------------------------------------
-- Settings and Options
------------------------------------------------------------

/-
  A settings file that holds a mapping gives the migration
  the settings that take effect, unless its version is a
  whole number that cannot be written: then the program
  fails with that, and no migration gets any settings.
-/
theorem effective_of_run
    {d : Dialect}
    (hParse : parse d argv = .ok (.migrate args))
    (hConfigured :
      Runs (configure args.verbose args.log) w () v)
    (hHolds :
      Settings.Holds v.files (Path.ofString args.path) file root
        bytes)
    (hReads :
      Settings.Reads v.files.depths.yaml bytes
        (.ok (.mapping entries)))
    (shell : Shell) :
    run d argv shell =
        guarded
          (arrange args >>= fun m =>
            discard (m.run shell.guarded)) ∧
      (HasLongVersion entries →
        Ends (arrange args) w (.error .longNumber) v) ∧
      (¬ HasLongVersion entries →
        ∃ s,
          Effective args entries s ∧
            (∀ args' entries' s',
              Effective args' entries' s' →
                Coincide args args' entries entries' s s') ∧
            ∀ result u,
              Ends (arrange args) w result u ↔
                Ends
                  (Migration.prepare (Path.ofString args.path)
                    (some s) args.yes)
                  v result u) := by
  refine ⟨?_, ends_arrange_of_longVersion hConfigured hHolds hReads,
    fun hShort => ?_⟩
  · unfold run
    rw [hParse, ← migrate_eq_arrange_bind]
  · cases hSettings : Settings.ofEntries entries with
    | error failure =>
        exact absurd
          ((Settings.ofEntries_error_iff _ _).mp hSettings).2 hShort
    | ok settings =>
        have hEffective :
            Effective args entries (settingsFor args settings) :=
          effective_settingsFor hSettings
        exact ⟨settingsFor args settings, hEffective,
          fun _ _ _ hOther => hEffective.coincide hOther,
          ends_arrange_of_ofEntries hConfigured hHolds hReads
            hSettings⟩

/- The arguments of one who skips the fixes. -/
def skipsFix : Arguments :=
  { Arguments.standard with path := "/p", skipFix := true }

/- The members of a settings file that names a version. -/
def twoNineEntries : Yaml.Entries :=
  [(.text (Text.ofString "biome_version"),
    .scalar (.text (Text.ofChars Settings.twoNine.chars)))]

/- A version is taken from the file, and fixes are skipped. -/
theorem effective_twoNine :
    parse keptDialect ["/p", "--skip-fix"] = .ok (.migrate skipsFix) ∧
      ∃ s,
        s.version = Text.ofString "2.9" ∧
          s.removeLegacy? = none ∧
          s.runFix = false ∧
          Runs (arrange skipsFix)
            (rowsWorld [Settings.versionRow true Settings.twoNine])
            ⟨⟨.root, ["p"]⟩, s, false⟩
            (rowsWorld
              [Settings.versionRow true Settings.twoNine]) := by
  have hParse :
      parse keptDialect ["/p", "--skip-fix"] = .ok (.migrate skipsFix) := by
    decide +kernel
  have hReads :
      Settings.Reads Depths.usual.yaml
        (Utf8.encode
          (Yaml.Row.textOf
            [Settings.versionRow true Settings.twoNine]))
        (.ok (.mapping twoNineEntries)) :=
    Settings.reads_textOf _ (by simp) fun r hMem => by
      rw [List.mem_singleton.mp hMem]
      exact Settings.isNamed_versionRow true Settings.twoNine
  have hGet :
      twoNineEntries.get? "biome_version" =
        some
          (.scalar (.text (Text.ofChars Settings.twoNine.chars))) :=
    rfl
  have hShort : ¬ HasLongVersion twoNineEntries := by
    rintro ⟨n, hInt, _⟩
    rw [hGet] at hInt
    cases hInt
  have hConfigured :
      Runs (configure skipsFix.verbose skipsFix.log)
        (rowsWorld [Settings.versionRow true Settings.twoNine]) ()
        (rowsWorld [Settings.versionRow true Settings.twoNine]) :=
    rfl
  rcases (effective_of_run hParse hConfigured (holds_rowsWorld _)
      hReads Migration.failingShell).2.2 hShort with
    ⟨s, hEffective, _, hEnds⟩
  have hUnchosen : s.removeLegacy? = none := by
    rw [Option.eq_none_iff_forall_ne_some]
    intro b hSome
    rcases (hEffective.removeLegacy b).mp hSome with ⟨v, hNone, _⟩
    cases hNone
  refine ⟨hParse, s, ?_, hUnchosen,
    hEffective.runFix.mpr (Or.inl rfl), (hEnds _ _).mpr rfl⟩
  exact hEffective.named rfl _ ⟨_, hGet, .text (by decide)⟩

/- The arguments of one who asks for a version. -/
def asksForVersion : Arguments :=
  { Arguments.standard with path := "/p", version? := some "2.4.0" }

/-
  So the settings do not always take effect: the option
  cannot stand in for a version that cannot be written.
-/
theorem not_always_effective :
    ¬ ∀ (d : Dialect) (argv : List String) (args : Arguments)
        (w v : World) (file root : Path) (bytes : Bytes)
        (entries : Yaml.Entries),
        parse d argv = .ok (.migrate args) →
          Runs (configure args.verbose args.log) w () v →
            Settings.Holds v.files (Path.ofString args.path) file
                root bytes →
              Settings.Reads v.files.depths.yaml bytes
                  (.ok (.mapping entries)) →
                ∃ s,
                  Effective args entries s ∧
                    ∀ result u,
                      Ends (arrange args) w result u ↔
                        Ends
                          (Migration.prepare
                            (Path.ofString args.path) (some s)
                            args.yes)
                          v result u := by
  intro hAlways
  have hParse :
      parse keptDialect ["/p", "--biome-version", "2.4.0"] =
        .ok (.migrate asksForVersion) := by
    decide +kernel
  have hMany : 10 ^ Digit.limit ≤ 8 ^ 4800 := by decide +kernel
  rcases exists_longVersion hMany with
    ⟨row, entries, hNamed, hMember, hLong⟩
  have hReads :
      Settings.Reads Depths.usual.yaml
        (Utf8.encode (Yaml.Row.textOf [row]))
        (.ok (.mapping entries)) := by
    have hAll :=
      @Settings.reads_textOf Depths.usual.yaml [row] (by simp)
        (by simpa using hNamed)
    rw [hMember] at hAll
    exact hAll
  have hHolds := holds_rowsWorld [row]
  have hConfigured :
      Runs (configure asksForVersion.verbose asksForVersion.log)
        (rowsWorld [row]) () (rowsWorld [row]) := rfl
  rcases hAlways _ _ asksForVersion _ _ _ _ _ _ hParse hConfigured
      hHolds hReads with
    ⟨s, _, hEnds⟩
  have hFailed :=
    ends_arrange_of_longVersion hConfigured hHolds hReads hLong
  rcases path_of_ends_prepare ((hEnds _ _).mp hFailed) with
    ⟨fault, hPath⟩
  cases hPath

end CommandLine

end BiomeMigration
