import BiomeMigration.CommandLine.Program
import BiomeMigration.Proofs.Log.Hierarchy
import BiomeMigration.Proofs.Migration.Summary

/-
  How the program ends. Its exit code is zero just if the
  migration has returned; any failure, from wherever it
  comes, is reported by one record, which is shown on
  standard error.

  Main declarations:
    * `Settings.named_load`
    * `CommandLine.arrange`
    * `CommandLine.cause?_recordOf_eq_none_iff`
    * `CommandLine.exit_of_run`
-/

------------------------------------------------------------
-- The Settings
------------------------------------------------------------

namespace BiomeMigration

open Session

namespace Settings

variable {ε α β : Type}

/- A result is a success or a failure that is named. -/
def Named (result : Except Failure α) : Prop :=
  ∀ failure, result = .error failure → failure.isNamed = true

theorem named_ok (a : α) : Named (.ok a) := by
  intro failure hSame
  cases hSame

theorem Named.bind
    {result : Except Failure α}
    {next : α → Except Failure β}
    (hFirst : Named result)
    (hThen : ∀ a, Named (next a)) :
    Named (result >>= next) := by
  intro failure hSame
  cases result with
  | error other =>
      exact hFirst failure
        (congrArg Except.error (Except.error.inj hSame))
  | ok a => exact hThen a failure hSame

theorem named_mapError
    (result : Except ε α)
    {form : ε → Failure}
    (hForm : ∀ e, (form e).isNamed = true) :
    Named (result.mapError form) := by
  intro failure hSame
  cases result with
  | error e =>
      rw [← Except.error.inj hSame]
      exact hForm e
  | ok a => cases hSame

theorem Named.map
    {result : Except Failure α}
    (hNamed : Named result)
    (f : α → β) :
    Named (result.map f) := by
  intro failure hSame
  cases result with
  | error other =>
      exact hNamed failure
        (congrArg Except.error (Except.error.inj hSame))
  | ok a => cases hSame

theorem named_writeInt (n : Int) : Named (writeInt n) := by
  unfold writeInt
  generalize Digit.limit = limit
  split
  · intro failure hSame
    rw [← Except.error.inj hSame]
    rfl
  · exact named_ok _

theorem named_versionOf (value? : Option Yaml.Value) :
    Named (versionOf value?) := by
  unfold versionOf
  dsimp only
  split
  · exact named_ok _
  · exact ((named_writeInt _).map _).bind fun _ => named_ok _
  · exact named_ok _
  · exact named_ok _

theorem named_ofEntries (entries : Yaml.Entries) :
    Named (ofEntries entries) := by
  unfold ofEntries
  exact (named_versionOf _).bind fun _ => named_ok _

/- A settings file that is not well-formed is named. -/
theorem isNamed_failureOf
    (file : String)
    (fault : Yaml.Fault) :
    (failureOf file fault).isNamed = true := by
  unfold failureOf
  split
  · rfl
  · next hOther =>
      unfold Failure.isNamed
      split
      · next hSame =>
          rcases Failure.settingsValue.inj hSame with rfl
          exact (hOther rfl).elim
      · rfl

theorem named_ofText
    (depths : Yaml.Depths)
    (file : String)
    (cs : List Char) :
    Named (ofText depths file cs) := by
  have hContent : ∀ content, Named (ofContent content) := by
    intro content
    cases content with
    | nothing => exact named_ok _
    | mapping entries => exact named_ofEntries entries
    | other =>
        intro failure hSame
        rw [← Except.error.inj hSame]
        rfl
  unfold ofText
  split
  · exact named_ok _
  · exact (named_mapError _ (isNamed_failureOf file)).bind
      hContent

theorem named_load
    (fs : FileSystem)
    (p : Path) :
    Named (load fs p) := by
  unfold load
  apply (named_mapError _ fun _ => rfl).bind
  intro file
  apply (named_mapError _ fun _ => rfl).bind
  intro root
  apply (named_mapError _ fun _ => rfl).bind
  intro isThere
  split
  · exact named_ok _
  · apply (named_mapError _ fun _ => rfl).bind
    intro bytes
    apply (named_mapError _ fun _ => rfl).bind
    intro cs
    exact (named_ofText _ _ _).bind fun _ => named_ok _

end Settings

------------------------------------------------------------
-- Reports of Failures
------------------------------------------------------------

namespace Logger

/- A logger shows every error on the console, in one line. -/
def ShowsErrors (l : Logger) : Prop :=
  ∀ r : Record, r.level = .error →
    l.consoleText r = r.consoleLine

/- The threshold of a settled logger lets errors pass. -/
theorem Settled.showsErrors
    {l : Logger}
    {verbose filed : Bool}
    (hSettled : l.Settled verbose filed) :
    l.ShowsErrors := by
  intro r hError
  have hPasses :
      r.level.passes (thresholdFor verbose) = true := by
    rw [hError]
    cases verbose with
    | true => rfl
    | false => rfl
  rw [hSettled.consoleText_eq, if_pos hPasses]

/- An error is never shown by an empty text. -/
theorem shownBy_of_showsErrors
    {l : Logger}
    {r : Record}
    (hShows : l.ShowsErrors)
    (hError : r.level = .error) :
    shownBy l r = [.console r.consoleLine] := by
  have hText : r.consoleLine ≠ [] := by
    unfold Record.consoleLine Record.line
    simp [Text.ofString, Text.ofChars]
  unfold shownBy
  rw [hShows r hError, if_pos (by simpa using hText)]

end Logger

namespace CommandLine

/- The kinds of failures that are reported in one line. -/
def plainKinds : List String :=
  ["ManifestError", "CommandError", "ConfigError",
    "KeyboardInterrupt"]

theorem level_recordOf (failure : Failure) :
    (recordOf failure).level = .error := by
  unfold recordOf
  dsimp only
  split
  · rfl
  · split
    · rfl
    · rfl

theorem pathKind_not_mem_plainKinds (fault : PathFault) :
    Failure.pathKind fault ∉ plainKinds := by
  cases fault with
  | refused problem p =>
      cases problem with
      | _ =>
          simp [Failure.pathKind, Failure.problemKind,
            plainKinds]
  | _ => simp [Failure.pathKind, plainKinds]

theorem valueKind_not_mem_plainKinds
    {fault : Yaml.Fault}
    (hOther : fault ≠ .malformed) :
    Failure.valueKind fault ∉ plainKinds := by
  cases fault with
  | malformed => exact (hOther rfl).elim
  | codePoint n =>
      unfold Failure.valueKind
      dsimp only
      split
      · decide
      · decide
  | _ => simp [Failure.valueKind, plainKinds]

/-
  The report of a failure has no cause just if the failure is
  one of those that a user is expected to meet, or an
  interrupt.
-/
theorem cause?_recordOf_eq_none_iff
    {failure : Failure}
    (hNamed : failure.isNamed = true) :
    (recordOf failure).cause? = none ↔
      failure.kind ∈ plainKinds := by
  cases failure with
  | path fault =>
      have hKind := pathKind_not_mem_plainKinds fault
      simp [recordOf, Failure.isExpected, Failure.kind, hKind]
  | settingsValue fault =>
      have hOther : fault ≠ .malformed := by
        rintro rfl
        cases hNamed
      have hKind := valueKind_not_mem_plainKinds hOther
      simp [recordOf, Failure.isExpected, Failure.kind, hKind]
  | _ =>
      simp [recordOf, Failure.isExpected, Failure.kind,
        plainKinds]

------------------------------------------------------------
-- Before the Migration
------------------------------------------------------------

/- All that is done before the migration itself. -/
def arrange (args : Arguments) : Session Migration := do
  Session.configure args.verbose args.log
  let path := Path.ofString args.path
  let located ←
    Session.ofExcept (Settings.load (← Session.files) path)
  Migration.prepare path (some (settingsFor args located.settings))
    args.yes

theorem migrate_eq_arrange_bind
    (args : Arguments)
    (shell : Shell) :
    migrate args shell =
      arrange args >>= fun m =>
        discard (m.run shell.guarded) := by
  unfold migrate arrange
  simp only [bind_assoc]

/-
  Whether the log file can be opened or not, errors are shown
  once the logger is configured, and nothing has happened
  yet.
-/
theorem ends_configure
    {verbose : Bool}
    {target : LogTarget}
    {w w' : World}
    {result : Except Failure Unit}
    (hEnds : Ends (configure verbose target) w result w') :
    w'.journal = w.journal ∧ w'.logger.ShowsErrors ∧
      Settings.Named result := by
  have hShows :=
    (Logger.settled_configure w.logger verbose target
      w.files).showsErrors
  have hOld := (ends_get w).of_bind hEnds
  have hRest := (ends_files w).of_bind hOld
  rcases hNew : w.logger.configure verbose target w.files with
    ⟨logger, fs, fault?⟩
  rw [hNew] at hRest hShows
  have hOpen := (ends_modify _ w).of_bind hRest
  split at hOpen
  · next fault =>
      rcases ends_throw_iff.mp hOpen with ⟨rfl, rfl⟩
      refine ⟨rfl, hShows, fun failure hSame => ?_⟩
      rw [← Except.error.inj hSame]
      rfl
  · rcases ends_throw_iff.mp hOpen with ⟨rfl, rfl⟩
    refine ⟨rfl, hShows, fun failure hSame => ?_⟩
    rw [← Except.error.inj hSame]
    rfl
  · rcases ends_pure_iff.mp hOpen with ⟨rfl, rfl⟩
    exact ⟨rfl, hShows, Settings.named_ok ()⟩

/- What is read of the project does not touch the world. -/
theorem ends_prepare
    {p : Path}
    {settings : Settings}
    {yes : Bool}
    {w w' : World}
    {result : Except Failure Migration}
    (hEnds :
      Ends (Migration.prepare p (some settings) yes) w result
        w') :
    w' = w ∧ Settings.Named result := by
  unfold Migration.prepare at hEnds
  rcases ends_bind_iff.mp hEnds with
    ⟨failure, hFailed, rfl⟩ | ⟨root, v, hFound, hRest⟩
  · rcases ends_ofFiles_error hFailed with
      ⟨⟨fault, rfl⟩, rfl⟩
    refine ⟨rfl, fun failure hSame => ?_⟩
    rw [← Except.error.inj hSame]
    rfl
  · rcases ends_ofFiles_iff.mp hFound with ⟨_, rfl⟩
    rcases ends_pure_iff.mp hRest with ⟨rfl, rfl⟩
    exact ⟨rfl, Settings.named_ok _⟩

theorem ends_arrange
    {args : Arguments}
    {w w' : World}
    {result : Except Failure Migration}
    (hEnds : Ends (arrange args) w result w') :
    w'.journal = w.journal ∧ w'.logger.ShowsErrors ∧
      Settings.Named result := by
  unfold arrange at hEnds
  rcases ends_bind_iff.mp hEnds with
    ⟨failure, hFailed, rfl⟩ | ⟨_, v, hConfigured, hRest⟩
  · rcases ends_configure hFailed with
      ⟨hJournal, hShows, hNamed⟩
    refine ⟨hJournal, hShows, fun other hSame => ?_⟩
    rw [← Except.error.inj hSame]
    exact hNamed failure rfl
  · rcases ends_configure hConfigured with
      ⟨hJournal, hShows, _⟩
    have hLoad := (ends_files v).of_bind hRest
    rcases ends_bind_iff.mp hLoad with
      ⟨failure, hFailed, rfl⟩ | ⟨located, u, hLoaded, hLast⟩
    · rcases ends_ofExcept_iff.mp hFailed with ⟨hResult, rfl⟩
      refine ⟨hJournal, hShows, fun other hSame => ?_⟩
      rw [← Except.error.inj hSame]
      exact Settings.named_load _ _ failure hResult.symm
    · rcases ends_ofExcept_iff.mp hLoaded with ⟨_, rfl⟩
      rcases ends_prepare hLast with ⟨rfl, hNamed⟩
      exact ⟨hJournal, hShows, hNamed⟩

------------------------------------------------------------
-- Exit Codes
------------------------------------------------------------

variable {d : Dialect} {argv : List String} {args : Arguments}
variable {shell : Shell} {w w' v : World}

/- A result that is not used is only waited for. -/
theorem discard_eq_bind
    {α : Type}
    (x : Session α) :
    discard x = x >>= fun _ => pure () := by
  unfold discard
  rw [map_const, Function.comp_apply, map_eq_pure_bind]

theorem run_of_ends
    (hParse : parse d argv = .ok (.migrate args))
    {result : Except Failure Unit}
    (hEnds : Ends (migrate args shell) w result w') :
    (run d argv shell).run w =
      match result with
      | .ok () => (0, w')
      | .error failure => (1, recorded (recordOf failure) w') := by
  unfold Ends at hEnds
  unfold run guarded
  rw [hParse]
  dsimp only
  rw [StateT.run_bind, hEnds]
  cases result with
  | ok u => rfl
  | error failure =>
      have hWritten := ends_write (recordOf failure) w'
      unfold Ends at hWritten
      dsimp only
      exact congrArg (fun r => (1, r.2)) hWritten

/- A migration that returns has been arranged, and has run. -/
theorem ends_migrate_ok_iff :
    Ends (migrate args shell) w (.ok ()) w' ↔
      ∃ m v outcome,
        Runs (arrange args) w m v ∧
          Runs (m.run shell.guarded) v outcome w' := by
  rw [migrate_eq_arrange_bind]
  constructor
  · intro hEnds
    rcases runs_bind_iff.mp hEnds with
      ⟨m, v, hArranged, hDiscard⟩
    rw [discard_eq_bind] at hDiscard
    rcases runs_bind_iff.mp hDiscard with
      ⟨outcome, u, hRan, hPure⟩
    rcases runs_pure_iff.mp hPure with ⟨_, rfl⟩
    exact ⟨m, v, outcome, hArranged, hRan⟩
  · rintro ⟨m, v, outcome, hArranged, hRan⟩
    apply runs_bind_iff.mpr
    refine ⟨m, v, hArranged, ?_⟩
    rw [discard_eq_bind]
    exact runs_bind_iff.mpr
      ⟨outcome, w', hRan, runs_pure_iff.mpr ⟨rfl, rfl⟩⟩

/- Up to its failure, a migration reports no error. -/
theorem ends_migrate_error
    {failure : Failure}
    (hEnds : Ends (migrate args shell) w (.error failure) w') :
    failure.isNamed = true ∧ w'.logger.ShowsErrors ∧
      ∃ events,
        w'.journal = w.journal ++ events ∧
          ∀ e ∈ events, e.isError = false := by
  rw [migrate_eq_arrange_bind] at hEnds
  rcases ends_bind_iff.mp hEnds with
    ⟨other, hFailed, hSame⟩ | ⟨m, v, hArranged, hDiscard⟩
  · rcases Except.error.inj hSame with rfl
    rcases ends_arrange hFailed with ⟨hJournal, hShows, hNamed⟩
    exact ⟨hNamed failure rfl, hShows, [], by simp [hJournal],
      by simp⟩
  · rcases ends_arrange hArranged with ⟨hJournal, hShows, _⟩
    rw [discard_eq_bind] at hDiscard
    rcases ends_bind_iff.mp hDiscard with
      ⟨other, hFailed, hSame⟩ | ⟨outcome, u, _, hPure⟩
    · rcases Except.error.inj hSame with rfl
      rcases Migration.orderly_run m shell.guarded v _ w' hFailed with
        ⟨hErrorless, hNamed⟩
      rcases hErrorless.journal with ⟨events, hEvents, hNone⟩
      refine ⟨hNamed failure rfl, ?_, events, ?_, hNone⟩
      · rw [hErrorless.logger]
        exact hShows
      · rw [hEvents, hJournal]
    · cases (ends_pure_iff.mp hPure).1

/- What is reported last stands at the end of standard error. -/
theorem standardError_of_journal
    {events : List Event}
    {r : Record}
    {text : Text}
    (hJournal :
      w.journal = events ++ [.record r, .console text]) :
    ∃ shown, w.standardError = shown ++ text.escaped := by
  unfold World.standardError
  rw [hJournal, List.map_append, String.join_append]
  refine ⟨_, congrArg (_ ++ ·) ?_⟩
  simp

/- What is printed last stands at the end of the output. -/
theorem standardOutput_of_journal
    {events : List Event}
    {text : Text}
    (hJournal : w.journal = events ++ [.echo text]) :
    ∃ shown,
      w.standardOutput = shown ++ (text.escaped ++ "\n") := by
  unfold World.standardOutput
  rw [hJournal, List.map_append, String.join_append]
  refine ⟨_, congrArg (_ ++ ·) ?_⟩
  simp

/-
  A command line that is accepted ends with zero or one. It
  ends with zero just if the migration has returned: then all
  commands that were planned have been run and have
  succeeded, no error has been logged, and what happens last
  is that the summary of what was found and done is printed.
  It ends with one just if something has failed, be it the
  opening of the log file or the printing itself: then one
  error is logged, which is shown at the end of standard
  error, and its cause is left out just for the failures that
  a user is expected to meet and for an interrupt.
-/
theorem exit_of_run
    (hParse : parse d argv = .ok (.migrate args))
    (shell : Shell)
    (w : World) :
    ∃ w',
      ((run d argv shell).run w = (0, w') ∧
        ∃ m v outcome,
          Runs (arrange args) w m v ∧
            Runs (m.run shell.guarded) v outcome w' ∧
            v.journal = w.journal ∧
            m.Concludes shell.guarded v outcome w' ∧
            ∃ shown text,
              w'.standardOutput =
                  shown ++ (text.escaped ++ "\n") ∧
                Summary.Tells text outcome.summary) ∨
        (run d argv shell).run w = (1, w') ∧
          (¬ ∃ m v outcome u,
            Runs (arrange args) w m v ∧
              Runs (m.run shell.guarded) v outcome u) ∧
          ∃ failure v events,
            Ends (migrate args shell) w (.error failure) v ∧
              w'.journal =
                w.journal ++ events ++
                  [.record (recordOf failure),
                    .console (recordOf failure).consoleLine] ∧
              (∀ e ∈ events, e.isError = false) ∧
              (∃ shown,
                w'.standardError =
                  shown ++
                    (recordOf failure).consoleLine.escaped) ∧
              (recordOf failure).level = .error ∧
              ((recordOf failure).cause? = none ↔
                failure.kind ∈ plainKinds) := by
  rcases exists_ends (migrate args shell) w with
    ⟨result, v, hEnds⟩
  have hRun := run_of_ends hParse hEnds
  cases result with
  | ok u =>
      refine ⟨v, Or.inl ⟨hRun, ?_⟩⟩
      rcases ends_migrate_ok_iff.mp hEnds with
        ⟨m, v₁, outcome, hArranged, hRan⟩
      have hJournal := (ends_arrange hArranged).1
      have hConcludes := Migration.concludes_of_runs hRan
      rcases hConcludes.printed with
        ⟨events, text, hPrinted, _, _, hTells⟩
      rcases standardOutput_of_journal hPrinted with
        ⟨shown, hShown⟩
      exact ⟨m, v₁, outcome, hArranged, hRan, hJournal,
        hConcludes, shown, text, hShown, hTells⟩
  | error failure =>
      rcases ends_migrate_error hEnds with
        ⟨hNamed, hShows, events, hEvents, hNone⟩
      have hJournal :
          (recorded (recordOf failure) v).journal =
            w.journal ++ events ++
              [.record (recordOf failure),
                .console (recordOf failure).consoleLine] := by
        unfold recorded
        rw [Logger.shownBy_of_showsErrors hShows
          (level_recordOf failure), ← hEvents]
        simp
      refine ⟨_, Or.inr ⟨hRun, ?_, failure, v, events, hEnds,
        hJournal, hNone, standardError_of_journal hJournal,
        level_recordOf failure,
        cause?_recordOf_eq_none_iff hNamed⟩⟩
      rintro ⟨m, v₁, outcome, u, hArranged, hRan⟩
      have hReturned :
          Ends (migrate args shell) w (.ok ()) u :=
        ends_migrate_ok_iff.mpr ⟨m, v₁, outcome, hArranged, hRan⟩
      cases (hEnds.unique hReturned).1

/- The dialect that keeps dashes and leaves letters. -/
def keptDialect : Dialect := ⟨true, true⟩

/- The arguments of one who wants a directory as log file. -/
def unopenedLog : Arguments :=
  { Arguments.standard with log := .file ⟨.root, []⟩ }

/- The kind of the failure that a result is. -/
def kindOf {α : Type} : Except Failure α → String
  | .error failure => failure.kind
  | .ok _ => ""

/-
  The log file cannot be opened. This is reported with its
  cause on standard error.
-/
theorem exit_unopenedLog :
    parse keptDialect ["--log-file", "/"] =
        .ok (.migrate unopenedLog) ∧
      ∃ w' failure events,
        (run keptDialect ["--log-file", "/"]
              Migration.failingShell).run
            (Migration.loggedWorld .initial []) = (1, w') ∧
          w'.journal =
            events ++
              [.record (recordOf failure),
                .console (recordOf failure).consoleLine] ∧
          (∀ e ∈ events, e.isError = false) ∧
          (∃ shown,
            w'.standardError =
              shown ++
                (recordOf failure).consoleLine.escaped) ∧
          failure.kind = "IsADirectoryError" ∧
          (recordOf failure).cause? ≠ none := by
  have hParse :
      parse keptDialect ["--log-file", "/"] =
        .ok (.migrate unopenedLog) := by
    decide +kernel
  have hKind :
      kindOf
          ((migrate unopenedLog Migration.failingShell).run.run
            (Migration.loggedWorld .initial [])).1 =
        "IsADirectoryError" := by
    decide +kernel
  refine ⟨hParse, ?_⟩
  rcases exit_of_run hParse Migration.failingShell
      (Migration.loggedWorld .initial []) with
    ⟨w', ⟨_, m, v, outcome, hArranged, hRan, _⟩ |
      ⟨hRun, _, failure, v, events, hEnds, hJournal, hNone,
        hShown, _, hCause⟩⟩
  · have hOk := ends_migrate_ok_iff.mpr
      ⟨m, v, outcome, hArranged, hRan⟩
    unfold Ends at hOk
    rw [hOk] at hKind
    have hSame : "" = "IsADirectoryError" := hKind
    simp at hSame
  · unfold Ends at hEnds
    rw [hEnds] at hKind
    have hSame : failure.kind = "IsADirectoryError" := hKind
    refine ⟨w', failure, events, hRun, hJournal, hNone, hShown,
      hSame, fun hCauseless => ?_⟩
    have hPlain := hCause.mp hCauseless
    rw [hSame] at hPlain
    revert hPlain
    decide

end CommandLine

end BiomeMigration
