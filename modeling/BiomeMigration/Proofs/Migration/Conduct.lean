import BiomeMigration.Proofs.Migration.Preservation
import BiomeMigration.Proofs.Migration.Protocol

/-
  How a migration behaves, however it ends: nothing happens
  before its last answer, and then it runs its commands in
  order, up to the first that fails.

  Main declarations:
    * `Migration.idle_until_answered`
    * `Migration.Conduct`
    * `Migration.conduct_of_run`
-/

------------------------------------------------------------
-- Before the Last Answer
------------------------------------------------------------

namespace BiomeMigration

open Session

namespace Migration

variable {m : Migration} {shell : Shell} {i : Inquiry}
variable {w w' v : World} {result : Except Failure Outcome}
variable {es : List Execution}

theorem idle_of_inquiry
    {found : Except Failure Inquiry}
    (hEnds : Ends m.inquiry w found w') :
    w.Idle w' ∧ ∀ r, found ≠ .error (.command r) :=
  keeps_inquiry World.steady_idle m World.idle_asked w found w'
    hEnds

/- Nothing is asked once the changes have begun. -/
theorem prompts_of_changes
    (hEnds : Ends (m.changes shell i) w result w') :
    w'.prompts = w.prompts := by
  rcases follows_of_changes hEnds with ⟨es, hFollows⟩
  exact hFollows.ran.prompts

/-
  Up to the last answer no command is run, and no place but
  an open log file is touched. At most two questions are
  asked, and a migration that ends before the last answer
  leaves it at that.
-/
theorem idle_until_answered
    (hEnds : Ends (m.run shell) w result w') :
    ∃ v questions,
      w.Idle v ∧
        m.Asks w.files questions ∧
        v.prompts = w.prompts ++ promptsOf questions w.lines ∧
        w'.prompts = v.prompts ∧
        ((∃ failure,
            result = .error failure ∧
              Ends m.inquiry w (.error failure) v ∧ w' = v) ∨
          ∃ i,
            Runs m.inquiry w i v ∧
              Ends (m.changes shell i) v result w') := by
  rw [run_eq_inquiry_bind] at hEnds
  rcases ends_bind_iff.mp hEnds with
    ⟨failure, hFailed, hResult⟩ | ⟨i, v, hInquiry, hChanges⟩
  · rcases asks_of_inquiry hFailed with
      ⟨questions, hAsks, hPrompts⟩
    exact ⟨w', questions, (idle_of_inquiry hFailed).1, hAsks,
      hPrompts, rfl, Or.inl ⟨failure, hResult, hFailed, rfl⟩⟩
  · rcases asks_of_inquiry hInquiry with
      ⟨questions, hAsks, hPrompts⟩
    exact ⟨v, questions, (idle_of_inquiry hInquiry).1, hAsks,
      hPrompts, prompts_of_changes hChanges,
      Or.inr ⟨i, hInquiry, hChanges⟩⟩

/- A project of which the user is asked everything. -/
def askingProject : Migration where
  root := ⟨.root, []⟩
  settings :=
    { version := "2"
      removeLegacy? := none
      cleanComments? := none
      runFix := true }
  assumeYes := false

/- The place of a log file. -/
def logPlace : Location :=
  ["migration.log"]

/-
  A world with a manifest that lists one of the old tools,
  and with a file that the logger may write to.
-/
def loggedWorld
    (l : Logger)
    (lines : List (Option String)) : World where
  files :=
    { root :=
        .directory
          [(Manifest.fileName,
              .file (Utf8.encode
                "\x7b\"devDependencies\": \x7b\"eslint\": 1\x7d\x7d".toList)),
            ("migration.log", .file [])]
      working := []
      home := ⟨.root, []⟩
      homes := []
      opened := [logPlace] }
  logger := l
  lines := lines
  journal := []

/- A logger that writes to a file. -/
def fileLogger : Logger :=
  ⟨some .info, [.file logPlace], false⟩

/- A shell in which each command fails and changes nothing. -/
def failingShell : Shell :=
  fun command fs => (.ok ⟨command, some 1, none⟩, fs)

/- A result is an interrupt. -/
def isInterrupt {α : Type} : Except Failure α → Bool
  | .error .interrupted => true
  | _ => false

theorem eq_of_isInterrupt
    {α : Type}
    {found : Except Failure α}
    (hInterrupt : isInterrupt found = true) :
    found = .error .interrupted := by
  unfold isInterrupt at hInterrupt
  split at hInterrupt
  · rfl
  · simp at hInterrupt

/-
  The first question is asked twice, and the second one is
  interrupted: three prompts, and nothing else.
-/
theorem idle_askingProject :
    ∃ w',
      Ends (askingProject.run failingShell)
          (loggedWorld .initial [some "?", some "y", none])
          (.error .interrupted) w' ∧
        (loggedWorld .initial [some "?", some "y", none]).Idle
          w' ∧
        w'.prompts.length = 3 := by
  have hRun :
      isInterrupt
          ((askingProject.run failingShell).run.run
            (loggedWorld .initial
              [some "?", some "y", none])).1 = true := by
    decide +kernel
  have hInquiry :
      isInterrupt
          (askingProject.inquiry.run.run
            (loggedWorld .initial
              [some "?", some "y", none])).1 = true := by
    decide +kernel
  have hShown :
      ((askingProject.run failingShell).run.run
        (loggedWorld .initial
          [some "?", some "y", none])).2.prompts.length = 3 := by
    decide +kernel
  rcases hEnds :
      (askingProject.run failingShell).run.run
        (loggedWorld .initial [some "?", some "y", none]) with
    ⟨result, w'⟩
  rw [hEnds] at hRun hShown
  rcases eq_of_isInterrupt hRun with rfl
  refine ⟨w', hEnds, ?_, hShown⟩
  rcases idle_until_answered hEnds with
    ⟨v, _, hIdle, _, _, _, ⟨_, _, _, rfl⟩ | ⟨i, hRuns, _⟩⟩
  · exact hIdle
  · unfold Runs at hRuns
    rw [hRuns] at hInquiry
    cases hInquiry

/- What is in the log file. -/
def logText (fs : FileSystem) : Option Bytes :=
  match fs.root.at? logPlace with
  | some (.file content) => some content
  | _ => none

/-
  With a log file, the files are not what they were when a
  question is interrupted.
-/
theorem not_untouched_askingProject :
    ∃ w',
      Ends (askingProject.run failingShell)
          (loggedWorld fileLogger [none])
          (.error .interrupted) w' ∧
        logText (loggedWorld fileLogger [none]).files = some [] ∧
        logText w'.files ≠ some [] := by
  have hRun :
      isInterrupt
          ((askingProject.run failingShell).run.run
            (loggedWorld fileLogger [none])).1 = true := by
    decide +kernel
  have hLog :
      logText
          ((askingProject.run failingShell).run.run
            (loggedWorld fileLogger [none])).2.files ≠
        some [] := by
    decide +kernel
  rcases hEnds :
      (askingProject.run failingShell).run.run
        (loggedWorld fileLogger [none]) with
    ⟨result, w'⟩
  rw [hEnds] at hRun hLog
  rcases eq_of_isInterrupt hRun with rfl
  exact ⟨w', hEnds, rfl, hLog⟩

------------------------------------------------------------
-- The Commands
------------------------------------------------------------

/- The steps of a migration but the last ones. -/
def earlySteps
    (m : Migration)
    (l : Logger)
    (i : Inquiry) : List Session.Step :=
  i.removalSteps l ++ [m.installStep l i]

/-
  How a migration that has come to its last answer goes on.
  Its commands are the first of a plan that the inquiry has
  settled, each run on what may have become of the files that
  the one before it has left. The last one is the only one
  that may fail, and its failure is the migration's. A summary
  that has no UTF-8 form comes after all commands.
-/
structure Conduct
    (m : Migration)
    (shell : Shell)
    (w : World)
    (result : Except Failure Outcome)
    (w' : World)
    (i : Inquiry)
    (v : World)
    (es : List Execution) : Prop where
  inquiry : Runs m.inquiry w i v
  idle : w.Idle v
  legacy :
    ∃ manifest,
      Manifest.read w.files m.root = .ok manifest ∧
        i.survey.legacy = Legacy.packages manifest
  manager :
    ∃ u, Runs (Probe.detect m.root) w i.survey.manager u
  removal :
    i.decisions.removeLegacy = true ↔
      i.survey.legacy ≠ [] ∧
        m.reply m.settings.removeLegacy? removalQuestion
          w.lines = some true
  executions : w'.executions = w.executions ++ es
  commands :
    es.map Execution.command <+:
      (m.earlySteps w.logger i ++
        m.fixSteps w.logger i).map Session.Step.command
  course :
    Course shell
      (m.earlySteps w.logger i ++ m.fixSteps w.logger i)
      v.files es
  ending :
    Completed shell (m.earlySteps w.logger i)
        (m.fixSteps w.logger i) result es ∨
      Aborted shell result w' es ∨
      Unprinted shell
        (m.earlySteps w.logger i ++ m.fixSteps w.logger i)
        (i.Summarizes m) result es
  raised :
    ∀ r, result = .error (.command r) ↔
      ∃ e ∈ es,
        (shell e.command e.before).1 = .ok r ∧ r.ok = false
  named :
    ∀ r, result = .error (.command r) →
      ∃ done e reason,
        es = done ++ [e] ∧
          (shell e.command e.before).1 = .ok r ∧
          r.command = e.command ∧
          (Failure.command r).message =
            Text.ofString "Command failed: " ++ e.command
              ++ Text.ofString reason

/- The message of a failed command names it. -/
theorem message_of_command (r : CommandResult) :
    ∃ reason,
      (Failure.command r).message =
        Text.ofString "Command failed: " ++ r.command
          ++ Text.ofString reason := by
  unfold Failure.message CommandResult.message
  exact ⟨_, rfl⟩

/- The removal is decided by the first reply. -/
theorem removal_of_consult
    {s : Survey}
    {d : Decisions}
    (hRuns : Runs (m.consult s) w d w') :
    d.removeLegacy = true ↔
      s.legacy ≠ [] ∧
        m.reply m.settings.removeLegacy? removalQuestion
          w.lines = some true := by
  rw [consult_eq] at hRuns
  rcases runs_bind_iff.mp hRuns with
    ⟨removeLegacy, w₁, hRemoval, hRest⟩
  rcases runs_bind_iff.mp hRest with
    ⟨cleanComments, w₂, _, hPure⟩
  rcases runs_pure_iff.mp hPure with ⟨rfl, _⟩
  unfold consultRemoval at hRemoval
  cases hLegacy : s.legacy with
  | nil =>
      rw [hLegacy] at hRemoval
      rcases runs_pure_iff.mp hRemoval with ⟨rfl, _⟩
      simp
  | cons package packages =>
      rw [hLegacy] at hRemoval
      have hReply := (ends_decide hRemoval).1
      cases hAnswer :
          m.reply m.settings.removeLegacy? removalQuestion
            w.lines with
      | none =>
          rw [hAnswer] at hReply
          cases hReply
      | some answer =>
          rw [hAnswer] at hReply
          rcases Except.ok.inj hReply with rfl
          simp

theorem removal_of_inquiry
    (hRuns : Runs m.inquiry w i v) :
    i.decisions.removeLegacy = true ↔
      i.survey.legacy ≠ [] ∧
        m.reply m.settings.removeLegacy? removalQuestion
          w.lines = some true := by
  unfold inquiry at hRuns
  rcases runs_bind_iff.mp hRuns with ⟨s, w₁, hSurvey, hRest₁⟩
  rcases runs_bind_iff.mp hRest₁ with ⟨_, w₂, hPresent, hRest₂⟩
  rcases runs_bind_iff.mp hRest₂ with ⟨d, w₃, hConsult, hPure⟩
  rcases runs_pure_iff.mp hPure with ⟨rfl, _⟩
  have hLines : w₂.lines = w.lines :=
    ((keeps_present World.steady_input s).of_runs
        hPresent).1.trans
      ((keeps_survey World.steady_input m).of_runs hSurvey).1
  rw [← hLines]
  exact removal_of_consult hConsult

/- What the inquiry has found out about the project. -/
theorem found_of_inquiry
    (hRuns : Runs m.inquiry w i v) :
    ∃ manifest u,
      Manifest.read w.files m.root = .ok manifest ∧
        i.survey.legacy = Legacy.packages manifest ∧
        i.survey.archetype = .ofManifest manifest ∧
        Runs (Probe.detect m.root) w i.survey.manager u := by
  unfold inquiry at hRuns
  rcases runs_bind_iff.mp hRuns with ⟨s, w₁, hSurvey, hRest₁⟩
  rcases runs_bind_iff.mp hRest₁ with ⟨_, w₂, _, hRest₂⟩
  rcases runs_bind_iff.mp hRest₂ with ⟨d, w₃, _, hPure⟩
  rcases runs_pure_iff.mp hPure with ⟨rfl, _⟩
  rcases runs_survey hSurvey with
    ⟨manifest, hRead, hLegacy, hArchetype, hDetect⟩
  exact ⟨manifest, w₁, hRead, hLegacy, hArchetype, hDetect⟩

/- A command's failure is that of the last command. -/
theorem last_of_raised
    {steps last : List Session.Step}
    {Shows : Text → Prop}
    {r : CommandResult}
    (hEnding :
      Completed shell steps last result es ∨
        Aborted shell result w' es ∨
        Unprinted shell (steps ++ last) Shows result es)
    (hResult : result = .error (.command r)) :
    ∃ done e,
      es = done ++ [e] ∧
        (shell e.command e.before).1 = .ok r ∧ r.ok = false := by
  subst hResult
  rcases hEnding with hCompleted | hAborted | hUnprinted
  · exact (hCompleted.other r rfl).elim
  · rcases hAborted.last with
      ⟨done, e, failure, hLast, _, _, hVerdict, hSame, _⟩
    rcases Except.error.inj hSame with rfl
    exact ⟨done, e, hLast, verdict_eq_command_iff.mp hVerdict⟩
  · rcases hUnprinted.unprinted with ⟨_, _, _, _, hSame⟩
    cases hSame

/- A command that reports its failure raises it. -/
theorem raised_of_mem
    {steps last : List Session.Step}
    {Shows : Text → Prop}
    {e : Execution}
    {r : CommandResult}
    (hEnding :
      Completed shell steps last result es ∨
        Aborted shell result w' es ∨
        Unprinted shell (steps ++ last) Shows result es)
    (hMem : e ∈ es)
    (hRan : (shell e.command e.before).1 = .ok r)
    (hFailed : r.ok = false) :
    result = .error (.command r) := by
  have hUnsuccessful : ¬ e.Succeeds shell := by
    rintro ⟨r', hRan', hOk⟩
    rw [hRan] at hRan'
    rcases Except.ok.inj hRan' with rfl
    rw [hFailed] at hOk
    cases hOk
  rcases hEnding with hCompleted | hAborted | hUnprinted
  · exact (hUnsuccessful (hCompleted.succeed e hMem)).elim
  · rcases hAborted.last with
      ⟨done, d, failure, rfl, hDone, _, hVerdict, hResult, _⟩
    rcases List.mem_append.mp hMem with hEarly | hLate
    · exact (hUnsuccessful (hDone e hEarly)).elim
    · rcases List.mem_singleton.mp hLate with rfl
      rw [hRan, verdict_of_not_ok hFailed] at hVerdict
      rcases Except.error.inj hVerdict with rfl
      exact hResult
  · exact (hUnsuccessful (hUnprinted.succeed e hMem)).elim

/-
  A migration either ends before its last answer, or runs
  the commands of its plan up to the first one that fails.
-/
theorem conduct_of_run
    (hReports :
      ∀ text fs r, (shell text fs).1 = .ok r → r.command = text)
    (hEnds : Ends (m.run shell) w result w') :
    (∃ failure,
      result = .error failure ∧
        (∀ r, failure ≠ .command r) ∧
        Ends m.inquiry w (.error failure) w' ∧ w.Idle w') ∨
      ∃ i v es, m.Conduct shell w result w' i v es := by
  rw [run_eq_inquiry_bind] at hEnds
  rcases ends_bind_iff.mp hEnds with
    ⟨failure, hFailed, rfl⟩ | ⟨i, v, hInquiry, hChanges⟩
  · rcases idle_of_inquiry hFailed with ⟨hIdle, hOther⟩
    exact Or.inl ⟨failure, rfl,
      fun r hSame => hOther r (congrArg Except.error hSame),
      hFailed, hIdle⟩
  · right
    have hIdle := (idle_of_inquiry hInquiry).1
    rcases found_of_inquiry hInquiry with
      ⟨manifest, u, hRead, hLegacy, _, hDetect⟩
    rcases follows_of_changes hChanges with ⟨es, hFollows⟩
    rw [hIdle.logger] at hFollows
    refine ⟨i, v, es,
      { inquiry := hInquiry
        idle := hIdle
        legacy := ⟨manifest, hRead, hLegacy⟩
        manager := ⟨u, hDetect⟩
        removal := removal_of_inquiry hInquiry
        executions := ?_
        commands := hFollows.course.commands
        course := hFollows.course
        ending := hFollows.ending
        raised := ?_
        named := ?_ }⟩
    · rw [hFollows.ran.executions, hIdle.executions]
    · intro r
      constructor
      · intro hResult
        rcases last_of_raised hFollows.ending hResult with
          ⟨done, e, rfl, hRan, hFailed⟩
        exact ⟨e, by simp, hRan, hFailed⟩
      · rintro ⟨e, hMem, hRan, hFailed⟩
        exact raised_of_mem hFollows.ending hMem hRan hFailed
    · intro r hResult
      rcases last_of_raised hFollows.ending hResult with
        ⟨done, e, hLast, hRan, _⟩
      have hName : r.command = e.command := hReports _ _ r hRan
      rcases message_of_command r with ⟨reason, hMessage⟩
      rw [hName] at hMessage
      exact ⟨done, e, reason, hLast, hRan, hName, hMessage⟩

/-
  A shell in which the removal succeeds and leaves the
  settings of the old tools, and nothing else succeeds.
-/
def halfwayShell : Shell :=
  fun command fs =>
    if command = "npm uninstall eslint" then
      (.ok ⟨command, some 0, none⟩,
        bareFiles "\x7b\"prettier\": 1, \"a\": 1\x7d" [])
    else (.ok ⟨command, some 1, none⟩, fs)

theorem command_halfwayShell
    (text : Text)
    (fs : FileSystem)
    (r : CommandResult)
    (hRan : (halfwayShell text fs).1 = .ok r) :
    r.command = text := by
  unfold halfwayShell at hRan
  split at hRan
  · rcases Except.ok.inj hRan with rfl
    rfl
  · rcases Except.ok.inj hRan with rfl
    rfl

/- A result is the failure of a command. -/
def isCommand {α : Type} : Except Failure α → Bool
  | .error (.command _) => true
  | _ => false

theorem of_isCommand
    {α : Type}
    {found : Except Failure α}
    (hCommand : isCommand found = true) :
    ∃ r, found = .error (.command r) := by
  unfold isCommand at hCommand
  split at hCommand
  · next r => exact ⟨r, rfl⟩
  · simp at hCommand

/- The second command of the bare project fails. -/
theorem conduct_bareProject :
    (∀ text fs r,
        (halfwayShell text fs).1 = .ok r → r.command = text) ∧
      ∃ r w',
        Ends (bareProject.run halfwayShell)
            (bareWorld .initial []) (.error (.command r)) w' ∧
          ∃ i v es,
            bareProject.Conduct halfwayShell
                (bareWorld .initial []) (.error (.command r)) w'
                i v es ∧
              es.length = 2 := by
  refine ⟨command_halfwayShell, ?_⟩
  have hFailed :
      isCommand
          ((bareProject.run halfwayShell).run.run
            (bareWorld .initial [])).1 = true := by
    decide +kernel
  have hLength :
      ((bareProject.run halfwayShell).run.run
        (bareWorld .initial [])).2.executions.length = 2 := by
    decide +kernel
  rcases hEnds :
      (bareProject.run halfwayShell).run.run
        (bareWorld .initial []) with
    ⟨result, w'⟩
  rw [hEnds] at hFailed hLength
  rcases of_isCommand hFailed with ⟨r, rfl⟩
  refine ⟨r, w', hEnds, ?_⟩
  rcases conduct_of_run command_halfwayShell hEnds with
    ⟨failure, hSame, hOther, _⟩ | ⟨i, v, es, hConduct⟩
  · exact (hOther r (Except.error.inj hSame).symm).elim
  · refine ⟨i, v, es, hConduct, ?_⟩
    have hExecutions := hConduct.executions
    rw [hExecutions] at hLength
    exact hLength

/- A project from which the old tools are to be removed. -/
def decidedProject : Migration :=
  { askingProject with assumeYes := true }

/-
  With a log file, something has been written when the
  removal fails.
-/
theorem not_unwritten_decidedProject :
    ∃ r w' removal,
      Ends (decidedProject.run failingShell)
          (loggedWorld fileLogger []) (.error (.command r)) w' ∧
        w'.executions = [removal] ∧
        removal.command = "npm uninstall eslint" ∧
        logText (loggedWorld fileLogger []).files = some [] ∧
        logText removal.before ≠ some [] := by
  have hFailed :
      isCommand
          ((decidedProject.run failingShell).run.run
            (loggedWorld fileLogger [])).1 = true := by
    decide +kernel
  have hLength :
      ((decidedProject.run failingShell).run.run
        (loggedWorld fileLogger [])).2.executions.length = 1 := by
    decide +kernel
  have hRemovals :
      (((decidedProject.run failingShell).run.run
        (loggedWorld fileLogger [])).2.executions.all fun e =>
          e.command == "npm uninstall eslint" &&
            logText e.before != some []) = true := by
    decide +kernel
  rcases hEnds :
      (decidedProject.run failingShell).run.run
        (loggedWorld fileLogger []) with
    ⟨result, w'⟩
  rw [hEnds] at hFailed hLength hRemovals
  rcases of_isCommand hFailed with ⟨r, rfl⟩
  rcases List.length_eq_one_iff.mp hLength with
    ⟨removal, hExecutions⟩
  dsimp only at hRemovals
  rw [hExecutions, List.all_cons, List.all_nil, Bool.and_true,
    Bool.and_eq_true, beq_iff_eq, bne_iff_ne] at hRemovals
  exact ⟨r, w', removal, hEnds, hExecutions, hRemovals.1, rfl,
    hRemovals.2⟩

end Migration

end BiomeMigration
