import BiomeMigration.Proofs.Migration.Conduct
import BiomeMigration.Proofs.Migration.Deaf
import BiomeMigration.Proofs.Session.Orderly

/-
  How a migration that succeeds comes to its end: it has run
  all of its commands, and what it prints last says what was
  found in the project and what the steps have made of it.

  Main declarations:
    * `Summary.projectStatements`
    * `Summary.changeStatements`
    * `Summary.Tells`
    * `Summary.tells_text`
    * `Migration.Concludes`
    * `Migration.concludes_of_runs`
-/

------------------------------------------------------------
-- The Text of a Summary
------------------------------------------------------------

namespace BiomeMigration

open Session

theorem Text.ofString_append (s t : String) :
    Text.ofString (s ++ t) =
      Text.ofString s ++ Text.ofString t := by
  simp [Text.ofString, Text.ofChars]

namespace Summary

/- A line with a label and a value. -/
def stated
    (label : String)
    (value : Text) : Text :=
  Text.ofString (label ++ ": ") ++ value

/- What is stated about the packages of the old tools. -/
def legacyStatements (s : Summary) : List Text :=
  let found :=
    stated "Legacy ESLint/Prettier packages found"
      (toString s.legacy.length)
  if s.legacy = [] then [found]
  else
    [found,
      stated "Legacy packages removed" (yesNo s.legacyRemoved)]

/- What is stated about the project. -/
def projectStatements (s : Summary) : List Text :=
  [stated "Project type" s.archetype.id,
    stated "Package manager" s.manager.id,
    stated "Biome version" s.version,
    stated "TypeScript" (yesNo s.typescript)]

/- Whether there is a new configuration. -/
def creation (s : Summary) : String :=
  if s.configWritten then "yes" else "no (already present)"

/- What is stated about the changes. -/
def changeStatements (s : Summary) : List Text :=
  s.legacyStatements
    ++ [stated "biome.json created" s.creation,
      stated "Files scanned for ESLint comments"
        (toString s.figures.scanned),
      stated "Files updated" (toString s.figures.updated),
      stated "ESLint directive comments removed"
        (toString s.figures.removed)]

/- The commands that the user is told to go on with. -/
def nextLines (s : Summary) : List Text :=
  ["Next steps:", Text.ofString ("  " ++ s.manager.lint),
    Text.ofString ("  " ++ s.manager.lintFix)]

/-
  The lines of a text state all that a summary does, in
  order, and end with the next steps.
-/
def Tells
    (text : Text)
    (s : Summary) : Prop :=
  ∃ before,
    text = Report.lines (before ++ s.nextLines) ∧
      List.Sublist (s.projectStatements ++ s.changeStatements)
        before

theorem stated_ofString (label value : String) :
    stated label value = Text.ofString (label ++ ": " ++ value) := by
  unfold stated
  rw [Text.ofString_append (label ++ ": ")]

theorem legacyStatements_eq (s : Summary) :
    s.legacyStatements = s.legacyLines := by
  unfold legacyStatements legacyLines
  simp only [stated_ofString, List.isEmpty_iff]
  rfl

theorem tells_text (s : Summary) :
    Tells s.text s := by
  refine ⟨Report.heading "Summary" ++ s.projectStatements
    ++ [Text.ofString ""] ++ s.changeStatements
    ++ [Text.ofString ""], ?_, ?_⟩
  · unfold text projectStatements changeStatements nextLines
    rw [legacyStatements_eq]
    simp only [stated_ofString, List.append_assoc,
      List.cons_append, List.nil_append]
    rfl
  · have hProject :
        List.Sublist s.projectStatements
          (Report.heading "Summary" ++ s.projectStatements) :=
      List.sublist_append_right _ _
    rw [List.append_assoc _ s.changeStatements]
    exact (hProject.trans (List.sublist_append_left _ _)).append
      (List.sublist_append_left _ _)

end Summary

------------------------------------------------------------
-- Migrations that Report no Error
------------------------------------------------------------

namespace Migration

variable {m : Migration} {shell : Shell} {i : Inquiry}
variable {w w' : World} {outcome : Outcome}

theorem orderly_decide
    (m : Migration)
    (choice? : Option Bool)
    (q : Question) :
    Orderly (m.decide choice? q) := by
  unfold decide Question.confirm
  split
  · exact orderly_of_deaf (deaf_pure _)
  · split
    · exact orderly_of_deaf (deaf_pure _)
    · exact orderly_ask q

theorem orderly_inquiry (m : Migration) :
    Orderly m.inquiry := by
  have hRemoval :
      ∀ s, Orderly (m.consultRemoval s) := by
    intro s
    unfold consultRemoval
    split
    · exact orderly_of_deaf (deaf_pure _)
    · exact orderly_decide m _ _
  unfold inquiry
  apply (orderly_of_deaf (deaf_survey m)).bind
  intro s
  apply (orderly_of_deaf (deaf_present s)).bind
  intro _
  rw [consult_eq]
  refine Orderly.bind (Orderly.bind (hRemoval s) ?_)
    fun d => orderly_of_deaf (deaf_pure _)
  intro removeLegacy
  exact (orderly_decide m _ _).bind fun _ =>
    orderly_of_deaf (deaf_pure _)

theorem orderly_run (m : Migration) (shell : Shell) :
    Orderly (m.run shell) := by
  rw [run_eq_inquiry_bind]
  exact (orderly_inquiry m).bind fun i =>
    orderly_of_deaf (deaf_changes m shell i)

------------------------------------------------------------
-- The End of a Migration
------------------------------------------------------------

/- What a summary says about a project. -/
def surveyOf (s : Summary) : Survey :=
  ⟨s.manager, s.legacy, s.archetype⟩

/- The commands of a migration that its summary tells of. -/
def commandsOf
    (m : Migration)
    (s : Summary) : List Text :=
  let removal := s.manager.uninstall s.legacy
  let installation :=
    s.manager.install (Biome.dependency s.version)
  let mending := Text.ofString s.manager.lintFix
  (if s.legacyRemoved then [removal] else [])
    ++ [installation]
    ++ (if m.settings.runFix then [mending] else [])

/-
  A migration has succeeded. Its summary says what is in the
  manifest, which package manager there is, whether removing
  the old packages was decided on, what each of the steps has
  made of the files that the step before it has left, and
  which commands were run; these are all that were planned,
  and all of them have succeeded. The last thing that happens
  is that the summary is printed, and no error has been
  logged.
-/
structure Concludes
    (m : Migration)
    (shell : Shell)
    (w : World)
    (outcome : Outcome)
    (w' : World) : Prop where
  found :
    ∃ manifest,
      Manifest.read w.files m.root = .ok manifest ∧
        outcome.summary.legacy = Legacy.packages manifest ∧
        outcome.summary.archetype = .ofManifest manifest
  manager :
    ∃ u, Runs (Probe.detect m.root) w outcome.summary.manager u
  version : outcome.summary.version = m.settings.version
  removed :
    outcome.summary.legacyRemoved = true ↔
      outcome.summary.legacy ≠ [] ∧
        m.reply m.settings.removeLegacy? removalQuestion
          w.lines = some true
  commands :
    ∃ es,
      w'.executions = w.executions ++ es ∧
        es.map Execution.command =
          m.commandsOf outcome.summary ∧
        ∀ e ∈ es, e.Succeeds shell
  made :
    ∃ d u u₁ v₁ v₂ v₃ v₄ v₅,
      let s := surveyOf outcome.summary
      Runs m.inquiry w ⟨s, d⟩ u ∧
        Runs (m.settleLegacy shell s d) u () u₁ ∧
        Runs (m.install shell s) u₁ () v₁ ∧
        Runs
          (Biome.write m.root s.archetype
            outcome.summary.version)
          v₁ outcome.summary.configWritten v₂ ∧
        Runs (m.addScripts s) v₂ outcome.summary.typescript
          v₃ ∧
        Runs (m.scrub d) v₃ outcome.report v₄ ∧
        Runs (m.fix shell s) v₄ () v₅ ∧
        w' =
          { v₅ with
            journal :=
              v₅.journal ++ [.echo outcome.summary.text] }
  figures : outcome.summary.figures = figures outcome.report
  printed :
    ∃ events text,
      w'.journal = w.journal ++ events ++ [.echo text] ∧
        (∀ e ∈ events, e.isError = false) ∧
        text.IsPlain ∧
        Summary.Tells text outcome.summary

/- The end of a migration prints the summary. -/
theorem runs_finish
    {written typescript : Bool}
    {report : Scrub.Report}
    (hRuns :
      Runs (m.finish shell i written typescript report) w
        outcome w') :
    ∃ v,
      Runs (m.fix shell i.survey) w () v ∧
        outcome =
          ⟨i.summary m written typescript report, report⟩ ∧
        outcome.summary.text.IsPlain ∧
        w' =
          { v with
            journal :=
              v.journal ++ [.echo outcome.summary.text] } := by
  unfold finish at hRuns
  rcases runs_bind_iff.mp hRuns with ⟨_, v, hFix, hRest⟩
  dsimp only at hRest
  cases hEncode :
      (i.summary m written typescript report).text.encode with
  | ok bytes =>
      have hShown :=
        (ends_echo_of_encode hEncode v).of_bind hRest
      rcases ends_pure_iff.mp hShown with ⟨hOutcome, rfl⟩
      rcases Except.ok.inj hOutcome with rfl
      exact ⟨v, hFix, rfl, (Text.encode_eq_ok_iff.mp hEncode).1,
        rfl⟩
  | error fault =>
      have hFailed := ends_echo_of_fault hEncode v
      rw [runs_iff_ends] at hRest
      cases (hRest.unique (hFailed.bind_error _)).1

/- From its last answer on, a migration that succeeds. -/
theorem runs_changes
    (hRuns : Runs (m.changes shell i) w outcome w') :
    ∃ u₁ v₁ v₂ v₃ v₄ v₅ written typescript report,
      Runs (m.settleLegacy shell i.survey i.decisions) w () u₁ ∧
        Runs (m.install shell i.survey) u₁ () v₁ ∧
        Runs
          (Biome.write m.root i.survey.archetype
            m.settings.version)
          v₁ written v₂ ∧
        Runs (m.addScripts i.survey) v₂ typescript v₃ ∧
        Runs (m.scrub i.decisions) v₃ report v₄ ∧
        Runs (m.fix shell i.survey) v₄ () v₅ ∧
        outcome =
          ⟨i.summary m written typescript report, report⟩ ∧
        outcome.summary.text.IsPlain ∧
        w.Errorless v₅ ∧
        w' =
          { v₅ with
            journal :=
              v₅.journal ++ [.echo outcome.summary.text] } := by
  unfold changes establish at hRuns
  rcases runs_bind_iff.mp hRuns with ⟨_, u₁, hSettle, hRest₁⟩
  rcases runs_bind_iff.mp hRest₁ with
    ⟨_, v₁, hInstall, hRest₂⟩
  rcases runs_bind_iff.mp hRest₂ with
    ⟨written, v₂, hWrite, hRest₃⟩
  rcases runs_bind_iff.mp hRest₃ with
    ⟨typescript, v₃, hScripts, hRest₄⟩
  rcases runs_bind_iff.mp hRest₄ with
    ⟨report, v₄, hScrub, hFinish⟩
  rcases runs_finish hFinish with
    ⟨v₅, hFix, rfl, hPlain, hLast⟩
  have hQuiet :
      ∀ {α : Type} {x : Session α} {v v' : World} {a : α},
        Deaf x → Runs x v a v' → v.Errorless v' :=
    fun hDeaf hRan => (orderly_of_deaf hDeaf _ _ _ hRan).1
  have hErrorless : w.Errorless v₅ :=
    (hQuiet (deaf_settleLegacy m shell _ _) hSettle).trans
      ((hQuiet (deaf_install m shell _) hInstall).trans
        ((hQuiet (Biome.deaf_write _ _ _) hWrite).trans
          ((hQuiet (deaf_addScripts m _) hScripts).trans
            ((hQuiet (deaf_scrub m _) hScrub).trans
              (hQuiet (deaf_fix m shell _) hFix)))))
  exact ⟨u₁, v₁, v₂, v₃, v₄, v₅, written, typescript, report,
    hSettle, hInstall, hWrite, hScripts, hScrub, hFix, rfl,
    hPlain, hErrorless, hLast⟩

theorem map_command_steps
    (m : Migration)
    (l : Logger)
    (i : Inquiry)
    (written typescript : Bool)
    (report : Scrub.Report) :
    (i.removalSteps l ++ [m.installStep l i]
        ++ m.fixSteps l i).map Session.Step.command =
      m.commandsOf (i.summary m written typescript report) := by
  rcases i with ⟨survey, ⟨removeLegacy, cleanComments⟩⟩
  unfold Inquiry.removalSteps fixSteps commandsOf
  cases removeLegacy with
  | false => cases m.settings.runFix <;> rfl
  | true => cases m.settings.runFix <;> rfl

theorem concludes_of_runs
    (hRuns : Runs (m.run shell) w outcome w') :
    m.Concludes shell w outcome w' := by
  rw [run_eq_inquiry_bind] at hRuns
  rcases runs_bind_iff.mp hRuns with
    ⟨i, v, hInquiry, hChanges⟩
  rcases found_of_inquiry hInquiry with
    ⟨manifest, u, hRead, hLegacy, hArchetype, hDetect⟩
  rcases follows_of_changes hChanges with ⟨es, hFollows⟩
  rcases runs_changes hChanges with
    ⟨u₁, v₁, v₂, v₃, v₄, v₅, written, typescript, report,
      hSettle, hInstall, hWrite, hScripts, hScrub, hFix, rfl,
      hPlain, hErrorless, hLast⟩
  have hExecutions : w'.executions = w.executions ++ es := by
    rw [hFollows.ran.executions,
      (idle_of_inquiry hInquiry).1.executions]
  have hCommands := hFollows.commands_of_ok
  rw [map_command_steps m _ i written typescript report]
    at hCommands
  rcases ((orderly_inquiry m _ _ _ hInquiry).1.trans
      hErrorless).journal with
    ⟨events, hEvents, hNone⟩
  have hJournal :
      w'.journal =
        w.journal ++ events ++
          [.echo
            (i.summary m written typescript report).text] := by
    rw [hLast, ← hEvents]
  exact
    { found := ⟨manifest, hRead, hLegacy, hArchetype⟩
      manager := ⟨u, hDetect⟩
      version := rfl
      removed := removal_of_inquiry hInquiry
      commands := ⟨es, hExecutions, hCommands⟩
      made :=
        ⟨i.decisions, v, u₁, v₁, v₂, v₃, v₄, v₅, hInquiry,
          hSettle, hInstall, hWrite, hScripts, hScrub, hFix,
          hLast⟩
      figures := rfl
      printed :=
        ⟨events, _, hJournal, hNone, hPlain,
          Summary.tells_text _⟩ }

end Migration

end BiomeMigration
