import BiomeMigration.Proofs.Migration.Steps

/-
  No change that a package manager makes to the manifest is
  lost: the installation starts from the manifest that the
  removal of the old tools has left, and the scripts are
  added to the one that the installation has left.

  Main declarations:
    * `Migration.untilScrub`
    * `Migration.run_eq_bind`
    * `Migration.updates_kept`
-/

------------------------------------------------------------
-- Two Parts of a Migration
------------------------------------------------------------

namespace BiomeMigration

open Session

namespace Migration

/- What is known when the scrubbing starts. -/
structure Ready where
  survey : Survey
  decisions : Decisions
  configWritten : Bool
  typescript : Bool

/- A migration up to the moment the scrubbing starts. -/
def untilScrub
    (m : Migration)
    (shell : Shell) : Session Ready := do
  let s ← m.survey
  present s
  let d ← m.consult s
  m.settleLegacy shell s d
  m.install shell s
  let written ←
    Biome.write m.root s.archetype m.settings.version
  let typescript ← m.addScripts s
  return ⟨s, d, written, typescript⟩

/- A migration from the moment the scrubbing starts. -/
def fromScrub
    (m : Migration)
    (shell : Shell)
    (r : Ready) : Session Outcome := do
  let report ← m.scrub r.decisions
  m.fix shell r.survey
  let summary : Summary :=
    { archetype := r.survey.archetype
      manager := r.survey.manager
      version := m.settings.version
      legacy := r.survey.legacy
      legacyRemoved := r.decisions.removeLegacy
      configWritten := r.configWritten
      typescript := r.typescript
      figures := figures report }
  Session.echo summary.text
  return ⟨summary, report⟩

/- The two parts make up the migration. -/
theorem run_eq_bind
    (m : Migration)
    (shell : Shell) :
    m.run shell = m.untilScrub shell >>= m.fromScrub shell := by
  unfold run untilScrub fromScrub
  simp only [bind_assoc, pure_bind]

variable {m : Migration} {shell : Shell}
variable {w w' : World}

------------------------------------------------------------
-- Whole Migrations
------------------------------------------------------------

/- The installation is one command after calm steps. -/
theorem runs_install
    {s : Survey}
    {u : Unit}
    (hRuns : Runs (m.install shell s) w u w') :
    ∃ installation : Execution,
      installation.IsOf shell
          (s.manager.install
            (Biome.dependency m.settings.version)) ∧
        w'.logger = w.logger ∧
        w'.executions = w.executions ++ [installation] ∧
        w'.files = installation.after ∧
        ∃ v,
          v.files = installation.before ∧ ∀ loc, w.Calm loc v := by
  unfold install at hRuns
  rcases runs_bind_iff.mp hRuns with ⟨_, w₁, hSay, hCheck⟩
  rcases runs_check hCheck with ⟨v, hLog, rfl⟩
  have hCalm : ∀ loc, w.Calm loc v := fun loc =>
    (isCalm_say _ _ _ _ hSay).trans
      (isCalm_log _ _ _ _ _ _ hLog)
  refine ⟨⟨_, v.files, (shell _ v.files).2⟩, ⟨rfl, rfl⟩,
    (hCalm []).logger, ?_, rfl, v, rfl, hCalm⟩
  rw [World.executions_executed, (hCalm []).executions]
  rfl

/-
  What is done about the old tools: one command and the
  clearing of the manifest, or nothing.
-/
theorem runs_settleLegacy
    (hRoot : m.root.anchor ≠ .working)
    {s : Survey}
    {d : Decisions}
    {u : Unit}
    (hRuns : Runs (m.settleLegacy shell s d) w u w') :
    w'.logger = w.logger ∧
      ∃ removals : List Execution,
        w'.executions = w.executions ++ removals ∧
          (d.removeLegacy = false → removals = []) ∧
          (d.removeLegacy = true →
            ∃ removal,
              removals = [removal] ∧
                removal.IsOf shell
                  (s.manager.uninstall
                    s.legacy) ∧
                (m.Workable w.logger removal.after →
                  m.Cleared removal.after w')) := by
  cases hRemove : d.removeLegacy with
  | false =>
      have hCalm : w.Calm [] w' :=
        isCalm_settleLegacy hRemove _ _ _ hRuns
      refine ⟨hCalm.logger, [], ?_, fun _ => rfl, by simp⟩
      rw [List.append_nil]
      exact hCalm.executions
  | true =>
      unfold settleLegacy at hRuns
      rw [hRemove, if_pos rfl] at hRuns
      rcases runs_removeLegacy hRoot hRuns with
        ⟨removal, hCommand, hLogger, hExecutions, hCleared⟩
      exact ⟨hLogger, [removal], hExecutions, by simp,
        fun _ => ⟨removal, rfl, hCommand, hCleared⟩⟩

/- Everything before the first change is calm. -/
theorem calm_of_inquiry
    {s : Survey}
    {d : Decisions}
    {w₁ w₂ : World}
    {u : Unit}
    (hSurvey : Runs m.survey w s w₁)
    (hPresent : Runs (present s) w₁ u w₂)
    (hConsult : Runs (m.consult s) w₂ d w') :
    w.Calm loc w' :=
  (isCalm_survey m _ _ _ hSurvey).trans
    ((isCalm_present s _ _ _ hPresent).trans
      (isCalm_consult m s _ _ _ hConsult))

/-
  In a migration that succeeds, no change that a command
  makes to the manifest is lost. The installation starts
  from the manifest that the removal has left, without the
  settings of the old tools; the scrubbing starts from the
  one that the installation has left, with the scripts.
-/
theorem updates_kept
    (hRoot : m.root.anchor ≠ .working)
    {outcome : Outcome}
    (hRuns : Runs (m.run shell) w outcome w') :
    ∃ (r : Ready) (v : World) (removals : List Execution)
        (installation : Execution),
      Runs (m.untilScrub shell) w r v ∧
        Runs (m.fromScrub shell r) v outcome w' ∧
        v.executions =
          w.executions ++ removals ++ [installation] ∧
        (r.decisions.removeLegacy = false → removals = []) ∧
        (r.decisions.removeLegacy = true →
          ∃ removal,
            removals = [removal] ∧
              removal.IsOf shell
                (r.survey.manager.uninstall
                  r.survey.legacy) ∧
              (m.Workable w.logger removal.after →
                m.RemovalKept removal.after
                  installation.before)) ∧
        installation.IsOf shell
          (r.survey.manager.install
            (Biome.dependency m.settings.version)) ∧
        (m.Workable w.logger installation.after →
          m.InstallationKept
            (Manifest.scripts r.survey.manager r.typescript)
            installation.after v.files) := by
  rw [run_eq_bind] at hRuns
  rcases runs_bind_iff.mp hRuns with ⟨r, v, hUntil, hFrom⟩
  have hSteps := hUntil
  unfold untilScrub at hSteps
  rcases runs_bind_iff.mp hSteps with ⟨s, w₁, hSurvey, hSteps⟩
  rcases runs_bind_iff.mp hSteps with ⟨_, w₂, hPresent, hSteps⟩
  rcases runs_bind_iff.mp hSteps with ⟨d, w₃, hConsult, hSteps⟩
  rcases runs_bind_iff.mp hSteps with ⟨_, w₄, hSettle, hSteps⟩
  rcases runs_bind_iff.mp hSteps with ⟨_, w₅, hInstall, hSteps⟩
  rcases runs_bind_iff.mp hSteps with ⟨b, w₆, hWrite, hSteps⟩
  rcases runs_bind_iff.mp hSteps with ⟨t, w₇, hScripts, hPure⟩
  rcases runs_pure_iff.mp hPure with ⟨rfl, rfl⟩
  have hInquiry : w.Calm [] w₃ :=
    calm_of_inquiry hSurvey hPresent hConsult
  rcases runs_settleLegacy hRoot hSettle with
    ⟨hLogger, removals, hRemovals, hKeep, hRemove⟩
  rcases runs_install hInstall with
    ⟨installation, hCommand, hLogger', hInstalled, hAfter,
      start, hBefore, hCalm⟩
  refine ⟨_, v, removals, installation, hUntil, hFrom, ?_,
    hKeep, ?_, hCommand, ?_⟩
  · have hWritten : w₅.Calm [] w₆ :=
      Biome.isCalm_write hRoot _ _ _ _ _ hWrite
    rw [executions_addScripts hScripts, hWritten.executions,
      hInstalled, hRemovals, hInquiry.executions]
  · intro hYes
    rcases hRemove hYes with
      ⟨removal, hSingle, hUninstall, hCleared⟩
    refine ⟨removal, hSingle, hUninstall, ?_⟩
    intro hWorkable
    rw [← hInquiry.logger] at hWorkable
    rw [← hBefore]
    exact ((hCleared hWorkable).of_calm hRoot
      hCalm).removalKept
  · intro hWorkable
    rw [← hAfter] at hWorkable ⊢
    rw [← hInquiry.logger, ← hLogger, ← hLogger'] at hWorkable
    exact installationKept_of_runs hRoot hWrite hScripts
      hWorkable

------------------------------------------------------------
-- A Bare Project
------------------------------------------------------------

/- A project at the root that is neither scrubbed nor fixed. -/
def bareProject : Migration where
  root := ⟨.root, []⟩
  settings :=
    { version := "2"
      removeLegacy? := some true
      cleanComments? := some false
      runFix := false }
  assumeYes := true

/- Files with a manifest and a configuration of Biome. -/
def bareFiles
    (manifest : String)
    (opened : List Location) : FileSystem where
  root :=
    .directory
      [(Manifest.fileName,
          .file (Utf8.encode manifest.toList)),
        (Biome.fileName, .file [])]
  working := []
  home := ⟨.root, []⟩
  homes := []
  opened := opened

/-
  The world before the migration, with a logger and the
  files that it holds open.
-/
def bareWorld
    (l : Logger)
    (opened : List Location) : World where
  files :=
    bareFiles
      "\x7b\"devDependencies\": \x7b\"eslint\": 1\x7d\x7d" opened
  logger := l
  lines := []
  journal := []

/-
  A shell in which the removal leaves the settings of the
  old tools, and the installation takes a value out.
-/
def bareShell : Shell :=
  fun command _ =>
    (.ok ⟨command, some 0, none⟩,
      if command = Text.ofString "npm uninstall eslint" then
        bareFiles "\x7b\"prettier\": 1, \"a\": 1\x7d" []
      else bareFiles "\x7b\"a\": 2\x7d" [])

/- A value is a whole number. -/
def isInt : Json → Bool
  | .int _ => true
  | _ => false

/- A manifest is read that holds only whole numbers. -/
def readsInts (fs : FileSystem) : Bool :=
  match Manifest.read fs bareProject.root with
  | .ok manifest => manifest.all (isInt ·.2)
  | .error _ => false

/- Whole numbers survive, and nothing is logged to a file. -/
theorem workable_of_readsInts
    {fs : FileSystem}
    (hInts : readsInts fs = true) :
    bareProject.Workable .initial fs := by
  unfold readsInts at hInts
  cases hRead : Manifest.read fs bareProject.root with
  | error failure =>
      rw [hRead] at hInts
      cases hInts
  | ok manifest =>
      rw [hRead] at hInts
      have hAll := List.all_eq_true.mp hInts
      refine ⟨⟨manifest, hRead⟩, ?_, ?_⟩
      · intro other hOther
        rw [hRead] at hOther
        rcases Except.ok.inj hOther with rfl
        rw [Manifest.survives_iff]
        intro x hx
        have hInt := hAll x hx
        rcases x with ⟨key, v⟩
        cases v with
        | int n => exact trivial
        | _ => cases hInt
      · rintro loc _ _ ⟨hHandler, _⟩
        simp [Logger.initial] at hHandler

/- Both commands leave files that can be worked with. -/
theorem workable_bareShell
    (command : Text)
    (before : FileSystem) :
    bareProject.Workable .initial
      (bareShell command before).2 := by
  apply workable_of_readsInts
  unfold bareShell
  dsimp only
  split
  · decide +kernel
  · decide +kernel

/- The migration of the bare project succeeds, with a removal. -/
theorem runs_bareProject :
    ∃ outcome w',
      Runs (bareProject.run bareShell)
        (bareWorld .initial []) outcome w' := by
  have hOk :
      ((bareProject.run bareShell).run.run
        (bareWorld .initial [])).1.isOk = true := by
    decide +kernel
  rcases runs_of_isOk hOk with ⟨outcome, hRuns⟩
  exact ⟨outcome, _, hRuns⟩

/- The migration has come to the decision to remove. -/
def decidesRemoval : Except Failure Ready × World → Bool
  | (.ok r, _) => r.decisions.removeLegacy
  | (.error _, _) => false

theorem removeLegacy_bareProject
    {r : Ready}
    {v : World}
    (hRuns :
      Runs (bareProject.untilScrub bareShell)
        (bareWorld .initial []) r v) :
    r.decisions.removeLegacy = true := by
  have hDecided :
      decidesRemoval
        ((bareProject.untilScrub bareShell).run.run
          (bareWorld .initial [])) = true := by
    decide +kernel
  unfold Runs at hRuns
  rw [hRuns] at hDecided
  exact hDecided

/- Both changes are kept in the bare project. -/
theorem updates_kept_bareProject :
    bareProject.root.anchor ≠ .working ∧
      ∃ outcome w',
        Runs (bareProject.run bareShell)
            (bareWorld .initial []) outcome w' ∧
          ∃ (r : Ready) (v : World)
              (removal installation : Execution),
            v.executions = [removal, installation] ∧
              bareProject.RemovalKept removal.after
                installation.before ∧
              bareProject.InstallationKept
                (Manifest.scripts r.survey.manager
                  r.typescript)
                installation.after v.files := by
  have hRoot : bareProject.root.anchor ≠ .working := by
    decide
  rcases runs_bareProject with ⟨outcome, w', hRuns⟩
  refine ⟨hRoot, outcome, w', hRuns, ?_⟩
  rcases updates_kept hRoot hRuns with
    ⟨r, v, removals, installation, hUntil, _, hExecutions, _,
      hRemove, hInstall, hInstalled⟩
  rcases hRemove (removeLegacy_bareProject hUntil) with
    ⟨removal, hSingle, hUninstall, hRemoved⟩
  refine ⟨r, v, removal, installation, ?_, ?_, ?_⟩
  · rw [hExecutions, hSingle]
    rfl
  · apply hRemoved
    rw [hUninstall.after]
    exact workable_bareShell _ _
  · apply hInstalled
    rw [hInstall.after]
    exact workable_bareShell _ _

------------------------------------------------------------
-- A Manifest that Is a Log File
------------------------------------------------------------

/- The place of a file that a manifest is a link to. -/
def realPlace : Location :=
  ["real.json"]

/- A logger that writes to that file. -/
def realLogger : Logger :=
  ⟨some .info, [.file realPlace], false⟩

/-
  A world in which the manifest is a link to a file that the
  logger holds open.
-/
def linkedWorld : World where
  files :=
    { root :=
        .directory
          [(Manifest.fileName, .link "real.json"),
            ("real.json",
              .file (Utf8.encode
                "\x7b\"devDependencies\": \x7b\"eslint\": 1\x7d\x7d".toList)),
            (Biome.fileName, .file [])]
      working := []
      home := ⟨.root, []⟩
      homes := []
      opened := [realPlace] }
  logger := realLogger
  lines := []
  journal := []

/- An empty manifest on a line. -/
def emptyLine : Bytes :=
  Utf8.encode "\x7b\x7d\n".toList

/- The files after a file at the root has been written. -/
def written
    (fs : FileSystem)
    (name : String)
    (content : Bytes) : FileSystem :=
  (fs.write (bareProject.root.child name) content).toOption.getD fs

/- The files after the manifest has been linked to a new file. -/
def relinked (fs : FileSystem) : FileSystem :=
  let fs := written fs "other.json" emptyLine
  let fs := (fs.remove bareProject.manifestPath).toOption.getD fs
  { fs with
    root := fs.root.put (.link "other.json") [Manifest.fileName] }

/-
  A shell in which the removal empties the file that the
  manifest is a link to, and the installation links it to a
  file of its own.
-/
def linkingShell : Shell :=
  fun command fs =>
    (.ok ⟨command, some 0, none⟩,
      if command = Text.ofString "npm uninstall eslint" then
        written fs "real.json" emptyLine
      else relinked fs)

/-
  The migration succeeds with two commands. Both leave files
  with a manifest, but the second does not start from such.
-/
def startsUnreadable :
    Except Failure Outcome × World → Bool
  | (.ok _, w) =>
      match w.executions with
      | [removal, installation] =>
          (Manifest.read removal.after bareProject.root).isOk &&
            (Manifest.read installation.after
              bareProject.root).isOk &&
            !(Manifest.read installation.before
              bareProject.root).isOk
      | _ => false
  | _ => false

/-
  If the manifest is an open log file, the installation does
  not start from what the removal has left: the steps between
  them are logged at the end of the manifest.
-/
theorem not_removalKept_realLogger :
    ∃ outcome w' removal installation,
      Runs (bareProject.run linkingShell) linkedWorld outcome
          w' ∧
        w'.executions = [removal, installation] ∧
        (∃ manifest : Manifest,
          Manifest.read removal.after bareProject.root =
            .ok manifest) ∧
        (∃ manifest : Manifest,
          Manifest.read installation.after bareProject.root =
            .ok manifest) ∧
        ¬ bareProject.RemovalKept removal.after
            installation.before := by
  have hReadable :
      ∀ fs : FileSystem,
        (Manifest.read fs bareProject.root).isOk = true ↔
          ∃ manifest,
            Manifest.read fs bareProject.root =
              .ok manifest := by
    intro fs
    cases Manifest.read fs bareProject.root <;>
      simp [Except.isOk, Except.toBool]
  have hEvaluated :
      startsUnreadable
        ((bareProject.run linkingShell).run.run linkedWorld) =
          true := by
    decide +kernel
  unfold startsUnreadable at hEvaluated
  split at hEvaluated
  · next outcome w' hRuns =>
      split at hEvaluated
      · next removal installation hExecutions =>
          simp only [Bool.and_eq_true, hReadable,
            Bool.not_eq_true'] at hEvaluated
          rcases hEvaluated with
            ⟨⟨hRemoved, hInstalled⟩, hBefore⟩
          refine ⟨outcome, w', removal, installation, hRuns,
            hExecutions, hRemoved, hInstalled, ?_⟩
          rintro ⟨manifest, _, hKept, _⟩
          rw [hKept] at hBefore
          simp [Except.isOk, Except.toBool] at hBefore
      · simp at hEvaluated
  · simp at hEvaluated

end Migration

end BiomeMigration
