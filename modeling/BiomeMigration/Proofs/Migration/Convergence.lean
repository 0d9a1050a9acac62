import BiomeMigration.Proofs.Biome.Configuration
import BiomeMigration.Proofs.Migration.Emptying
import BiomeMigration.Proofs.Migration.Selection

/-
  Runs of a migration converge: whatever commands fail, the
  first run that succeeds leaves the manifest and the
  configuration of Biome that one successful run would have
  left, and so does each run after it.

  Main declarations:
    * `Migration.Stage`
    * `Migration.ensures_run`
    * `Migration.Tried`
    * `Migration.converges_of_tried`
-/

------------------------------------------------------------
-- One Run
------------------------------------------------------------

namespace BiomeMigration

open Session
open FileSystem (Touches HasFile)

namespace Migration

variable {m : Migration} {shell : Shell} {l : Logger}
variable {base later : FileSystem} {w w' v v' : World}
variable {X Y : Manifest} {i : Inquiry} {s : Survey}
variable {typescript : Bool}

/- Comments are only cleaned if the settings do not forbid it. -/
theorem cleaning_of_inquiry
    (hRuns : Runs m.inquiry w i v)
    (hClean : i.decisions.cleanComments = true) :
    m.settings.cleanComments? ≠ some false := by
  intro hForbidden
  unfold inquiry at hRuns
  rcases runs_bind_iff.mp hRuns with ⟨s, w₁, _, hRest₁⟩
  rcases runs_bind_iff.mp hRest₁ with ⟨_, w₂, _, hRest₂⟩
  rcases runs_bind_iff.mp hRest₂ with ⟨d, w₃, hConsult, hPure⟩
  rcases runs_pure_iff.mp hPure with ⟨rfl, _⟩
  rw [consult_eq] at hConsult
  rcases runs_bind_iff.mp hConsult with
    ⟨removeLegacy, w₄, _, hRest₃⟩
  rcases runs_bind_iff.mp hRest₃ with
    ⟨cleanComments, w₅, hCleaning, hPure'⟩
  rcases runs_pure_iff.mp hPure' with ⟨rfl, _⟩
  have hReply := (ends_decide hCleaning).1
  unfold reply at hReply
  rw [hForbidden] at hReply
  have hKept : cleanComments = false := Except.ok.inj hReply
  dsimp only at hClean
  rw [hKept] at hClean
  cases hClean

/-
  What an inquiry finds in the files and the manifest that it
  starts from.
-/
structure Finds
    (m : Migration)
    (l : Logger)
    (base : FileSystem)
    (X : Manifest)
    (i : Inquiry) : Prop where
  legacy : i.survey.legacy = Legacy.packages X
  archetype : i.survey.archetype = .ofManifest X
  manager :
    ∃ u v,
      m.Holds l base X u ∧
        Runs (Probe.detect m.root) u i.survey.manager v
  removal :
    i.decisions.removeLegacy = true ↔
      i.survey.legacy ≠ [] ∧
        m.settings.removeLegacy? = some true
  cleaning :
    i.decisions.cleanComments = true →
      m.settings.cleanComments? ≠ some false

theorem ensures_inquiry
    {E : World → Prop}
    (hRegular : m.Regular l base)
    (hRemove : m.settings.removeLegacy? ≠ none)
    (X : Manifest) :
    Ensures (m.Holds l base X) m.inquiry
      (fun i w => m.Holds l base X w ∧ m.Finds l base X i) E := by
  apply ensures_of_runs
    (keeps_inquiry steady_true m (fun _ _ => trivial))
  intro w i w' hHolds hRuns
  have hSteady := (lasting_holds hRegular X).steady
  refine ⟨(keeps_inquiry hSteady m
    (fun _ _ hHere => hHere.of_same rfl rfl)).of_runs hRuns
      hHolds, ?_⟩
  rcases found_of_inquiry hRuns with
    ⟨manifest, u, hRead, hLegacy, hArchetype, hDetect⟩
  rw [hHolds.read] at hRead
  rcases Except.ok.inj hRead with rfl
  refine ⟨hLegacy, hArchetype, ⟨w, u, hHolds, hDetect⟩, ?_,
    cleaning_of_inquiry hRuns⟩
  rw [removal_of_inquiry hRuns]
  cases hChoice : m.settings.removeLegacy? with
  | none => exact (hRemove hChoice).elim
  | some choice => exact Iff.rfl

/- Where a run comes to from some files and a manifest. -/
def Reached
    (m : Migration)
    (l : Logger)
    (base : FileSystem)
    (X : Manifest)
    (w : World) : Prop :=
  ∃ i typescript,
    m.Finds l base X i ∧
      m.Arranged l base i.survey (m.settled X) typescript w

/-
  A run that succeeds arranges the project. One that is ended
  by a command leaves it as it was, or settled, or arranged
  already.
-/
theorem ensures_run
    (hRegular : m.Regular l base)
    (hTidy : m.Tidy shell)
    (hRemove : m.settings.removeLegacy? ≠ none)
    (hBlanks :
      ∀ package ∈ Legacy.packages X, .scalar ' ' ∉ package) :
    Ensures (m.Holds l base X) (m.run shell)
      (fun _ => m.Reached l base X)
      (fun w =>
        m.Holds l base X w ∨ m.Holds l base (m.settled X) w ∨
          m.Reached l base X w) := by
  rw [run_eq_inquiry_bind]
  apply (ensures_inquiry hRegular hRemove X).bind
  intro i
  apply Ensures.given
  intro hFinds
  apply (ensures_changes hRegular hTidy hFinds.legacy hBlanks
    hFinds.removal hFinds.cleaning).imp (fun _ hHolds => hHolds)
  · rintro outcome w ⟨typescript, hArranged⟩
    exact ⟨i, typescript, hFinds, hArranged⟩
  · rintro w (hSame | hSettled | ⟨typescript, hArranged⟩)
    · exact Or.inl hSame
    · exact Or.inr (Or.inl hSettled)
    · exact Or.inr (Or.inr ⟨i, typescript, hFinds, hArranged⟩)

------------------------------------------------------------
-- Settled Manifests
------------------------------------------------------------

theorem akin_settled (m : Migration) (X : Manifest) :
    X.Akin (m.settled X) := by
  unfold settled
  split
  · exact Manifest.akin_cleaned X
  · exact Manifest.Akin.refl X

/- Either no old tools are left, or nothing was done. -/
theorem settled_cases (m : Migration) (X : Manifest) :
    Legacy.packages (m.settled X) = [] ∨ m.settled X = X := by
  unfold settled
  split
  · exact Or.inl (Legacy.packages_cleaned X)
  · exact Or.inr rfl

/- There is nothing to settle twice. -/
theorem settled_eq_self
    (hPackages :
      Legacy.packages Y = Legacy.packages (m.settled X)) :
    m.settled Y = Y := by
  have hDone :
      ¬ (m.settings.removeLegacy? = some true ∧
        Legacy.packages Y ≠ []) := by
    rintro ⟨hRemove, hSome⟩
    rw [hPackages] at hSome
    unfold settled at hSome
    by_cases hOld : Legacy.packages X = []
    · rw [if_neg fun hBoth => hBoth.2 hOld] at hSome
      exact hSome hOld
    · rw [if_pos ⟨hRemove, hOld⟩] at hSome
      exact hSome (Legacy.packages_cleaned X)
  unfold settled
  rw [if_neg hDone]

------------------------------------------------------------
-- Stages
------------------------------------------------------------

/-
  A stage of the way from some files and a manifest to the
  files with a configuration and the manifest with scripts.
-/
structure Stage
    (m : Migration)
    (base : FileSystem)
    (X : Manifest)
    (added : List (String × String))
    (later : FileSystem)
    (Y : Manifest) : Prop where
  extends_base : m.Extends base later
  akin : X.Akin Y
  furnished :
    m.furnished (.ofManifest X) later =
      m.furnished (.ofManifest X) base
  settled :
    (m.settled Y).withScripts added =
      (m.settled X).withScripts added
  blanks :
    ∀ package ∈ Legacy.packages Y, .scalar ' ' ∉ package

variable {added : List (String × String)}

/- The first stage. -/
theorem stage_first
    (hBlanks :
      ∀ package ∈ Legacy.packages X, .scalar ' ' ∉ package) :
    m.Stage base X added base X :=
  ⟨Or.inl rfl, Manifest.Akin.refl X, rfl, rfl, hBlanks⟩

/- The stage after the old tools have been dealt with. -/
theorem Stage.of_settled
    (hStage : m.Stage base X added later Y) :
    m.Stage base X added later (m.settled Y) := by
  refine ⟨hStage.extends_base,
    hStage.akin.trans (m.akin_settled Y), hStage.furnished, ?_,
    ?_⟩
  · rw [settled_eq_self rfl]
    exact hStage.settled
  · rcases m.settled_cases Y with hNone | hSame
    · rw [hNone]
      simp
    · rw [hSame]
      exact hStage.blanks

/- The last stage leads to itself. -/
theorem stage_last
    (hUnique : (added.map Prod.fst).Nodup)
    (hBlanks :
      ∀ package ∈ Legacy.packages X, .scalar ' ' ∉ package)
    (hConfigured :
      (m.furnished (.ofManifest X) base).HasFile
        m.configPlace) :
    m.Stage base X added (m.furnished (.ofManifest X) base)
      ((m.settled X).withScripts added) := by
  have hPackages :
      Legacy.packages ((m.settled X).withScripts added) =
        Legacy.packages (m.settled X) :=
    Legacy.packages_congr
      (Manifest.dependencies_withScripts _ added)
  refine ⟨m.extends_furnished _ base,
    (m.akin_settled X).trans (Manifest.akin_withScripts _ added),
    furnished_of_hasFile hConfigured _, ?_, ?_⟩
  · rw [settled_eq_self hPackages,
      Manifest.withScripts_withScripts _ hUnique]
  · rw [hPackages]
    have hFirst : m.Stage base X added base X :=
      stage_first hBlanks
    exact hFirst.of_settled.blanks

/-
  What one run comes to from the start, each run comes to
  from each stage.
-/
theorem Stage.holdsText_of_reached
    (hRegular : m.Regular l base)
    (hUndisturbed : m.Undisturbed l base)
    (hFinds : m.Finds l base X i)
    (hArranged :
      m.Arranged l base i.survey (m.settled X) typescript v)
    (hStage :
      m.Stage base X
        (Manifest.scripts i.survey.manager typescript) later Y)
    (hReached : m.Reached l later Y w) :
    m.HoldsText l (m.furnished (.ofManifest X) base)
      ((m.settled X).withScripts
        (Manifest.scripts i.survey.manager typescript)) w := by
  rcases hReached with ⟨j, typescript', hFinds', hArranged'⟩
  rcases hFinds.manager with ⟨u, _, hHolds, hDetect⟩
  rcases hFinds'.manager with ⟨u', _, hHolds', hDetect'⟩
  have hManager : i.survey.manager = j.survey.manager :=
    manager_unique hRegular hUndisturbed
      ⟨base, X, Or.inl rfl, Manifest.Akin.refl X, hHolds⟩
      ⟨later, Y, hStage.extends_base, hStage.akin, hHolds'⟩
      hDetect hDetect'
  have hTyped := hArranged.typed
  have hTyped' := hArranged'.typed
  have hText := hArranged'.holds
  rw [hFinds.archetype] at hTyped
  rw [hFinds'.archetype, hStage.akin.archetype,
    hStage.furnished] at hTyped' hText
  have hAkin : (m.settled X).Akin (m.settled Y) :=
    (m.akin_settled X).symm.trans
      (hStage.akin.trans (m.akin_settled Y))
  have hSame : typescript = typescript' :=
    typed_unique (hRegular.furnished _) hAkin hTyped hTyped'
  rw [← hManager, ← hSame, hStage.settled] at hText
  exact hText

------------------------------------------------------------
-- Many Runs
------------------------------------------------------------

/-
  A world is at some stage of the way from some files and a
  manifest.
-/
def Staged
    (m : Migration)
    (l : Logger)
    (base : FileSystem)
    (X : Manifest)
    (added : List (String × String))
    (w : World) : Prop :=
  ∃ later Y, m.Stage base X added later Y ∧ m.Holds l later Y w

/- A run goes on to a stage, or to the end if it succeeds. -/
theorem ensures_run_of_staged
    (hRegular : m.Regular l base)
    (hUndisturbed : m.Undisturbed l base)
    (hRemove : m.settings.removeLegacy? ≠ none)
    (hBlanks :
      ∀ package ∈ Legacy.packages X, .scalar ' ' ∉ package)
    (hFinds : m.Finds l base X i)
    (hArranged :
      m.Arranged l base i.survey (m.settled X) typescript v)
    (hTidy : m.Tidy shell) :
    Ensures
      (m.Staged l base X
        (Manifest.scripts i.survey.manager typescript))
      (m.run shell)
      (fun _ =>
        m.HoldsText l (m.furnished (.ofManifest X) base)
          ((m.settled X).withScripts
            (Manifest.scripts i.survey.manager typescript)))
      (m.Staged l base X
        (Manifest.scripts i.survey.manager typescript)) := by
  rintro w result w' ⟨later, Y, hStage, hHolds⟩ hEnds
  have hLater := hRegular.of_extends hStage.extends_base
  have hEnd :
      m.Reached l later Y w' →
        m.HoldsText l (m.furnished (.ofManifest X) base)
          ((m.settled X).withScripts
            (Manifest.scripts i.survey.manager typescript))
          w' :=
    hStage.holdsText_of_reached hRegular hUndisturbed hFinds
      hArranged
  have hConfigured := hArranged.configured
  rw [hFinds.archetype] at hConfigured
  have hRun :=
    ensures_run hLater hTidy hRemove hStage.blanks w result w'
      hHolds hEnds
  refine ⟨fun outcome hOk => hEnd (hRun.1 outcome hOk),
    fun r hFailed => ?_⟩
  rcases hRun.2 r hFailed with hSame | hSettled | hReached
  · exact ⟨later, Y, hStage, hSame⟩
  · exact ⟨later, m.settled Y, hStage.of_settled, hSettled⟩
  · exact ⟨_, _,
      stage_last (Manifest.nodup_scripts _ _) hBlanks hConfigured,
      (hEnd hReached).holds⟩

/-
  Runs of a migration, one after the other, each with tidy
  commands of its own. Each of them succeeds or is ended by a
  command that fails, and the last one succeeds.
-/
inductive Tried (m : Migration) : World → World → Prop where
  | last
      {w v : World}
      {shell : Shell}
      {outcome : Outcome}
      (hTidy : m.Tidy shell)
      (hRuns : Runs (m.run shell) w outcome v) :
      Tried m w v
  | more
      {w u v : World}
      {shell : Shell}
      {result : Except Failure Outcome}
      (hTidy : m.Tidy shell)
      (hEnds : Ends (m.run shell) w result u)
      (hResult :
        ∀ failure, result = .error failure →
          ∃ r, failure = .command r)
      (hRest : Tried m u v) :
      Tried m w v

/- Any such runs come to the end that one run comes to. -/
theorem holdsText_of_tried
    (hRegular : m.Regular l base)
    (hUndisturbed : m.Undisturbed l base)
    (hRemove : m.settings.removeLegacy? ≠ none)
    (hBlanks :
      ∀ package ∈ Legacy.packages X, .scalar ' ' ∉ package)
    (hFinds : m.Finds l base X i)
    (hArranged :
      m.Arranged l base i.survey (m.settled X) typescript v)
    (hTried : m.Tried w w')
    (hStaged :
      m.Staged l base X
        (Manifest.scripts i.survey.manager typescript) w) :
    m.HoldsText l (m.furnished (.ofManifest X) base)
      ((m.settled X).withScripts
        (Manifest.scripts i.survey.manager typescript)) w' := by
  have hConfigured := hArranged.configured
  rw [hFinds.archetype] at hConfigured
  induction hTried with
  | last hTidy hRuns =>
      exact (ensures_run_of_staged hRegular hUndisturbed hRemove
        hBlanks hFinds hArranged hTidy).of_runs hStaged hRuns
  | more hTidy hEnds hResult hRest ih =>
      rename_i result
      have hRun :=
        ensures_run_of_staged hRegular hUndisturbed hRemove
          hBlanks hFinds hArranged hTidy _ _ _ hStaged hEnds
      apply ih
      cases result with
      | ok outcome =>
          exact ⟨_, _,
            stage_last (Manifest.nodup_scripts _ _) hBlanks
              hConfigured,
            (hRun.1 outcome rfl).holds⟩
      | error failure =>
          rcases hResult failure rfl with ⟨r, rfl⟩
          exact hRun.2 r rfl

/- Worlds with the same manifest have the same bytes. -/
theorem HoldsText.files_eq
    (hText : m.HoldsText l base X w)
    (hText' : m.HoldsText l base X w')
    (hRegular : m.Regular l base)
    (hConfig : base.HasFile m.configPlace) :
    ∃ package config,
      w.files.root.at? m.manifestPlace = some (.file package) ∧
        w'.files.root.at? m.manifestPlace =
          some (.file package) ∧
        w.files.root.at? m.configPlace = some (.file config) ∧
        w'.files.root.at? m.configPlace =
          some (.file config) := by
  rcases hText with ⟨_, bytes, hBytes, hVaries⟩
  rcases hText' with ⟨_, bytes', hBytes', hVaries'⟩
  rw [hBytes] at hBytes'
  rcases Except.ok.inj hBytes' with rfl
  rcases hConfig with ⟨config, hFile⟩
  exact ⟨bytes, config, hVaries.node hRegular,
    hVaries'.node hRegular,
    hVaries.files.file hRegular.not_writes_config hFile,
    hVaries'.files.file hRegular.not_writes_config hFile⟩

theorem isEntryName_manifest :
    Path.IsEntryName Manifest.fileName := by
  decide +kernel

/- A manifest that can be read is in the file at its place. -/
theorem Regular.holds
    (hRegular : m.Regular w.logger w.files)
    (hRead : Manifest.read w.files m.root = .ok X) :
    m.Holds w.logger w.files X w := by
  rcases Manifest.read_eq_ok_iff.mp hRead with
    ⟨loc, bytes, hLeads, hManifest⟩
  have hNoLink :
      ∀ target,
        w.files.root.at? (m.root.parts ++ [Manifest.fileName]) ≠
          some (.link target) := by
    intro target hLink
    rcases hRegular.manifest with ⟨content, hFile⟩
    unfold manifestPlace at hFile
    rw [hLink] at hFile
    cases hFile
  have hPlace :=
    FileSystem.place_of_locate_entry hRegular.real
      isEntryName_manifest hNoLink hLeads
  rcases FileSystem.Place.mk.inj hPlace with ⟨rfl, _⟩
  exact ⟨bytes, hManifest, rfl, hRegular.proper,
    Touches.refl _ _, hLeads⟩

/-
  However often a migration is tried, and whatever commands
  fail, it comes to the manifest and the configuration that
  one successful run comes to.
-/
theorem converges_of_tried
    {outcome : Outcome}
    (hRemove : m.settings.removeLegacy? ≠ none)
    (hRegular : m.Regular w.logger w.files)
    (hUndisturbed : m.Undisturbed w.logger w.files)
    (hBlanks :
      ∀ manifest, Manifest.read w.files m.root = .ok manifest →
        ∀ package ∈ Legacy.packages manifest,
          .scalar ' ' ∉ package)
    (hTried : m.Tried w w')
    (hTidy : m.Tidy shell)
    (hRuns : Runs (m.run shell) w outcome v) :
    ∃ package config,
      w'.files.root.at? m.manifestPlace = some (.file package) ∧
        v.files.root.at? m.manifestPlace =
          some (.file package) ∧
        w'.files.root.at? m.configPlace = some (.file config) ∧
        v.files.root.at? m.configPlace =
          some (.file config) := by
  have hRead := hRuns
  rw [run_eq_inquiry_bind] at hRead
  rcases runs_bind_iff.mp hRead with ⟨_, _, hInquiry, _⟩
  rcases found_of_inquiry hInquiry with ⟨X, _, hManifest, _⟩
  have hBlankFree := hBlanks X hManifest
  have hHolds := hRegular.holds hManifest
  rcases (ensures_run hRegular hTidy hRemove
      hBlankFree).of_runs hHolds hRuns with
    ⟨i, typescript, hFinds, hArranged⟩
  have hText :=
    holdsText_of_tried hRegular hUndisturbed hRemove hBlankFree
      hFinds hArranged hTried
      ⟨_, _, stage_first hBlankFree, hHolds⟩
  have hText' := hArranged.holds
  have hConfigured := hArranged.configured
  rw [hFinds.archetype] at hText' hConfigured
  exact hText.files_eq hText' (hRegular.furnished _) hConfigured

/-
  A shell that removes packages from the manifest of a
  project as it is told to, and changes nothing else.
-/
def removingShell (m : Migration) : Shell :=
  fun command fs =>
    match Manager.removed? command with
    | none => (.ok ⟨command, some 0, none⟩, fs)
    | some names =>
        match Manifest.read fs m.root with
        | .error _ => (.ok ⟨command, some 1, none⟩, fs)
        | .ok manifest =>
            match (manifest.without names).text.encode with
            | .error _ => (.ok ⟨command, some 1, none⟩, fs)
            | .ok bytes =>
                (.ok ⟨command, some 0, none⟩,
                  fs.setFile m.manifestPlace bytes)

theorem tidy_removingShell (m : Migration) :
    m.Tidy (removingShell m) where
  failed text fs r hRan hFailed := by
    unfold removingShell at hRan ⊢
    split
    · rfl
    · next names hNames =>
        rw [hNames] at hRan
        dsimp only at hRan ⊢
        split
        · rfl
        · next manifest hRead =>
            rw [hRead] at hRan
            dsimp only at hRan ⊢
            split
            · rfl
            · next bytes hBytes =>
                rw [hBytes] at hRan
                rcases Except.ok.inj hRan with rfl
                cases hFailed
  removed text names fs r manifest hNames hRan hOk hRead := by
    unfold removingShell at hRan ⊢
    rw [hNames, hRead] at hRan ⊢
    dsimp only at hRan ⊢
    cases hBytes : (manifest.without names).text.encode with
    | error fault =>
        rw [hBytes] at hRan
        rcases Except.ok.inj hRan with rfl
        cases hOk
    | ok bytes =>
        have hSound :
            (manifest.without names).IsSound fs.depths.json :=
          Manifest.IsSound.without
            (Manifest.isSound_of_read hRead) names
        exact ⟨bytes, rfl,
          Manifest.ofBytes_text hSound
            (Manifest.survives_of_isSound hSound) hBytes⟩
  other text fs hNone := by
    unfold removingShell
    rw [hNone]

theorem tidy_failingShell (m : Migration) :
    m.Tidy failingShell where
  failed _ _ _ _ _ := rfl
  removed _ _ _ _ _ _ hRan hOk _ := by
    rcases Except.ok.inj hRan with rfl
    cases hOk
  other _ _ _ := rfl

theorem regular_bareProject :
    bareProject.Regular (bareWorld .initial []).logger
      (bareWorld .initial []).files where
  anchor := rfl
  proper := proper_bare _ _
  directory := ⟨_, rfl⟩
  manifest := ⟨_, rfl⟩
  config := Or.inr ⟨_, rfl⟩
  manifest_unlogged := by
    rintro ⟨hHandler, _⟩
    cases hHandler
  config_unlogged := by
    rintro ⟨hHandler, _⟩
    cases hHandler

theorem undisturbed_bareProject :
    bareProject.Undisturbed (bareWorld .initial []).logger
      (bareWorld .initial []).files where
  made := by
    intro d hd name hName hMissing
    rcases List.mem_singleton.mp hd with rfl
    -- The configuration is there, so it is not missing.
    have hNode := (FileSystem.locate_of_grows
      (Node.Grows.refl _) (Or.inl rfl)
      (Probe.child_anchor_of_searched (by decide) hName)
      hMissing).1.node
    cases hNode
  above hParts := (hParts rfl).elim

/- The old tools of a manifest have names without blanks. -/
def namesNoBlanks (m : Migration) (fs : FileSystem) : Bool :=
  match Manifest.read fs m.root with
  | .ok manifest =>
      (Legacy.packages manifest).all fun package =>
        !package.contains (.scalar ' ')
  | .error _ => true

theorem not_mem_of_namesNoBlanks
    (hNames : namesNoBlanks m base = true) :
    ∀ manifest, Manifest.read base m.root = .ok manifest →
      ∀ package ∈ Legacy.packages manifest,
        .scalar ' ' ∉ package := by
  intro manifest hRead package hPackage
  unfold namesNoBlanks at hNames
  rw [hRead] at hNames
  simpa using List.all_eq_true.mp hNames package hPackage

/-
  In a world, a migration that is ended by a command is tried
  again in another way, with success, and so is that way at
  once. The two worlds at the end pass a test.
-/
def retried
    (first again : Session Outcome)
    (test : World → World → Bool)
    (w : World) : Bool :=
  match first.run.run w, again.run.run w with
  | (.error (.command _), u), (.ok _, v) =>
      match again.run.run u with
      | (.ok _, w') => test w' v
      | _ => false
  | _, _ => false

theorem exists_of_retried
    {shell' : Shell}
    {test : World → World → Bool}
    (hTidy : m.Tidy shell)
    (hTidy' : m.Tidy shell')
    (hRetried :
      retried (m.run shell) (m.run shell') test w = true) :
    ∃ w' v outcome,
      m.Tried w w' ∧ Runs (m.run shell') w outcome v ∧
        test w' v = true := by
  unfold retried at hRetried
  split at hRetried
  · next r u outcome v hFailed hRuns =>
      split at hRetried
      · next w' hAgain =>
          have hTried : m.Tried w w' :=
            Tried.more hTidy hFailed
              (fun failure hSame =>
                ⟨r, (Except.error.inj hSame).symm⟩)
              (Tried.last hTidy' hAgain)
          exact ⟨w', v, outcome, hTried, hRuns, hRetried⟩
      · cases hRetried
  · cases hRetried

/-
  In the bare project the removal fails at first, then all
  goes well. The end is that of a single run.
-/
theorem converges_bareProject :
    ∃ w' v outcome package config,
      bareProject.settings.removeLegacy? ≠ none ∧
        bareProject.Regular (bareWorld .initial []).logger
          (bareWorld .initial []).files ∧
        bareProject.Undisturbed (bareWorld .initial []).logger
          (bareWorld .initial []).files ∧
        namesNoBlanks bareProject
          (bareWorld .initial []).files = true ∧
        bareProject.Tried (bareWorld .initial []) w' ∧
        w'.executions.length = 3 ∧
        bareProject.Tidy (removingShell bareProject) ∧
        Runs (bareProject.run (removingShell bareProject))
          (bareWorld .initial []) outcome v ∧
        w'.files.root.at? bareProject.manifestPlace =
          some (.file package) ∧
        v.files.root.at? bareProject.manifestPlace =
          some (.file package) ∧
        w'.files.root.at? bareProject.configPlace =
          some (.file config) ∧
        v.files.root.at? bareProject.configPlace =
          some (.file config) := by
  have hTidy := tidy_removingShell bareProject
  have hNames :
      namesNoBlanks bareProject (bareWorld .initial []).files =
        true := by
    decide +kernel
  have hRemove : bareProject.settings.removeLegacy? ≠ none := by
    decide
  have hRetried :
      retried (bareProject.run failingShell)
          (bareProject.run (removingShell bareProject))
          (fun w' _ => w'.executions.length == 3)
          (bareWorld .initial []) =
        true := by
    decide +kernel
  rcases exists_of_retried (tidy_failingShell bareProject) hTidy
      hRetried with
    ⟨w', v, outcome, hTried, hRuns, hLength⟩
  rcases converges_of_tried hRemove regular_bareProject
      undisturbed_bareProject (not_mem_of_namesNoBlanks hNames)
      hTried hTidy hRuns with
    ⟨package, config, hPlaces⟩
  exact ⟨w', v, outcome, package, config, hRemove,
    regular_bareProject, undisturbed_bareProject, hNames,
    hTried, by simpa using hLength, hTidy, hRuns, hPlaces⟩

/-
  A shell that removes packages as it is told to, and cannot
  let Biome mend the files.
-/
def fixlessShell (m : Migration) : Shell :=
  fun command fs =>
    if command = Text.ofString Manager.npm.lintFix then
      (.ok ⟨command, some 1, none⟩, fs)
    else removingShell m command fs

theorem tidy_fixlessShell (m : Migration) :
    m.Tidy (fixlessShell m) where
  failed text fs r hRan hFailed := by
    unfold fixlessShell at hRan ⊢
    split
    · rfl
    · next hOther =>
        rw [if_neg hOther] at hRan
        exact (tidy_removingShell m).failed text fs r hRan
          hFailed
  removed text names fs r manifest hNames hRan hOk hRead := by
    unfold fixlessShell at hRan ⊢
    split
    · next hSame =>
        rw [if_pos hSame] at hRan
        rcases Except.ok.inj hRan with rfl
        cases hOk
    · next hOther =>
        rw [if_neg hOther] at hRan
        exact (tidy_removingShell m).removed text names fs r
          manifest hNames hRan hOk hRead
  other text fs hNone := by
    unfold fixlessShell
    split
    · rfl
    · exact (tidy_removingShell m).other text fs hNone

/- A project that keeps what it has, and lets Biome mend it. -/
def linkedProject : Migration where
  root := ⟨.root, []⟩
  settings :=
    { version := "2"
      removeLegacy? := some false
      cleanComments? := some false
      runFix := true }
  assumeYes := true

/-
  A world with a lockfile that is a link to a configuration
  of Biome that is not there yet.
-/
def lockedWorld : World where
  files :=
    { root :=
        .directory
          [(Manifest.fileName,
              .file (Utf8.encode
                "\x7b\"dependencies\": \x7b\"typescript\": 1\x7d\x7d".toList)),
            ("pnpm-lock.yaml", .link Biome.fileName)]
      working := []
      home := ⟨.root, []⟩
      homes := []
      opened := [] }
  logger := .initial
  lines := []
  journal := []

/- The content of the manifest of a project. -/
def manifestContent
    (m : Migration)
    (fs : FileSystem) : Option Bytes :=
  match fs.root.at? m.manifestPlace with
  | some (.file content) => some content
  | _ => none

/-
  Once the configuration is there, the lockfile is found: a
  second run takes another package manager, and so the
  scripts of the manifest are not those of a single run.
-/
theorem not_converges_linkedProject :
    ∃ w' v outcome,
      linkedProject.settings.removeLegacy? ≠ none ∧
        linkedProject.settings.cleanComments? ≠ none ∧
        lockedWorld.files.HasFile linkedProject.manifestPlace ∧
        lockedWorld.files.root.at? linkedProject.configPlace =
          none ∧
        namesNoBlanks linkedProject lockedWorld.files = true ∧
        linkedProject.Tried lockedWorld w' ∧
        linkedProject.Tidy (removingShell linkedProject) ∧
        Runs (linkedProject.run (removingShell linkedProject))
          lockedWorld outcome v ∧
        linkedProject.manifestContent w'.files ≠
          linkedProject.manifestContent v.files := by
  have hTidy := tidy_removingShell linkedProject
  have hRetried :
      retried (linkedProject.run (fixlessShell linkedProject))
          (linkedProject.run (removingShell linkedProject))
          (fun w' v =>
            linkedProject.manifestContent w'.files !=
              linkedProject.manifestContent v.files)
          lockedWorld =
        true := by
    -- What the configuration says is of no account here.
    unfold run Biome.write writeText FileSystem.writeText
    simp only [Biome.encode_text]
    decide +kernel
  rcases exists_of_retried (tidy_fixlessShell linkedProject)
      hTidy hRetried with
    ⟨w', v, outcome, hTried, hRuns, hOther⟩
  exact ⟨w', v, outcome, by decide, by decide, ⟨_, rfl⟩, rfl,
    by decide +kernel, hTried, hTidy, hRuns,
    by simpa using hOther⟩

end Migration

end BiomeMigration
