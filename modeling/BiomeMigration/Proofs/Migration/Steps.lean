import BiomeMigration.Proofs.Migration.Calm
import BiomeMigration.Proofs.Package.Manifest

/-
  What the steps of a migration do to the manifest in its
  file: clearing it after the removal of the old tools, and
  adding the scripts.

  Main declarations:
    * `Migration.Workable`
    * `Migration.Stored`
    * `Migration.RemovalKept`
    * `Migration.runs_removeLegacy`
    * `Migration.InstallationKept`
    * `Migration.installationKept_of_runs`
-/

------------------------------------------------------------
-- The Manifest in its File
------------------------------------------------------------

namespace BiomeMigration

open Session
open FileSystem (Spares)

namespace Migration

variable {m : Migration} {shell : Shell}
variable {w w' : World} {loc : Location} {bytes : Bytes}

/- The path of the manifest of a project. -/
def manifestPath (m : Migration) : Path :=
  m.root.child Manifest.fileName

theorem manifestPath_anchor
    (hRoot : m.root.anchor ≠ .working) :
    m.manifestPath.anchor ≠ .working :=
  Path.child_anchor hRoot rfl

/-
  The files of a project can be worked with after a command:
  its manifest is an object whose numbers survive, and is no
  log file.
-/
structure Workable
    (m : Migration)
    (l : Logger)
    (fs : FileSystem) : Prop where
  readable : ∃ manifest, Manifest.read fs m.root = .ok manifest
  survives :
    ∀ manifest, Manifest.read fs m.root = .ok manifest →
      manifest.Survives
  unlogged :
    ∀ loc content, fs.LeadsTo m.manifestPath loc content →
      ¬ l.LogsTo fs loc

/-
  In a world, the manifest is in the file at a place, which
  is no log file.
-/
structure Stored
    (m : Migration)
    (w : World)
    (loc : Location)
    (bytes : Bytes) : Prop where
  leads : w.files.LeadsTo m.manifestPath loc bytes
  unlogged : ¬ w.logger.LogsTo w.files loc

theorem Stored.guards
    (hStored : m.Stored w loc bytes)
    (hRoot : m.root.anchor ≠ .working) :
    w.Guards loc :=
  ⟨⟨bytes, hStored.leads.node (manifestPath_anchor hRoot)⟩,
    hStored.unlogged⟩

theorem Stored.of_calm
    (hStored : m.Stored w loc bytes)
    (hRoot : m.root.anchor ≠ .working)
    (hCalm : w.Calm loc w') :
    m.Stored w' loc bytes := by
  have hGuards := hStored.guards hRoot
  exact ⟨hStored.leads.of_spares (manifestPath_anchor hRoot)
    (hCalm.spares hGuards), (hCalm.guards hGuards).2⟩

/- The manifest is read from the file at its place. -/
theorem Stored.read_iff
    (hStored : m.Stored w loc bytes)
    {manifest : Manifest} :
    Manifest.read w.files m.root = .ok manifest ↔
      Json.ofBytes w.files.depths.json bytes =
        .ok (.object manifest) := by
  rw [Manifest.read_eq_ok_iff]
  constructor
  · rintro ⟨loc', bytes', hLeads, hManifest⟩
    have hSame : bytes' = bytes := by
      have hPlaces : .ok ⟨loc', some (.file bytes')⟩ =
          Except.ok (⟨loc, some (.file bytes)⟩ :
            FileSystem.Place) :=
        hLeads.symm.trans hStored.leads
      simp only [Except.ok.injEq, FileSystem.Place.mk.injEq,
        Option.some.injEq, Node.file.injEq] at hPlaces
      exact hPlaces.2
    rw [← hSame]
    exact hManifest
  · intro hManifest
    exact ⟨loc, bytes, hStored.leads, hManifest⟩

theorem runs_write
    {manifest : Manifest}
    {u : Unit}
    (hRuns : Runs (manifest.write m.root) w u w') :
    w'.logger = w.logger ∧ w'.executions = w.executions := by
  rcases runs_writeText hRuns with ⟨fs, _, rfl⟩
  exact ⟨rfl, rfl⟩

/- A manifest that is written is in its file then. -/
theorem Stored.of_write
    (hStored : m.Stored w loc bytes)
    (hRoot : m.root.anchor ≠ .working)
    {manifest : Manifest}
    (hSound : manifest.IsSound w.files.depths.json)
    (hSurvives : manifest.Survives)
    {u : Unit}
    (hRuns : Runs (manifest.write m.root) w u w') :
    ∃ bytes',
      m.Stored w' loc bytes' ∧
        w'.files.depths = w.files.depths ∧
        Json.ofBytes w.files.depths.json bytes' =
          .ok (.object manifest) := by
  rcases runs_writeText hRuns with ⟨fs, hWritten, rfl⟩
  rcases hStored.leads.rewrites (manifestPath_anchor hRoot)
      hWritten with
    ⟨bytes', hBytes, hRewrites⟩
  refine ⟨bytes', ⟨hRewrites.leads, ?_⟩, hRewrites.depths,
    Manifest.ofBytes_text hSound hSurvives hBytes⟩
  rintro ⟨hHandler, hOpened⟩
  rw [hRewrites.opened] at hOpened
  exact hStored.unlogged ⟨hHandler, hOpened⟩

/- The manifest that a command leaves behind is stored. -/
theorem Workable.stored
    (hWorkable : m.Workable w.logger w.files)
    {manifest : Manifest}
    (hRead : Manifest.read w.files m.root = .ok manifest) :
    ∃ loc bytes,
      m.Stored w loc bytes ∧
        Json.ofBytes w.files.depths.json bytes =
          .ok (.object manifest) := by
  rcases Manifest.read_eq_ok_iff.mp hRead with
    ⟨loc, bytes, hLeads, hManifest⟩
  exact ⟨loc, bytes,
    ⟨hLeads, hWorkable.unlogged loc bytes hLeads⟩, hManifest⟩

------------------------------------------------------------
-- The Removal of the Old Tools
------------------------------------------------------------

/-
  A manifest in some files is in other ones without the
  settings of the old tools, in the same bytes if it had
  none.
-/
def RemovalKept
    (m : Migration)
    (after before : FileSystem) : Prop :=
  ∃ manifest : Manifest,
    Manifest.read after m.root = .ok manifest ∧
      Manifest.read before m.root =
        .ok manifest.withoutLegacySettings ∧
      (manifest.hasLegacySettings = false →
        before.read m.manifestPath =
          after.read m.manifestPath)

/-
  The same for a world in which the manifest is stored, so
  that it lasts.
-/
def Cleared
    (m : Migration)
    (after : FileSystem)
    (w : World) : Prop :=
  ∃ (manifest : Manifest) (loc : Location) (old new : Bytes),
    after.LeadsTo m.manifestPath loc old ∧
      Json.ofBytes after.depths.json old =
        .ok (.object manifest) ∧
      w.files.depths = after.depths ∧
      m.Stored w loc new ∧
      Json.ofBytes after.depths.json new =
        .ok (.object manifest.withoutLegacySettings) ∧
      (manifest.hasLegacySettings = false → new = old)

theorem Cleared.of_calm
    {after : FileSystem}
    (hCleared : m.Cleared after w)
    (hRoot : m.root.anchor ≠ .working)
    (hCalm : ∀ loc, w.Calm loc w') :
    m.Cleared after w' := by
  rcases hCleared with
    ⟨manifest, loc, old, new, hLeads, hOld, hDepths, hStored,
      hRest⟩
  have hSpares := (hCalm loc).spares (hStored.guards hRoot)
  exact ⟨manifest, loc, old, new, hLeads, hOld,
    hSpares.depths.trans hDepths,
    hStored.of_calm hRoot (hCalm loc), hRest⟩

theorem Cleared.removalKept
    {after : FileSystem}
    (hCleared : m.Cleared after w) :
    m.RemovalKept after w.files := by
  rcases hCleared with
    ⟨manifest, loc, old, new, hLeads, hOld, hDepths, hStored,
      hNew, hSame⟩
  rw [← hDepths] at hNew
  refine ⟨manifest, ?_, hStored.read_iff.mpr hNew, ?_⟩
  · exact Manifest.read_eq_ok_iff.mpr ⟨loc, old, hLeads, hOld⟩
  · intro hNone
    have hBefore : w.files.read m.manifestPath = .ok new :=
      FileSystem.read_eq_ok_iff.mpr ⟨loc, hStored.leads⟩
    have hAfter : after.read m.manifestPath = .ok old :=
      FileSystem.read_eq_ok_iff.mpr ⟨loc, hLeads⟩
    rw [hBefore, hAfter, hSame hNone]

/-
  The settings of the old tools are taken out of the manifest
  as it has become.
-/
theorem cleared_of_runs
    (hRoot : m.root.anchor ≠ .working)
    {manifest : Manifest}
    (hRead : Manifest.read w.files m.root = .ok manifest)
    (hWorkable : m.Workable w.logger w.files)
    {message : Text}
    {u : Unit}
    (hRuns :
      Runs
        (if manifest.hasLegacySettings then do
          manifest.withoutLegacySettings.write m.root
          say message
        else pure ()) w u w') :
    m.Cleared w.files w' := by
  rcases hWorkable.stored hRead with
    ⟨loc, old, hStored, hOld⟩
  split at hRuns
  · next hSettings =>
      rcases runs_bind_iff.mp hRuns with ⟨_, v, hWrite, hSay⟩
      have hSound := Manifest.isSound_of_ofBytes hOld
      have hSurvives := hWorkable.survives manifest hRead
      rcases hStored.of_write hRoot
          hSound.withoutLegacySettings
          hSurvives.withoutLegacySettings hWrite with
        ⟨new, hWritten, hDepths, hNew⟩
      have hSaid : v.Calm loc w' := isCalm_say _ _ _ _ hSay
      have hSpares := hSaid.spares (hWritten.guards hRoot)
      refine ⟨manifest, loc, old, new, hStored.leads, hOld,
        hSpares.depths.trans hDepths,
        hWritten.of_calm hRoot hSaid, hNew, ?_⟩
      intro hNone
      rw [hSettings] at hNone
      simp at hNone
  · next hSettings =>
      have hNone : manifest.hasLegacySettings = false := by
        simpa using hSettings
      rcases runs_pure_iff.mp hRuns with ⟨_, rfl⟩
      refine ⟨manifest, loc, old, old, hStored.leads, hOld,
        rfl, hStored, ?_, fun _ => rfl⟩
      rw [Manifest.withoutLegacySettings_eq_self hNone]
      exact hOld

/-
  The removal runs one command; then the manifest that the
  command has left is stored without the settings.
-/
theorem runs_removeLegacy
    (hRoot : m.root.anchor ≠ .working)
    {s : Survey}
    {u : Unit}
    (hRuns : Runs (m.removeLegacy shell s) w u w') :
    ∃ removal : Execution,
      removal.IsOf shell
          (s.manager.uninstall s.legacy) ∧
        w'.logger = w.logger ∧
        w'.executions = w.executions ++ [removal] ∧
        (m.Workable w.logger removal.after →
          m.Cleared removal.after w') := by
  unfold removeLegacy at hRuns
  rcases runs_bind_iff.mp hRuns with ⟨_, w₁, hWarn, hRuns₁⟩
  rcases runs_bind_iff.mp hRuns₁ with ⟨_, w₂, hList, hRuns₂⟩
  rcases runs_bind_iff.mp hRuns₂ with ⟨_, w₃, hCheck, hRuns₃⟩
  rcases runs_check hCheck with ⟨w₄, hLog, hExecuted⟩
  have hCalm : ∀ loc, w.Calm loc w₄ := fun loc =>
    (isCalm_warn _ _ _ _ hWarn).trans
      ((isCalm_warn _ _ _ _ hList).trans
        (isCalm_log _ _ _ _ _ _ hLog))
  have hLogger : w₃.logger = w.logger := by
    rw [hExecuted]
    exact (hCalm []).logger
  have hExecutions :
      w₃.executions =
        w.executions ++
          [⟨s.manager.uninstall s.legacy,
            w₄.files, w₃.files⟩] := by
    rw [hExecuted, World.executions_executed,
      (hCalm []).executions]
    rfl
  rcases runs_bind_iff.mp hRuns₃ with
    ⟨fs, w₅, hFiles, hRuns₄⟩
  rcases runs_files_iff.mp hFiles with ⟨rfl, rfl⟩
  rcases runs_bind_iff.mp hRuns₄ with
    ⟨manifest, w₆, hExcept, hRuns₅⟩
  rcases runs_ofExcept_iff.mp hExcept with ⟨hRead, rfl⟩
  have hQuiet :
      w'.logger = w₆.logger ∧ w'.executions = w₆.executions := by
    split at hRuns₅
    · rcases runs_bind_iff.mp hRuns₅ with ⟨_, w₇, hWrite, hSay⟩
      have hSaid : w₇.Calm [] w' := isCalm_say _ _ _ _ hSay
      exact ⟨hSaid.logger.trans (runs_write hWrite).1,
        hSaid.executions.trans (runs_write hWrite).2⟩
    · rcases runs_pure_iff.mp hRuns₅ with ⟨_, rfl⟩
      exact ⟨rfl, rfl⟩
  have hIsOf :
      (⟨s.manager.uninstall s.legacy,
        w₄.files, w₆.files⟩ : Execution).IsOf shell
          (s.manager.uninstall s.legacy) :=
    ⟨rfl, by rw [hExecuted]; rfl⟩
  refine ⟨⟨_, w₄.files, w₆.files⟩, hIsOf,
    hQuiet.1.trans hLogger, hQuiet.2.trans hExecutions, ?_⟩
  intro hWorkable
  rw [← hLogger] at hWorkable
  exact cleared_of_runs hRoot hRead hWorkable hRuns₅

------------------------------------------------------------
-- The Scripts
------------------------------------------------------------

/- Names of members are compared as texts. -/
local instance : LawfulBEq Text := inferInstance

/- The manifest in some files is in other ones with scripts. -/
def InstallationKept
    (m : Migration)
    (added : List (String × String))
    (after start : FileSystem) : Prop :=
  ∃ manifest kept : Manifest,
    Manifest.read after m.root = .ok manifest ∧
      Manifest.read start m.root = .ok kept ∧
      kept = manifest.withScripts added ∧
      Members.erase kept (Text.ofString "scripts") =
        Members.erase manifest (Text.ofString "scripts") ∧
      Members.keys kept =
        if Text.ofString "scripts" ∈ Members.keys manifest then
          Members.keys manifest
        else
          Members.keys manifest ++ [Text.ofString "scripts"]

/- The manifest is read, written with scripts, and logged. -/
theorem runs_addScripts
    {s : Survey}
    {typescript : Bool}
    (hRuns : Runs (m.addScripts s) w typescript w') :
    ∃ found v,
      Manifest.read w.files m.root = .ok found ∧
        Runs
          (Manifest.write m.root
            (found.withScripts
              (Manifest.scripts s.manager typescript)))
          w () v ∧
        ∀ loc, v.Calm loc w' := by
  unfold addScripts at hRuns
  rcases runs_bind_iff.mp hRuns with ⟨fs, w₁, hFiles, hRuns₁⟩
  rcases runs_files_iff.mp hFiles with ⟨rfl, rfl⟩
  rcases runs_bind_iff.mp hRuns₁ with
    ⟨found, w₂, hExcept, hRuns₂⟩
  rcases runs_ofExcept_iff.mp hExcept with ⟨hRead, rfl⟩
  rcases runs_bind_iff.mp hRuns₂ with
    ⟨isTyped, w₃, hTyped, hRuns₃⟩
  rcases runs_ofFiles_iff.mp hTyped with ⟨_, rfl⟩
  dsimp only at hRuns₃
  rcases runs_bind_iff.mp hRuns₃ with ⟨_, v, hWrite, hRuns₄⟩
  rcases runs_bind_iff.mp hRuns₄ with ⟨_, w₅, hSay, hPure⟩
  rcases runs_pure_iff.mp hPure with ⟨rfl, rfl⟩
  exact ⟨found, v, hRead, hWrite,
    fun _ => isCalm_say _ _ _ _ hSay⟩

theorem executions_addScripts
    {s : Survey}
    {typescript : Bool}
    (hRuns : Runs (m.addScripts s) w typescript w') :
    w'.executions = w.executions := by
  rcases runs_addScripts hRuns with ⟨_, v, _, hWrite, hCalm⟩
  exact (hCalm []).executions.trans (runs_write hWrite).2

/- The manifest has the scripts in addition then. -/
theorem read_of_addScripts
    (hRoot : m.root.anchor ≠ .working)
    (hStored : m.Stored w loc bytes)
    {manifest : Manifest}
    (hManifest :
      Json.ofBytes w.files.depths.json bytes =
        .ok (.object manifest))
    (hSurvives : manifest.Survives)
    {s : Survey}
    {typescript : Bool}
    (hRuns : Runs (m.addScripts s) w typescript w') :
    Manifest.read w'.files m.root =
      .ok
        (manifest.withScripts
          (Manifest.scripts s.manager typescript)) := by
  rcases runs_addScripts hRuns with
    ⟨found, v, hRead, hWrite, hCalm⟩
  have hFound : found = manifest := by
    have hSame := hStored.read_iff.mp hRead
    rw [hManifest] at hSame
    simpa using hSame.symm
  rw [hFound] at hWrite
  have hSound := Manifest.isSound_of_ofBytes hManifest
  rcases hStored.of_write hRoot
      (hSound.withScripts w.files.depths.two_le_json _)
      (hSurvives.withScripts _) hWrite with
    ⟨new, hWritten, hDepths, hNew⟩
  have hLast := hWritten.of_calm hRoot (hCalm loc)
  have hSpares := (hCalm loc).spares (hWritten.guards hRoot)
  rw [← hDepths, ← hSpares.depths] at hNew
  exact hLast.read_iff.mpr hNew

/-
  The manifest that the installation has left has the
  scripts in addition when the scrubbing starts.
-/
theorem installationKept_of_runs
    (hRoot : m.root.anchor ≠ .working)
    {s : Survey}
    {version : Text}
    {v : World}
    {written typescript : Bool}
    (hWrite :
      Runs (Biome.write m.root s.archetype version) w written v)
    (hScripts : Runs (m.addScripts s) v typescript w')
    (hWorkable : m.Workable w.logger w.files) :
    m.InstallationKept (Manifest.scripts s.manager typescript)
      w.files w'.files := by
  rcases hWorkable.readable with ⟨manifest, hRead⟩
  rcases hWorkable.stored hRead with
    ⟨loc, bytes, hStored, hManifest⟩
  have hCalm : w.Calm loc v :=
    Biome.isCalm_write hRoot _ _ _ _ _ hWrite
  have hLater := hStored.of_calm hRoot hCalm
  have hSpares := hCalm.spares (hStored.guards hRoot)
  rw [← hSpares.depths] at hManifest
  have hKept :=
    read_of_addScripts hRoot hLater hManifest
      (hWorkable.survives manifest hRead) hScripts
  exact ⟨manifest, _, hRead, hKept, rfl,
    Manifest.erase_withScripts manifest _,
    Members.keys_insert manifest _ _⟩

end Migration

end BiomeMigration
