import BiomeMigration.Proofs.Migration.Detection
import BiomeMigration.Proofs.Package.Removal
import BiomeMigration.Proofs.Package.Writing

/-
  What a migration makes of a regular project when its
  commands are tidy: the files differ from those at the start
  in the content of a few places, and the manifest there is
  the one that the steps so far lead to.

  Main declarations:
    * `Migration.Regular`
    * `Migration.Tidy`
    * `Migration.Varies`
    * `Migration.Holds`
    * `Migration.HoldsText`
-/

------------------------------------------------------------
-- Regular Projects
------------------------------------------------------------

namespace BiomeMigration

open Session
open FileSystem (Touches HasFile)

namespace Migration

variable {m : Migration} {shell : Shell} {l : Logger}
variable {base fs fs' : FileSystem} {w w' : World}
variable {bytes new : Bytes} {X : Manifest}

/- The place of the manifest of a project. -/
def manifestPlace (m : Migration) : Location :=
  m.root.parts ++ [Manifest.fileName]

/- The place of the configuration of Biome. -/
def configPlace (m : Migration) : Location :=
  m.root.parts ++ [Biome.fileName]

/- The path of the configuration of Biome. -/
def configPath (m : Migration) : Path :=
  m.root.child Biome.fileName

/-
  A project in a real directory has a manifest, and perhaps a
  configuration of Biome, in files that are no open log
  files.
-/
structure Regular
    (m : Migration)
    (l : Logger)
    (fs : FileSystem) : Prop where
  anchor : m.root.anchor = .root
  proper : fs.root.Proper
  directory :
    ∃ entries,
      fs.root.at? m.root.parts = some (.directory entries)
  manifest : fs.HasFile m.manifestPlace
  config :
    fs.root.at? m.configPlace = none ∨ fs.HasFile m.configPlace
  manifest_unlogged : ¬ l.LogsTo fs m.manifestPlace
  config_unlogged : ¬ l.LogsTo fs m.configPlace

theorem Regular.anchor_ne
    (hRegular : m.Regular l fs) :
    m.root.anchor ≠ .working := by
  rw [hRegular.anchor]
  simp

theorem Regular.real
    (hRegular : m.Regular l fs) :
    fs.IsReal m.root := by
  rcases hRegular.directory with ⟨entries, hDirectory⟩
  exact FileSystem.isReal_of_proper hRegular.proper
    hRegular.anchor_ne hDirectory

theorem manifestPlace_ne_configPlace (m : Migration) :
    m.manifestPlace ≠ m.configPlace := by
  unfold manifestPlace configPlace
  intro hSame
  have hNames := List.append_cancel_left hSame
  revert hNames
  decide

/-
  The places that scrubbing may write to, if it is wanted:
  those of the code files of the project.
-/
def Scrubs (m : Migration) (loc : Location) : Prop :=
  m.settings.cleanComments? ≠ some false ∧
    ∃ below, loc = m.root.parts ++ below ∧ Node.IsListed below

theorem not_scrubs_entry
    {name : String}
    (hName : CodeFiles.isCodeName name = false) :
    ¬ m.Scrubs (m.root.parts ++ [name]) := by
  rintro ⟨_, below, hSame, hListed⟩
  rcases hListed.isCode with ⟨front, last, rfl, hCode⟩
  rw [← List.append_assoc] at hSame
  rcases List.append_inj' hSame rfl with ⟨_, hLast⟩
  rw [← List.head_eq_of_cons_eq hLast, hName] at hCode
  cases hCode

/-
  The places where a migration may change the content of a
  file that is there: those of the manifest, of the open log
  files, and of the code files.
-/
def Writes
    (m : Migration)
    (l : Logger)
    (fs : FileSystem)
    (loc : Location) : Prop :=
  loc = m.manifestPlace ∨ l.LogsTo fs loc ∨ m.Scrubs loc

theorem Regular.not_writes_config
    (hRegular : m.Regular l fs) :
    ¬ m.Writes l fs m.configPlace := by
  rintro (hSame | hLogs | hScrubs)
  · exact m.manifestPlace_ne_configPlace hSame.symm
  · exact hRegular.config_unlogged hLogs
  · exact not_scrubs_entry (by decide +kernel) hScrubs

theorem writes_congr
    (m : Migration)
    (l : Logger)
    (hOpened : fs'.opened = fs.opened) :
    m.Writes l fs' = m.Writes l fs := by
  unfold Writes
  rw [l.logsTo_congr hOpened]

------------------------------------------------------------
-- Tidy Commands
------------------------------------------------------------

/-
  The commands of a shell keep to what they are for. One that
  fails changes nothing, one that removes packages takes them
  out of the groups of the manifest and leaves all else in
  order, and the others change nothing.
-/
structure Tidy (m : Migration) (shell : Shell) : Prop where
  failed :
    ∀ text fs r, (shell text fs).1 = .ok r → r.ok = false →
      (shell text fs).2 = fs
  removed :
    ∀ text names fs r manifest,
      Manager.removed? text = some names →
        (shell text fs).1 = .ok r → r.ok = true →
          Manifest.read fs m.root = .ok manifest →
            ∃ bytes,
              (shell text fs).2 =
                  fs.setFile m.manifestPlace bytes ∧
                Json.ofBytes fs.depths.json bytes =
                  .ok (.object (manifest.without names))
  other :
    ∀ text fs, Manager.removed? text = none →
      (shell text fs).2 = fs

/- A command that removes no packages changes nothing. -/
theorem Tidy.executed_other
    (hTidy : m.Tidy shell)
    {text : Text}
    (hOther : Manager.removed? text = none)
    (w : World) :
    (executed shell text w).files = w.files :=
  hTidy.other text w.files hOther

------------------------------------------------------------
-- Varied Worlds
------------------------------------------------------------

/-
  A world differs from some files in the content of what a
  migration may write to, and the manifest is in its file.
-/
structure Varies
    (m : Migration)
    (l : Logger)
    (base : FileSystem)
    (bytes : Bytes)
    (w : World) : Prop where
  logger : w.logger = l
  proper : w.files.root.Proper
  files : Touches (m.Writes l base) base w.files
  leads : w.files.LeadsTo m.manifestPath m.manifestPlace bytes

theorem Varies.of_same
    (hVaries : m.Varies l base bytes w)
    (hLogger : w'.logger = w.logger)
    (hFiles : w'.files = w.files) :
    m.Varies l base bytes w' := by
  refine ⟨hLogger.trans hVaries.logger, ?_, ?_, ?_⟩
  · rw [hFiles]
    exact hVaries.proper
  · rw [hFiles]
    exact hVaries.files
  · rw [hFiles]
    exact hVaries.leads

theorem Varies.real
    (hVaries : m.Varies l base bytes w)
    (hRegular : m.Regular l base) :
    w.files.IsReal m.root :=
  hRegular.real.of_grows hVaries.files.grows

theorem Varies.node
    (hVaries : m.Varies l base bytes w)
    (hRegular : m.Regular l base) :
    w.files.root.at? m.manifestPlace = some (.file bytes) :=
  hVaries.leads.node (manifestPath_anchor hRegular.anchor_ne)

theorem Varies.read
    (hVaries : m.Varies l base bytes w)
    (hManifest :
      Json.ofBytes base.depths.json bytes = .ok (.object X)) :
    Manifest.read w.files m.root = .ok X := by
  rw [← hVaries.files.depths] at hManifest
  exact Manifest.read_eq_ok_iff.mpr
    ⟨m.manifestPlace, bytes, hVaries.leads, hManifest⟩

/- Other files of the base may be touched. -/
theorem Varies.of_touches
    (hVaries : m.Varies l base bytes w)
    (hRegular : m.Regular l base)
    (hLogger : w'.logger = w.logger)
    (hProper : w'.files.root.Proper)
    {places : Location → Prop}
    (hTouches : Touches places w.files w'.files)
    (hPlaces : ∀ loc, places loc → m.Writes l base loc)
    (hManifest : ¬ places m.manifestPlace) :
    m.Varies l base bytes w' := by
  have hAnchor := manifestPath_anchor hRegular.anchor_ne
  refine ⟨hLogger.trans hVaries.logger, hProper,
    hVaries.files.trans (hTouches.mono hPlaces), ?_⟩
  exact hVaries.leads.of_grows hAnchor hTouches.grows
    (hTouches.file hManifest (hVaries.node hRegular))

theorem Varies.of_scrubbed
    (hVaries : m.Varies l base bytes w)
    (hRegular : m.Regular l base)
    (hLogger : w'.logger = w.logger)
    (hProper : w'.files.root.Proper)
    (hScrubbed : l.Scrubbed m.Scrubs w.files w'.files) :
    m.Varies l base bytes w' := by
  have hLogs := l.logsTo_of_touches hVaries.files
  apply hVaries.of_touches hRegular hLogger hProper hScrubbed
  · rintro loc (hLog | hScrubs)
    · rw [hLogs] at hLog
      exact Or.inr (Or.inl hLog)
    · exact Or.inr (Or.inr hScrubs)
  · rintro (hLog | hScrubs)
    · rw [hLogs] at hLog
      exact hRegular.manifest_unlogged hLog
    · exact not_scrubs_entry (by decide +kernel) hScrubs

theorem lasting_varies
    (hRegular : m.Regular l base)
    (bytes : Bytes) :
    Lasting (m.Varies l base bytes) where
  record r w hVaries := by
    have hLogged := w.logger.touches_writeFiles r w.files
    rw [hVaries.logger] at hLogged
    refine Varies.of_scrubbed hVaries hRegular ?_ ?_ ?_
    · rfl
    · exact w.logger.proper_writeFiles hVaries.proper r
    · unfold recorded
      dsimp only
      rw [hVaries.logger]
      exact Logger.Logged.scrubbed hLogged
  echo _ _ hVaries := hVaries.of_same rfl rfl

/- The manifest may be replaced in its file. -/
theorem Varies.of_setFile
    (hVaries : m.Varies l base bytes w)
    (hRegular : m.Regular l base)
    (hLogger : w'.logger = w.logger)
    (hFiles : w'.files = w.files.setFile m.manifestPlace new) :
    m.Varies l base new w' := by
  have hNode := hVaries.node hRegular
  have hTouches :
      Touches (· = m.manifestPlace) w.files w'.files := by
    rw [hFiles]
    exact FileSystem.touches_setFile ⟨bytes, hNode⟩ new
  refine ⟨hLogger.trans hVaries.logger, ?_,
    hVaries.files.trans (hTouches.mono fun _ => Or.inl), ?_⟩
  · rw [hFiles]
    exact hVaries.proper.put (Or.inl ⟨bytes, hNode⟩) new
  · apply hVaries.leads.of_grows
      (manifestPath_anchor hRegular.anchor_ne) hTouches.grows
    rw [hFiles]
    exact Node.at?_put_self _ _ _

/- A text that is written to the manifest is in its file. -/
theorem Varies.of_write
    (hVaries : m.Varies l base bytes w)
    (hRegular : m.Regular l base)
    {u : Unit}
    (hRuns : Runs (X.write m.root) w u w') :
    ∃ new,
      X.text.encode = .ok new ∧ m.Varies l base new w' := by
  rcases runs_writeText hRuns with ⟨fs, hWritten, rfl⟩
  rcases FileSystem.setFile_of_writeText hWritten with
    ⟨loc, old, new, hOpen, hNew, rfl⟩
  refine ⟨new, hNew, hVaries.of_setFile hRegular rfl ?_⟩
  rw [hVaries.leads.openForWriting
    (manifestPath_anchor hRegular.anchor_ne) hOpen]

------------------------------------------------------------
-- The Manifest of a World
------------------------------------------------------------

variable {Y : Manifest} {E : World → Prop}

/- The file of the manifest reads as a manifest. -/
def Holds
    (m : Migration)
    (l : Logger)
    (base : FileSystem)
    (X : Manifest)
    (w : World) : Prop :=
  ∃ bytes,
    Json.ofBytes base.depths.json bytes = .ok (.object X) ∧
      m.Varies l base bytes w

/- It holds the very text that is written for a manifest. -/
def HoldsText
    (m : Migration)
    (l : Logger)
    (base : FileSystem)
    (X : Manifest)
    (w : World) : Prop :=
  X.IsSound base.depths.json ∧
    ∃ bytes,
      X.text.encode = .ok bytes ∧ m.Varies l base bytes w

theorem HoldsText.holds
    (hText : m.HoldsText l base X w) :
    m.Holds l base X w := by
  rcases hText with ⟨hSound, bytes, hBytes, hVaries⟩
  exact ⟨bytes,
    Manifest.ofBytes_text hSound
      (Manifest.survives_of_isSound hSound) hBytes,
    hVaries⟩

theorem Holds.isSound
    (hHolds : m.Holds l base X w) :
    X.IsSound base.depths.json := by
  rcases hHolds with ⟨bytes, hManifest, _⟩
  exact Manifest.isSound_of_ofBytes hManifest

theorem Holds.read
    (hHolds : m.Holds l base X w) :
    Manifest.read w.files m.root = .ok X := by
  rcases hHolds with ⟨bytes, hManifest, hVaries⟩
  exact hVaries.read hManifest

theorem Holds.of_same
    (hHolds : m.Holds l base X w)
    (hLogger : w'.logger = w.logger)
    (hFiles : w'.files = w.files) :
    m.Holds l base X w' := by
  rcases hHolds with ⟨bytes, hManifest, hVaries⟩
  exact ⟨bytes, hManifest, hVaries.of_same hLogger hFiles⟩

theorem lasting_holds
    (hRegular : m.Regular l base)
    (X : Manifest) :
    Lasting (m.Holds l base X) where
  record r w hHolds := by
    rcases hHolds with ⟨bytes, hManifest, hVaries⟩
    exact ⟨bytes, hManifest,
      (lasting_varies hRegular bytes).record r w hVaries⟩
  echo _ _ hHolds := hHolds.of_same rfl rfl

theorem HoldsText.of_varies
    (hText : m.HoldsText l base X w)
    (hVaries :
      ∀ bytes, m.Varies l base bytes w →
        m.Varies l base bytes w') :
    m.HoldsText l base X w' := by
  rcases hText with ⟨hSound, bytes, hBytes, hHere⟩
  exact ⟨hSound, bytes, hBytes, hVaries bytes hHere⟩

theorem lasting_holdsText
    (hRegular : m.Regular l base)
    (X : Manifest) :
    Lasting (m.HoldsText l base X) where
  record r w hText :=
    hText.of_varies fun bytes =>
      (lasting_varies hRegular bytes).record r w
  echo _ _ hText :=
    hText.of_varies fun _ hVaries => hVaries.of_same rfl rfl

/- What follows a look at the manifest. -/
theorem ensures_read_bind
    {α : Type}
    {Q : α → World → Prop}
    {next : Manifest → Session α}
    (hNext : Ensures (m.Holds l base X) (next X) Q E) :
    Ensures (m.Holds l base X)
      (do
        let fs ← Session.files
        let manifest ←
          Session.ofExcept (Manifest.read fs m.root)
        next manifest) Q E := by
  intro w result w' hHolds hEnds
  have hExcept := (ends_files w).of_bind hEnds
  rw [hHolds.read] at hExcept
  have hRest :=
    (ends_ofExcept_iff (w := w).mpr ⟨rfl, rfl⟩).of_bind hExcept
  exact hNext w result w' hHolds hRest

/- A manifest is written in place of another one. -/
theorem ensures_write
    (hRegular : m.Regular l base)
    (hSound :
      X.IsSound base.depths.json →
        Y.IsSound base.depths.json) :
    Ensures (m.Holds l base X) (Y.write m.root)
      (fun _ => m.HoldsText l base Y) E := by
  apply ensures_of_runs (keeps_writeText (fun _ _ => trivial) _ _)
  intro w u w' hHolds hRuns
  have hSoundY := hSound hHolds.isSound
  rcases hHolds with ⟨bytes, _, hVaries⟩
  exact ⟨hSoundY, hVaries.of_write hRegular hRuns⟩

end Migration

end BiomeMigration
