import BiomeMigration.Proofs.Migration.Inquiry
import BiomeMigration.Proofs.Migration.Variation

/-
  What the steps of a migration make of a regular project
  when its commands are tidy: the old tools are gone, there
  is a configuration of Biome, and the manifest has the
  scripts. A step whose command fails leaves what was there.

  Main declarations:
    * `Migration.settled`
    * `Migration.furnished`
    * `Migration.Arranged`
    * `Migration.ensures_changes`
-/

------------------------------------------------------------
-- The Removal of the Old Tools
------------------------------------------------------------

namespace BiomeMigration

open Session
open FileSystem (Touches HasFile)

namespace Migration

variable {m : Migration} {shell : Shell} {l : Logger}
variable {base fs fs' : FileSystem} {w w' : World}
variable {bytes content : Bytes} {X Z : Manifest}
variable {E : World → Prop} {s : Survey} {d : Decisions}
variable {archetype : Archetype} {typescript : Bool}

/-
  The manifest after the old tools have been dealt with. If
  they are to be removed and there are any, they are gone.
-/
def settled (m : Migration) (X : Manifest) : Manifest :=
  if m.settings.removeLegacy? = some true ∧
      Legacy.packages X ≠ [] then
    X.cleaned
  else X

/- A command that removes no packages changes nothing. -/
theorem ensures_check_other
    {P : World → Prop}
    (hTidy : m.Tidy shell)
    (hLasting : Lasting P)
    (hSame :
      ∀ w w', P w → w'.logger = w.logger →
        w'.files = w.files → P w')
    {text : Text}
    (hOther : Manager.removed? text = none) :
    Ensures P (check shell text) (fun _ => P) P :=
  ensures_check hLasting
    (fun w _ hHere _ _ =>
      hSame w _ hHere rfl (hTidy.executed_other hOther w))
    (fun w _ hHere _ _ =>
      hSame w _ hHere rfl (hTidy.executed_other hOther w))

theorem ensures_clearing
    (hRegular : m.Regular l base)
    (X : Manifest) :
    Ensures (m.Holds l base X) m.clearing
      (fun _ => m.Holds l base X.withoutLegacySettings) E := by
  unfold clearing
  apply ensures_read_bind
  split
  · apply (ensures_write hRegular
      Manifest.IsSound.withoutLegacySettings).bind
    intro _
    exact (ensures_log (lasting_holdsText hRegular _) _ _ _).imp
      (fun _ hText => hText) (fun _ _ hText => hText.holds)
      (fun _ hFailed => hFailed)
  · next hSettings =>
      have hNone : X.hasLegacySettings = false := by
        simpa using hSettings
      apply ensures_pure
      rw [Manifest.withoutLegacySettings_eq_self hNone]
      exact fun _ hHolds => hHolds

/- The removal takes the packages out of the manifest. -/
theorem ensures_uninstall
    (hRegular : m.Regular l base)
    (hTidy : m.Tidy shell)
    {names : List Text}
    (hSome : names ≠ [])
    (hBlanks : ∀ name ∈ names, .scalar ' ' ∉ name)
    (manager : Manager)
    (X : Manifest) :
    Ensures (m.Holds l base X)
      (check shell (manager.uninstall names))
      (fun _ => m.Holds l base (X.without names))
      (m.Holds l base X) := by
  apply ensures_check (lasting_holds hRegular X)
  · intro w r hHolds hRan hOk
    rcases hTidy.removed _ names w.files r X
        (Manager.removed?_uninstall hSome hBlanks) hRan hOk
        hHolds.read with
      ⟨new, hFiles, hManifest⟩
    rcases hHolds with ⟨bytes, _, hVaries⟩
    rw [hVaries.files.depths] at hManifest
    exact ⟨new, hManifest,
      hVaries.of_setFile hRegular rfl hFiles⟩
  · intro w r hHolds hRan hFailed
    exact hHolds.of_same rfl
      (hTidy.failed _ w.files r hRan hFailed)

theorem ensures_settleLegacy
    (hRegular : m.Regular l base)
    (hTidy : m.Tidy shell)
    (hLegacy : s.legacy = Legacy.packages X)
    (hBlanks :
      ∀ package ∈ Legacy.packages X, .scalar ' ' ∉ package)
    (hRemoval :
      d.removeLegacy = true ↔
        s.legacy ≠ [] ∧ m.settings.removeLegacy? = some true) :
    Ensures (m.Holds l base X) (m.settleLegacy shell s d)
      (fun _ => m.Holds l base (m.settled X))
      (m.Holds l base X) := by
  have hLasting := lasting_holds hRegular X
  rw [hLegacy] at hRemoval
  unfold settleLegacy settled
  cases hRemove : d.removeLegacy with
  | true =>
      rcases hRemoval.mp hRemove with ⟨hSome, hWanted⟩
      rw [if_pos rfl, if_pos ⟨hWanted, hSome⟩]
      unfold removeLegacy
      apply (ensures_log hLasting _ _ _).bind
      intro _
      apply (ensures_log hLasting _ _ _).bind
      intro _
      rw [hLegacy]
      apply (ensures_uninstall hRegular hTidy hSome hBlanks
        s.manager X).bind
      intro _
      exact ensures_clearing hRegular _
  | false =>
      have hKeep :
          ¬ (m.settings.removeLegacy? = some true ∧
            Legacy.packages X ≠ []) := by
        rintro ⟨hWanted, hSome⟩
        rw [hRemoval.mpr ⟨hSome, hWanted⟩] at hRemove
        cases hRemove
      rw [if_neg (by simp), if_neg hKeep]
      split
      · exact ensures_pure fun _ hHolds => hHolds
      · exact ensures_log hLasting _ _ _

------------------------------------------------------------
-- The Installation
------------------------------------------------------------

theorem ensures_install
    (hRegular : m.Regular l base)
    (hTidy : m.Tidy shell)
    (s : Survey)
    (Z : Manifest) :
    Ensures (m.Holds l base Z) (m.install shell s)
      (fun _ => m.Holds l base Z) (m.Holds l base Z) := by
  have hLasting := lasting_holds hRegular Z
  unfold install
  apply (ensures_log hLasting _ _ _).bind
  intro _
  exact ensures_check_other hTidy hLasting
    (fun _ _ hHolds => hHolds.of_same)
    (Manager.removed?_install s.manager _)

------------------------------------------------------------
-- The Configuration of Biome
------------------------------------------------------------

/-
  The files with a configuration of Biome for a kind of
  project, unless there is one.
-/
def furnished
    (m : Migration)
    (archetype : Archetype)
    (fs : FileSystem) : FileSystem :=
  match fs.root.at? m.configPlace,
      (Biome.text archetype
        m.settings.version).encode with
  | none, .ok content => fs.setFile m.configPlace content
  | _, _ => fs

theorem furnished_of_hasFile
    (hConfig : fs.HasFile m.configPlace)
    (archetype : Archetype) :
    m.furnished archetype fs = fs := by
  rcases hConfig with ⟨content, hFile⟩
  unfold furnished
  rw [hFile]

theorem depths_furnished
    (m : Migration)
    (archetype : Archetype)
    (fs : FileSystem) :
    (m.furnished archetype fs).depths = fs.depths := by
  unfold furnished
  split
  · rfl
  · rfl

theorem furnished_of_none
    (hNone : fs.root.at? m.configPlace = none)
    (hText :
      (Biome.text archetype
        m.settings.version).encode = .ok content) :
    m.furnished archetype fs =
      fs.setFile m.configPlace content := by
  unfold furnished
  rw [hNone, hText]

/- Files to which a missing configuration may have been added. -/
def Extends
    (m : Migration)
    (base later : FileSystem) : Prop :=
  later = base ∨
    ∃ content,
      base.root.at? m.configPlace = none ∧
        later = base.setFile m.configPlace content

theorem extends_furnished
    (m : Migration)
    (archetype : Archetype)
    (fs : FileSystem) :
    m.Extends fs (m.furnished archetype fs) := by
  unfold furnished
  split
  · next content hNone _ => exact Or.inr ⟨content, hNone, rfl⟩
  · exact Or.inl rfl

/- A configuration that is missing may be made. -/
theorem Regular.room
    (hRegular : m.Regular l fs)
    (hNone : fs.root.at? m.configPlace = none) :
    fs.root.Room m.configPlace := by
  rcases hRegular.directory with ⟨entries, hDirectory⟩
  exact Or.inr
    ⟨hNone, m.root.parts, Biome.fileName, entries, rfl,
      hDirectory⟩

theorem Regular.of_extends
    (hRegular : m.Regular l fs)
    (hExtends : m.Extends fs fs') :
    m.Regular l fs' := by
  rcases hExtends with rfl | ⟨content, hNone, rfl⟩
  · exact hRegular
  · have hRoom := hRegular.room hNone
    rcases hRegular.directory with ⟨entries, hDirectory⟩
    rcases hRegular.manifest with ⟨bytes, hManifest⟩
    exact
      { anchor := hRegular.anchor
        proper := hRegular.proper.put hRoom content
        directory := (hRoom.grows_put content).directory hDirectory
        manifest :=
          ⟨bytes, hRoom.at?_put_of_ne _
            m.manifestPlace_ne_configPlace hManifest⟩
        config := Or.inr ⟨content, Node.at?_put_self _ _ _⟩
        manifest_unlogged := hRegular.manifest_unlogged
        config_unlogged := hRegular.config_unlogged }

theorem Regular.furnished
    (hRegular : m.Regular l fs)
    (archetype : Archetype) :
    m.Regular l (m.furnished archetype fs) :=
  hRegular.of_extends (m.extends_furnished archetype fs)

/- A configuration is no link. -/
theorem Varies.config
    (hVaries : m.Varies l base bytes w)
    (hRegular : m.Regular l base) :
    w.files.root.at? m.configPlace = none ∨
      w.files.HasFile m.configPlace := by
  rcases hRegular.config with hNone | hFile
  · exact Or.inl (hVaries.files.at?_eq_none hNone)
  · exact Or.inr (hVaries.files.hasFile hFile)

theorem Varies.not_config_link
    (hVaries : m.Varies l base bytes w)
    (hRegular : m.Regular l base)
    (target : String) :
    w.files.root.at? m.configPlace ≠ some (.link target) := by
  rcases hVaries.config hRegular with hNone | ⟨content, hFile⟩
  · rw [hNone]
    simp
  · rw [hFile]
    simp

theorem isEntryName_config : Path.IsEntryName Biome.fileName := by
  decide +kernel

/- A configuration that exists is in its file. -/
theorem Varies.hasFile_of_exists
    (hVaries : m.Varies l base bytes w)
    (hRegular : m.Regular l base)
    (hThere : w.files.exists? m.configPath = .ok true) :
    base.HasFile m.configPlace := by
  have hEntry :=
    FileSystem.exists?_entry (hVaries.real hRegular)
      isEntryName_config (hVaries.not_config_link hRegular)
  unfold configPath at hThere
  rw [hEntry] at hThere
  apply hVaries.files.symm.hasFile
  rcases hVaries.config hRegular with hNone | hFile
  · unfold configPlace at hNone
    rw [hNone] at hThere
    split at hThere
    · cases hThere
    · split at hThere
      · cases hThere
      · cases hThere
  · exact hFile

/- A configuration that can be written has its place. -/
theorem Varies.place_of_openForWriting
    (hVaries : m.Varies l base bytes w)
    (hRegular : m.Regular l base)
    {loc : Location}
    {old : Bytes}
    (hMissing : w.files.exists? m.configPath = .ok false)
    (hOpen :
      w.files.openForWriting m.configPath = .ok (loc, old)) :
    loc = m.configPlace ∧
      base.root.at? m.configPlace = none := by
  have hReal := hVaries.real hRegular
  have hNoLink := hVaries.not_config_link hRegular
  rcases FileSystem.locate_of_openForWriting hOpen with
    ⟨node?, hPlace⟩
  have hFound :=
    FileSystem.place_of_locate_entry hReal isEntryName_config
      hNoLink hPlace
  rcases FileSystem.Place.mk.inj hFound with ⟨rfl, _⟩
  refine ⟨rfl, ?_⟩
  rcases hRegular.config with hNone | hFile
  · exact hNone
  · rcases hVaries.files.hasFile hFile with ⟨content, hContent⟩
    have hLater :=
      (FileSystem.locate_of_grows (Node.Grows.refl _)
        (Or.inr ⟨rfl, rfl⟩)
        (Path.child_anchor hRegular.anchor_ne rfl) hPlace).2
    have hLeads :
        w.files.LeadsTo m.configPath m.configPlace content := by
      unfold FileSystem.LeadsTo
      rw [← hContent]
      exact hLater
    rw [FileSystem.exists?_of_leadsTo hLeads] at hMissing
    cases hMissing

/- The same configuration may be added to both. -/
theorem Varies.of_config
    (hVaries : m.Varies l base bytes w)
    (hRegular : m.Regular l base)
    (hNone : base.root.at? m.configPlace = none)
    (hLogger : w'.logger = w.logger)
    (hFiles :
      w'.files = w.files.setFile m.configPlace content) :
    m.Varies l (base.setFile m.configPlace content) bytes w' := by
  have hRoom := hRegular.room hNone
  have hRoom' := hVaries.files.room hRoom
  refine ⟨hLogger.trans hVaries.logger, ?_, ?_, ?_⟩
  · rw [hFiles]
    exact hVaries.proper.put hRoom' content
  · rw [hFiles, m.writes_congr l rfl]
    exact hVaries.files.setFile hRoom content
  · rw [hFiles]
    apply hVaries.leads.of_grows
      (manifestPath_anchor hRegular.anchor_ne)
      (hRoom'.grows_put content)
    exact hRoom'.at?_put_of_ne _ m.manifestPlace_ne_configPlace
      (hVaries.node hRegular)

/- The configuration is there when it has been written. -/
theorem varies_of_writeBiome
    (hVaries : m.Varies l base bytes w)
    (hRegular : m.Regular l base)
    {written : Bool}
    (hRuns :
      Runs
        (Biome.write m.root archetype
          m.settings.version)
        w written w') :
    m.Varies l (m.furnished archetype base) bytes w' ∧
      (m.furnished archetype base).HasFile m.configPlace := by
  unfold Biome.write at hRuns
  rcases runs_bind_iff.mp hRuns with ⟨isThere, v, hThere, hRest⟩
  rcases runs_ofFiles_iff.mp hThere with ⟨hExists, rfl⟩
  cases isThere with
  | true =>
      have hFile := hVaries.hasFile_of_exists hRegular hExists
      rw [furnished_of_hasFile hFile]
      rw [if_pos rfl] at hRest
      exact ⟨(keeps_log_pure (lasting_varies hRegular bytes).steady
        _ _ _ _).of_runs hRest hVaries, hFile⟩
  | false =>
      rw [if_neg (by simp)] at hRest
      rcases runs_bind_iff.mp hRest with ⟨_, u, hWrite, hLog⟩
      rcases runs_writeText hWrite with ⟨fs, hWritten, rfl⟩
      rcases FileSystem.setFile_of_writeText hWritten with
        ⟨loc, old, content, hOpen, hText, rfl⟩
      rcases hVaries.place_of_openForWriting hRegular hExists
        hOpen with ⟨rfl, hNone⟩
      have hFurnished := furnished_of_none hNone hText
      have hLater := hRegular.furnished archetype
      rw [hFurnished] at hLater ⊢
      exact ⟨(keeps_log_pure (lasting_varies hLater bytes).steady
          _ _ _ _).of_runs hLog
            (hVaries.of_config hRegular hNone rfl rfl),
        content, Node.at?_put_self _ _ _⟩

theorem ensures_writeBiome
    (hRegular : m.Regular l base)
    (archetype : Archetype)
    (Z : Manifest) :
    Ensures (m.Holds l base Z)
      (Biome.write m.root archetype
        m.settings.version)
      (fun _ w =>
        m.Holds l (m.furnished archetype base) Z w ∧
          (m.furnished archetype base).HasFile m.configPlace)
      E := by
  apply ensures_of_runs
    (Biome.keeps_write steady_true (fun _ _ => trivial) _ _ _)
  rintro w written w' ⟨bytes, hManifest, hVaries⟩ hRuns
  rcases varies_of_writeBiome hVaries hRegular hRuns with
    ⟨hLater, hFile⟩
  rw [← m.depths_furnished archetype base] at hManifest
  exact ⟨⟨bytes, hManifest, hLater⟩, hFile⟩

------------------------------------------------------------
-- The Scripts
------------------------------------------------------------

/-
  Whether a project uses TypeScript, as is told by some files
  that differ in what a migration may write to.
-/
def Typed
    (m : Migration)
    (l : Logger)
    (base : FileSystem)
    (Z : Manifest)
    (typescript : Bool) : Prop :=
  ∃ fs,
    Touches (m.Writes l base) base fs ∧
      Manifest.usesTypescript fs m.root Z = .ok typescript

/-
  A project has been arranged: it has a configuration of
  Biome, and its manifest has the scripts.
-/
structure Arranged
    (m : Migration)
    (l : Logger)
    (base : FileSystem)
    (s : Survey)
    (Z : Manifest)
    (typescript : Bool)
    (w : World) : Prop where
  configured :
    (m.furnished s.archetype base).HasFile m.configPlace
  typed :
    m.Typed l (m.furnished s.archetype base) Z typescript
  holds :
    m.HoldsText l (m.furnished s.archetype base)
      (Z.withScripts (Manifest.scripts s.manager typescript)) w

theorem Arranged.of_varies
    (hArranged : m.Arranged l base s Z typescript w)
    (hVaries :
      ∀ bytes,
        m.Varies l (m.furnished s.archetype base) bytes w →
          m.Varies l (m.furnished s.archetype base) bytes w') :
    m.Arranged l base s Z typescript w' :=
  ⟨hArranged.configured, hArranged.typed,
    hArranged.holds.of_varies hVaries⟩

theorem lasting_arranged
    (hRegular : m.Regular l base)
    (s : Survey)
    (Z : Manifest)
    (typescript : Bool) :
    Lasting (m.Arranged l base s Z typescript) where
  record r w hArranged :=
    hArranged.of_varies fun bytes =>
      (lasting_varies (hRegular.furnished s.archetype)
        bytes).record r w
  echo _ _ hArranged :=
    hArranged.of_varies fun _ hVaries => hVaries.of_same rfl rfl

theorem ensures_addScripts
    (hRegular : m.Regular l base)
    (s : Survey)
    (Z : Manifest) :
    Ensures
      (fun w =>
        m.Holds l (m.furnished s.archetype base) Z w ∧
          (m.furnished s.archetype base).HasFile m.configPlace)
      (m.addScripts s)
      (fun typescript => m.Arranged l base s Z typescript)
      E := by
  have hLater := hRegular.furnished s.archetype
  apply Ensures.given
  intro hConfigured
  unfold addScripts
  apply ensures_read_bind
  apply (ensures_ofFiles _).bind
  intro typescript
  have hTyped :
      Ensures
        (fun w =>
          m.Holds l (m.furnished s.archetype base) Z w ∧
            m.Typed l (m.furnished s.archetype base) Z
              typescript)
        (do
          Manifest.write m.root
            (Z.withScripts
              (Manifest.scripts s.manager typescript))
          say
            (Text.ofString
              ("Added scripts to package.json: " ++
                ", ".intercalate
                  ((Manifest.scripts s.manager typescript).map
                    Prod.fst)))
          return typescript)
        (fun typescript => m.Arranged l base s Z typescript)
        E := by
    apply Ensures.given
    intro hTyped
    apply (ensures_write hLater fun hSound =>
      hSound.withScripts (FileSystem.depths _).two_le_json
        _).bind
    intro _
    apply (ensures_log (lasting_holdsText hLater _) _ _ _).bind
    intro _
    exact ensures_pure fun _ hText =>
      ⟨hConfigured, hTyped, hText⟩
  apply hTyped.imp _ (fun _ _ hThere => hThere)
    (fun _ hFailed => hFailed)
  rintro w ⟨hHolds, hUses⟩
  rcases hHolds with ⟨bytes, hManifest, hVaries⟩
  exact ⟨⟨bytes, hManifest, hVaries⟩, w.files, hVaries.files,
    hUses⟩

------------------------------------------------------------
-- The Last Steps
------------------------------------------------------------

/- Scrubbing leaves the manifest as it is. -/
theorem varies_of_scrub
    (hRegular : m.Regular l base)
    (hCleaning :
      d.cleanComments = true →
        m.settings.cleanComments? ≠ some false)
    (hVaries : m.Varies l base bytes w)
    {result : Except Failure Scrub.Report}
    (hEnds : Ends (m.scrub d) w result w') :
    m.Varies l base bytes w' := by
  have hPlaces :
      d.cleanComments = true →
        ∀ fs : FileSystem, fs.root.Proper →
          w.files.root.Grows fs.root →
            ∀ loc, Scrub.Writable fs m.root loc →
              m.Scrubs loc := by
    intro hClean fs hProper hGrows loc hWritable
    exact ⟨hCleaning hClean,
      Scrub.below_of_writable hProper hRegular.anchor
        ((hVaries.real hRegular).of_grows hGrows) hWritable⟩
  have hProgress :=
    progress_of_scrub hVaries.proper hPlaces hEnds
  have hScrubbed := hProgress.files
  rw [hVaries.logger] at hScrubbed
  exact hVaries.of_scrubbed hRegular hProgress.logger
    hProgress.proper hScrubbed

theorem ensures_scrub
    (hRegular : m.Regular l base)
    (hCleaning :
      d.cleanComments = true →
        m.settings.cleanComments? ≠ some false)
    (s : Survey)
    (Z : Manifest)
    (typescript : Bool) :
    Ensures (m.Arranged l base s Z typescript) (m.scrub d)
      (fun _ => m.Arranged l base s Z typescript) E := by
  apply ensures_of_runs
    (keeps_scrub steady_true (fun _ _ => trivial) m d)
  intro w report w' hArranged hRuns
  exact hArranged.of_varies fun bytes hVaries =>
    varies_of_scrub (hRegular.furnished s.archetype) hCleaning
      hVaries hRuns

theorem ensures_fix
    (hRegular : m.Regular l base)
    (hTidy : m.Tidy shell)
    (s : Survey)
    (Z : Manifest)
    (typescript : Bool) :
    Ensures (m.Arranged l base s Z typescript) (m.fix shell s)
      (fun _ => m.Arranged l base s Z typescript)
      (m.Arranged l base s Z typescript) := by
  have hLasting := lasting_arranged hRegular s Z typescript
  unfold fix
  split
  · apply (ensures_log hLasting _ _ _).bind
    intro _
    have hCheck :=
      ensures_check_other hTidy hLasting
        (fun _ _ hArranged hLogger hFiles =>
          hArranged.of_varies fun _ hVaries =>
            hVaries.of_same hLogger hFiles)
        (Manager.removed?_lintFix s.manager)
    apply hCheck.bind
    intro _
    exact ensures_log hLasting _ _ _
  · exact ensures_pure fun _ hArranged => hArranged

/-
  From the last answer on, a project is settled and then
  arranged. If a command fails, it is as it was, or settled,
  or arranged already.
-/
theorem ensures_changes
    {i : Inquiry}
    (hRegular : m.Regular l base)
    (hTidy : m.Tidy shell)
    (hLegacy : i.survey.legacy = Legacy.packages X)
    (hBlanks :
      ∀ package ∈ Legacy.packages X, .scalar ' ' ∉ package)
    (hRemoval :
      i.decisions.removeLegacy = true ↔
        i.survey.legacy ≠ [] ∧
          m.settings.removeLegacy? = some true)
    (hCleaning :
      i.decisions.cleanComments = true →
        m.settings.cleanComments? ≠ some false) :
    Ensures (m.Holds l base X) (m.changes shell i)
      (fun _ w =>
        ∃ typescript,
          m.Arranged l base i.survey (m.settled X) typescript w)
      (fun w =>
        m.Holds l base X w ∨ m.Holds l base (m.settled X) w ∨
          ∃ typescript,
            m.Arranged l base i.survey (m.settled X) typescript
              w) := by
  unfold changes establish finish
  apply Ensures.bind
  · exact (ensures_settleLegacy hRegular hTidy hLegacy hBlanks
      hRemoval).imp (fun _ hHolds => hHolds)
        (fun _ _ hHolds => hHolds) (fun _ hFailed => Or.inl hFailed)
  intro _
  apply Ensures.bind
  · exact (ensures_install hRegular hTidy i.survey
      (m.settled X)).imp (fun _ hHolds => hHolds)
        (fun _ _ hHolds => hHolds)
        (fun _ hFailed => Or.inr (Or.inl hFailed))
  intro _
  apply (ensures_writeBiome hRegular i.survey.archetype
    (m.settled X)).bind
  intro written
  apply (ensures_addScripts hRegular i.survey
    (m.settled X)).bind
  intro typescript
  apply (ensures_scrub hRegular hCleaning i.survey (m.settled X)
    typescript).bind
  intro report
  apply Ensures.bind
  · exact (ensures_fix hRegular hTidy i.survey (m.settled X)
      typescript).imp (fun _ hArranged => hArranged)
        (fun _ _ hArranged => hArranged)
        (fun _ hFailed => Or.inr (Or.inr ⟨typescript, hFailed⟩))
  intro _
  have hLasting :=
    lasting_arranged hRegular i.survey (m.settled X) typescript
  apply (ensures_of_keeps (keeps_echo hLasting.steady _)).bind
  intro _
  exact ensures_pure fun _ hArranged => ⟨typescript, hArranged⟩

end Migration

end BiomeMigration
