import BiomeMigration.Proofs.Files.CodeFiles
import BiomeMigration.Proofs.Migration.Conduct
import BiomeMigration.Proofs.Migration.Scrubbing
import BiomeMigration.Proofs.Package.Writing

/-
  What a migration that fails leaves of the manifest. If the
  commands leave a manifest that can be read, it can be read
  afterwards, unless a lone surrogate in it has no encoding:
  then its file has been emptied.

  Main declarations:
    * `Migration.Sheltered`
    * `Migration.Careful`
    * `Migration.careful_run`
    * `Migration.kept_or_emptied`
-/

------------------------------------------------------------
-- Sheltered Manifests
------------------------------------------------------------

namespace BiomeMigration

open Session
open FileSystem (Spares)

namespace Migration

variable {m : Migration} {shell : Shell} {l : Logger}
variable {fs fs' : FileSystem} {w w' : World}

/-
  The manifest of a project can be read, and nothing but the
  steps that are meant to write it do so: its file is no open
  log file, and has not the name of a code file.
-/
structure Sheltered
    (m : Migration)
    (l : Logger)
    (fs : FileSystem) : Prop where
  proper : fs.root.Proper
  held :
    ∃ loc bytes manifest,
      fs.LeadsTo m.manifestPath loc bytes ∧
        Json.ofBytes fs.depths.json bytes =
          .ok (.object manifest) ∧
        ¬ l.LogsTo fs loc ∧
        ¬ Node.IsCodePlace loc

theorem Sheltered.readable
    (hSheltered : m.Sheltered l fs) :
    ∃ manifest, Manifest.read fs m.root = .ok manifest := by
  rcases hSheltered.held with
    ⟨loc, bytes, manifest, hLeads, hManifest, _⟩
  exact ⟨manifest, Manifest.read_eq_ok_iff.mpr
    ⟨loc, bytes, hLeads, hManifest⟩⟩

/- A sheltered manifest stays so if its file is spared. -/
theorem Sheltered.of_spares
    (hRoot : m.root.anchor ≠ .working)
    (hSheltered : m.Sheltered l fs)
    (hProper : fs'.root.Proper)
    (hSpares :
      ∀ loc content,
        fs.root.at? loc = some (.file content) →
          ¬ l.LogsTo fs loc → ¬ Node.IsCodePlace loc →
            Spares loc fs fs') :
    m.Sheltered l fs' := by
  have hAnchor := manifestPath_anchor hRoot
  rcases hSheltered.held with
    ⟨loc, bytes, manifest, hLeads, hManifest, hLogs, hCode⟩
  have hKept :=
    hSpares loc bytes (hLeads.node hAnchor) hLogs hCode
  rw [← hKept.depths] at hManifest
  refine ⟨hProper, loc, bytes, manifest,
    hLeads.of_spares hAnchor hKept, hManifest, ?_, hCode⟩
  rw [l.logsTo_congr hKept.opened]
  exact hLogs

theorem Sheltered.of_scrubbed
    (hRoot : m.root.anchor ≠ .working)
    (hSheltered : m.Sheltered l fs)
    (hProper : fs'.root.Proper)
    (hScrubbed : l.Scrubbed Node.IsCodePlace fs fs') :
    m.Sheltered l fs' := by
  apply hSheltered.of_spares hRoot hProper
  intro loc content hFile hLogs hCode
  refine ⟨hScrubbed.grows, hScrubbed.opened, hScrubbed.depths,
    ?_⟩
  rw [hFile]
  apply hScrubbed.file _ hFile
  rintro (hLog | hIsCode)
  · exact hLogs hLog
  · exact hCode hIsCode

/- The manifest of a world is sheltered from its logger. -/
structure Shelters
    (m : Migration)
    (l : Logger)
    (w : World) : Prop where
  logger : w.logger = l
  files : m.Sheltered l w.files

theorem lasting_shelters
    (hRoot : m.root.anchor ≠ .working)
    (l : Logger) :
    Lasting (m.Shelters l) where
  record r w hShelters := by
    rcases hShelters with ⟨rfl, hFiles⟩
    exact ⟨rfl, hFiles.of_scrubbed hRoot
      (w.logger.proper_writeFiles hFiles.proper r)
      (Logger.Logged.scrubbed
        (w.logger.touches_writeFiles r w.files))⟩
  echo _ _ hShelters := ⟨hShelters.logger, hShelters.files⟩

------------------------------------------------------------
-- Careful Operations
------------------------------------------------------------

variable {α β : Type}

/- A text without an encoding has left the manifest empty. -/
def Emptied
    (m : Migration)
    (result : Except Failure α)
    (fs : FileSystem) : Prop :=
  ∃ fault,
    result = .error (.encoding fault) ∧
      fs.read m.manifestPath = .ok []

/-
  In a world, an operation is careful with a manifest: if no
  command spoils it, it is left sheltered, or empty.
-/
def Careful
    (m : Migration)
    (l : Logger)
    (w : World)
    (x : Session α) : Prop :=
  ∀ result w', Ends x w result w' →
    ∃ es,
      w'.executions = w.executions ++ es ∧
        (m.Shelters l w →
          (∀ e ∈ es, m.Sheltered l e.after) →
            m.Shelters l w' ∨ m.Emptied result w'.files)

/- Operations may run no command and keep the manifest so. -/
theorem steady_shelters
    (hRoot : m.root.anchor ≠ .working)
    (l : Logger) :
    Steady fun w w' =>
      w'.executions = w.executions ∧
        (m.Shelters l w → m.Shelters l w') := by
  have hExecutions :
      Steady fun w w' => w'.executions = w.executions :=
    { refl := fun _ => rfl
      trans := fun hFirst hSecond => hSecond.trans hFirst
      record := World.executions_recorded
      echo := fun text w =>
        w.executions_append (by simp [Event.execution?]) }
  exact hExecutions.and (lasting_shelters hRoot l).steady

theorem careful_of_keeps
    {x : Session α}
    (hKeeps :
      Keeps
        (fun w w' =>
          w'.executions = w.executions ∧
            (m.Shelters l w → m.Shelters l w'))
        x)
    (w : World) :
    m.Careful l w x := by
  intro result w' hEnds
  rcases hKeeps w result w' hEnds with
    ⟨⟨hExecutions, hShelters⟩, _⟩
  exact ⟨[], by rw [hExecutions, List.append_nil],
    fun hHere _ => Or.inl (hShelters hHere)⟩

theorem Careful.bind
    {x : Session α}
    {f : α → Session β}
    (hFirst : m.Careful l w x)
    (hThen : ∀ a v, Runs x w a v → m.Careful l v (f a)) :
    m.Careful l w (x >>= f) := by
  intro result w' hEnds
  rcases ends_bind_iff.mp hEnds with
    ⟨failure, hFailed, rfl⟩ | ⟨a, v, hRan, hRest⟩
  · rcases hFirst _ w' hFailed with ⟨es, hExecutions, hCareful⟩
    refine ⟨es, hExecutions, fun hHere hCommands => ?_⟩
    rcases hCareful hHere hCommands with
      hShelters | ⟨fault, hResult, hEmpty⟩
    · exact Or.inl hShelters
    · rcases Except.error.inj hResult with rfl
      exact Or.inr ⟨fault, rfl, hEmpty⟩
  · rcases hFirst _ v hRan with ⟨es, hExecutions, hCareful⟩
    rcases hThen a v hRan result w' hRest with
      ⟨es', hExecutions', hCareful'⟩
    refine ⟨es ++ es', ?_, fun hHere hCommands => ?_⟩
    · rw [hExecutions', hExecutions, List.append_assoc]
    · have hMiddle : m.Shelters l v := by
        rcases hCareful hHere
            (fun e he => hCommands e (by simp [he])) with
          hShelters | ⟨_, hResult, _⟩
        · exact hShelters
        · cases hResult
      exact hCareful' hMiddle
        fun e he => hCommands e (by simp [he])

/- A command may leave whatever it wants. -/
theorem careful_check
    (shell : Shell)
    (text : Text) :
    m.Careful l w (check shell text) := by
  intro result w' hEnds
  rcases checked_of_ends hEnds with ⟨e, hChecked⟩
  refine ⟨[e], hChecked.ran.executions,
    fun hHere hCommands => Or.inl ?_⟩
  refine ⟨hChecked.ran.logger.trans hHere.logger, ?_⟩
  rw [hChecked.files]
  exact hCommands e (by simp)

theorem proper_of_writeText
    {p : Path}
    {t : Text}
    (hProper : fs.root.Proper)
    (hAnchor : p.anchor ≠ .working) :
    (fs.writeText p t).2.root.Proper := by
  rcases fs.writeText_files p t with hSame | ⟨content, hWrite⟩
  · rw [hSame]
    exact hProper
  · exact FileSystem.proper_of_write hProper hAnchor hWrite

/- A manifest that was written is sheltered where it was. -/
theorem Sheltered.of_writeText
    (hRoot : m.root.anchor ≠ .working)
    (hSheltered : m.Sheltered l fs)
    {manifest : Manifest}
    (hSound : manifest.IsSound fs.depths.json)
    (hWritten :
      fs.writeText m.manifestPath manifest.text = (.ok (), fs')) :
    m.Sheltered l fs' := by
  have hAnchor := manifestPath_anchor hRoot
  have hProper : fs'.root.Proper := by
    have hLater :=
      proper_of_writeText (t := manifest.text)
        hSheltered.proper hAnchor
    rw [hWritten] at hLater
    exact hLater
  rcases hSheltered.held with
    ⟨loc, bytes, _, hLeads, _, hLogs, hCode⟩
  rcases hLeads.rewrites hAnchor hWritten with
    ⟨bytes', hBytes, hRewrites⟩
  have hManifest :=
    Manifest.ofBytes_text hSound
      (Manifest.survives_of_isSound hSound) hBytes
  rw [← hRewrites.depths] at hManifest
  refine ⟨hProper, loc, bytes', manifest, hRewrites.leads,
    hManifest, ?_, hCode⟩
  rw [l.logsTo_congr hRewrites.opened]
  exact hLogs

/- A manifest that is written is sheltered, or left empty. -/
theorem careful_write
    (hRoot : m.root.anchor ≠ .working)
    {manifest : Manifest}
    (hSound : manifest.IsSound w.files.depths.json) :
    m.Careful l w (manifest.write m.root) := by
  intro result w' hEnds
  have hEnd := Manifest.writeEnd_of_ends hRoot hSound hEnds
  rcases ends_writeText_iff.mp hEnds with ⟨hResult, hWorld⟩
  have hExecutions : w'.executions = w.executions := by
    rw [hWorld]
    rfl
  have hLogger : w'.logger = w.logger := by
    rw [hWorld]
  have hFiles :
      (w.files.writeText m.manifestPath manifest.text).2 =
        w'.files := by
    rw [hWorld]
    rfl
  refine ⟨[], by rw [hExecutions, List.append_nil],
    fun hHere _ => ?_⟩
  have hLater := hLogger.trans hHere.logger
  generalize hAfter : w'.files = after at hEnd
  cases hEnd with
  | complete _ _ _ =>
      left
      refine ⟨hLater, ?_⟩
      exact hHere.files.of_writeText hRoot hSound
        (Prod.ext hResult.symm hFiles)
  | refused fault =>
      left
      refine ⟨hLater, ?_⟩
      rw [hAfter]
      exact hHere.files
  | emptied fault _ hEmpty =>
      right
      exact ⟨fault, rfl, hEmpty⟩

/- Careful operations on the manifest as it has become. -/
theorem careful_read_bind
    (hRoot : m.root.anchor ≠ .working)
    {next : Manifest → Session β}
    (hNext :
      ∀ manifest, manifest.IsSound w.files.depths.json →
        m.Careful l w (next manifest)) :
    m.Careful l w
      (do
        let fs ← Session.files
        let manifest ←
          Session.ofExcept (Manifest.read fs m.root)
        next manifest) := by
  have hSteady := m.steady_shelters hRoot l
  apply (careful_of_keeps (keeps_files hSteady) w).bind
  intro fs v hFiles
  rcases runs_files_iff.mp hFiles with ⟨rfl, rfl⟩
  apply (careful_of_keeps (keeps_ofExcept hSteady
    (Manifest.read_ne_command _ m.root)) _).bind
  intro manifest v hRuns
  rcases runs_ofExcept_iff.mp hRuns with ⟨hRead, rfl⟩
  exact hNext manifest (Manifest.isSound_of_read hRead)

------------------------------------------------------------
-- The Steps of a Migration
------------------------------------------------------------

theorem careful_log
    (hRoot : m.root.anchor ≠ .working)
    (level : Level)
    (name : String)
    (message : Text) :
    m.Careful l w (log level name message) :=
  careful_of_keeps (keeps_log (m.steady_shelters hRoot l) _ _ _) w

theorem careful_pure
    (hRoot : m.root.anchor ≠ .working)
    (a : α) :
    m.Careful l w (pure a) :=
  careful_of_keeps (keeps_pure (m.steady_shelters hRoot l) a) w

theorem careful_clearing
    (hRoot : m.root.anchor ≠ .working) :
    m.Careful l w m.clearing := by
  unfold clearing
  apply careful_read_bind hRoot
  intro manifest hSound
  split
  · apply (careful_write hRoot hSound.withoutLegacySettings).bind
    intro _ _ _
    exact careful_log hRoot _ _ _
  · exact careful_pure hRoot ()

theorem careful_settleLegacy
    (hRoot : m.root.anchor ≠ .working)
    (shell : Shell)
    (s : Survey)
    (d : Decisions) :
    m.Careful l w (m.settleLegacy shell s d) := by
  unfold settleLegacy
  split
  · unfold removeLegacy warn
    apply (careful_log hRoot _ _ _).bind
    intro _ _ _
    apply (careful_log hRoot _ _ _).bind
    intro _ _ _
    apply (careful_check shell _).bind
    intro _ _ _
    exact careful_clearing hRoot
  · split
    · exact careful_pure hRoot ()
    · exact careful_log hRoot _ _ _

theorem careful_install
    (hRoot : m.root.anchor ≠ .working)
    (shell : Shell)
    (s : Survey) :
    m.Careful l w (m.install shell s) := by
  unfold install say
  apply (careful_log hRoot _ _ _).bind
  intro _ _ _
  exact careful_check shell _

/- What is written where nothing was leaves the manifest. -/
theorem Sheltered.of_missing
    (hRoot : m.root.anchor ≠ .working)
    (hSheltered : m.Sheltered l fs)
    {p : Path}
    (hAnchor : p.anchor ≠ .working)
    (hMissing : fs.exists? p = .ok false)
    (t : Text) :
    m.Sheltered l (fs.writeText p t).2 := by
  have hProper :=
    proper_of_writeText (t := t) hSheltered.proper hAnchor
  rcases fs.writeText_files p t with hSame | ⟨content, hWrite⟩
  · rw [hSame]
    exact hSheltered
  · apply hSheltered.of_spares hRoot hProper
    intro loc old hFile _ _
    exact FileSystem.spares_of_write hAnchor hMissing hFile
      hWrite

theorem careful_writeText
    (hRoot : m.root.anchor ≠ .working)
    {p : Path}
    (hAnchor : p.anchor ≠ .working)
    (hMissing : w.files.exists? p = .ok false)
    (t : Text) :
    m.Careful l w (writeText p t) := by
  intro result w' hEnds
  rcases ends_writeText_iff.mp hEnds with ⟨_, rfl⟩
  refine ⟨[], (List.append_nil _).symm,
    fun hHere _ => Or.inl ⟨hHere.logger, ?_⟩⟩
  exact hHere.files.of_missing hRoot hAnchor hMissing t

theorem careful_writeBiome
    (hRoot : m.root.anchor ≠ .working)
    (archetype : Archetype)
    (version : Text) :
    m.Careful l w (Biome.write m.root archetype version) := by
  have hAnchor :
      (m.root.child Biome.fileName).anchor ≠ .working :=
    Path.child_anchor hRoot rfl
  have hSteady := m.steady_shelters hRoot l
  unfold Biome.write
  dsimp only
  apply (careful_of_keeps (keeps_ofFiles hSteady _) w).bind
  intro isThere v hThere
  rcases runs_ofFiles_iff.mp hThere with ⟨hFound, rfl⟩
  cases isThere with
  | true =>
      exact careful_of_keeps (keeps_log_pure hSteady _ _ _ _) _
  | false =>
      apply (careful_writeText hRoot hAnchor hFound _).bind
      intro _ v _
      exact careful_of_keeps (keeps_log_pure hSteady _ _ _ _) v

theorem careful_addScripts
    (hRoot : m.root.anchor ≠ .working)
    (s : Survey) :
    m.Careful l w (m.addScripts s) := by
  have hSteady := m.steady_shelters hRoot l
  unfold addScripts
  apply careful_read_bind hRoot
  intro manifest hSound
  apply (careful_of_keeps (keeps_ofFiles hSteady _) w).bind
  intro typescript v hTyped
  rcases runs_ofFiles_iff.mp hTyped with ⟨_, rfl⟩
  dsimp only
  have hRoom := v.files.depths.two_le_json
  apply (careful_write hRoot (hSound.withScripts hRoom _)).bind
  intro _ v _
  exact careful_of_keeps (keeps_log_pure hSteady _ _ _ _) v

theorem careful_scrub
    (hRoot : m.root.anchor ≠ .working)
    (d : Decisions) :
    m.Careful l w (m.scrub d) := by
  intro result w' hEnds
  have hRan :=
    (keeps_scrub World.steady_ran
      (fun fs w => ⟨rfl, rfl, (List.append_nil _).symm⟩)
      m d _ _ _ hEnds).1
  refine ⟨[], hRan.executions, fun hHere _ => Or.inl ?_⟩
  have hProgress : Scrub.Progress Node.IsCodePlace w w' :=
    progress_of_scrub hHere.files.proper
      (fun _ _ hProper _ _ hWritable =>
        Scrub.isCodePlace_of_writable hProper hWritable)
      hEnds
  refine ⟨hProgress.logger.trans hHere.logger, ?_⟩
  have hScrubbed := hProgress.files
  rw [hHere.logger] at hScrubbed
  exact hHere.files.of_scrubbed hRoot hProgress.proper hScrubbed

theorem careful_finish
    (hRoot : m.root.anchor ≠ .working)
    (shell : Shell)
    (i : Inquiry)
    (written typescript : Bool)
    (report : Scrub.Report) :
    m.Careful l w
      (m.finish shell i written typescript report) := by
  have hSteady := m.steady_shelters hRoot l
  have hFix : m.Careful l w (m.fix shell i.survey) := by
    unfold fix say
    split
    · apply (careful_log hRoot _ _ _).bind
      intro _ _ _
      apply (careful_check shell _).bind
      intro _ _ _
      exact careful_log hRoot _ _ _
    · exact careful_pure hRoot ()
  unfold finish
  apply hFix.bind
  intro _ _ _
  apply (careful_of_keeps (keeps_echo hSteady _) _).bind
  intro _ _ _
  exact careful_pure hRoot _

/- A migration is careful with the manifest of its project. -/
theorem careful_run
    (hRoot : m.root.anchor ≠ .working)
    (shell : Shell) :
    m.Careful l w (m.run shell) := by
  have hAsked :
      ∀ q w,
        (asked q w).executions = w.executions ∧
          (m.Shelters l w → m.Shelters l (asked q w)) :=
    fun q w =>
      ⟨(World.idle_asked q w).executions,
        fun hHere => ⟨hHere.logger, hHere.files⟩⟩
  rw [run_eq_inquiry_bind]
  apply (careful_of_keeps
    (keeps_inquiry (m.steady_shelters hRoot l) m hAsked) w).bind
  intro i _ _
  unfold changes
  apply (careful_settleLegacy hRoot shell _ _).bind
  intro _ _ _
  unfold establish
  apply (careful_install hRoot shell _).bind
  intro _ _ _
  apply (careful_writeBiome hRoot _ _).bind
  intro written _ _
  apply (careful_addScripts hRoot _).bind
  intro typescript _ _
  apply (careful_scrub hRoot _).bind
  intro report _ _
  exact careful_finish hRoot shell i written typescript report

/-
  A manifest is written completely, or its file is left as it
  was, or it is emptied for a lone surrogate. A migration
  whose commands leave a manifest that can be read does so
  too when it fails, unless it has been emptied.
-/
theorem kept_or_emptied
    (m : Migration)
    (hRoot : m.root.anchor ≠ .working) :
    (∀ (manifest : Manifest) (w w' : World)
        (result : Except Failure Unit),
      manifest.IsObtained w.files.depths.json →
        Ends (manifest.write m.root) w result w' →
          Manifest.WriteEnd m.root manifest w.files result
            w'.files) ∧
      ∀ (shell : Shell) (w w' : World)
          (failure : Failure) (es : List Execution),
        Ends (m.run shell) w (.error failure) w' →
          w'.executions = w.executions ++ es →
            m.Sheltered w.logger w.files →
              (∀ e ∈ es, m.Sheltered w.logger e.after) →
                (∃ manifest,
                  Manifest.read w'.files m.root =
                    .ok manifest) ∨
                  ∃ fault,
                    failure = .encoding fault ∧
                      w'.files.read m.manifestPath = .ok [] := by
  constructor
  · intro manifest w w' result hObtained hEnds
    exact Manifest.writeEnd_of_ends hRoot hObtained.isSound hEnds
  · intro shell w w' failure es hEnds hExecutions hStart
      hCommands
    rcases careful_run (l := w.logger) hRoot shell _ _ hEnds with
      ⟨es', hSame, hCareful⟩
    rw [hExecutions, List.append_cancel_left_eq] at hSame
    subst hSame
    rcases hCareful ⟨rfl, hStart⟩ hCommands with
      hShelters | ⟨fault, hFailure, hEmpty⟩
    · exact Or.inl hShelters.files.readable
    · exact Or.inr
        ⟨fault, Except.error.inj hFailure, hEmpty⟩

/- Files with a manifest and a configuration, and no others. -/
def isBare (fs : FileSystem) : Bool :=
  match fs.root with
  | .directory [(name, .file bytes), (other, .file _)] =>
      name == Manifest.fileName && other == Biome.fileName &&
        match Json.ofBytes fs.depths.json bytes with
        | .ok (.object _) => true
        | _ => false
  | _ => false

theorem proper_bare (bytes content : Bytes) :
    (Node.directory
      [(Manifest.fileName, .file bytes),
        (Biome.fileName, .file content)]).Proper := by
  have hUnique : [Manifest.fileName, Biome.fileName].Nodup := by
    decide
  have hFlat :
      (Node.flat
        [(Manifest.fileName, bytes),
          (Biome.fileName, content)]).Proper :=
    Node.proper_flat hUnique
  exact hFlat

theorem sheltered_of_isBare
    {fs : FileSystem}
    (hBare : isBare fs = true) :
    bareProject.Sheltered .initial fs := by
  rcases fs with ⟨root, working, home, homes, opened, depths⟩
  unfold isBare at hBare
  split at hBare
  · next name bytes other content hShape =>
      simp only [Bool.and_eq_true, beq_iff_eq] at hBare
      rcases hBare with ⟨⟨rfl, rfl⟩, hManifest⟩
      subst hShape
      refine ⟨proper_bare bytes content, ?_⟩
      split at hManifest
      · next manifest hRead =>
          refine ⟨[Manifest.fileName], bytes, manifest, rfl,
            hRead, ?_, ?_⟩
          · rintro ⟨hHandler, _⟩
            simp [Logger.initial] at hHandler
          · intro hPlace
            have hCode := Node.isCodePlace_singleton_iff.mp hPlace
            exact absurd hCode (by decide +kernel)
      · simp at hManifest
  · simp at hBare

/- The removal fails in the bare project, and spoils nothing. -/
theorem kept_bareProject :
    bareProject.root.anchor ≠ .working ∧
      (∃ (manifest : Manifest) (result : Except Failure Unit)
          (v : World),
        manifest.IsObtained
            (bareWorld .initial []).files.depths.json ∧
          Ends (manifest.write bareProject.root)
              (bareWorld .initial []) result v ∧
            Manifest.WriteEnd bareProject.root manifest
              (bareWorld .initial []).files result v.files) ∧
      ∃ failure w',
        Ends (bareProject.run failingShell)
            (bareWorld .initial []) (.error failure) w' ∧
          bareProject.Sheltered .initial
            (bareWorld .initial []).files ∧
          (∀ e ∈ w'.executions,
            bareProject.Sheltered .initial e.after) ∧
          w'.executions.length = 1 ∧
          ∃ manifest,
            Manifest.read w'.files bareProject.root =
              .ok manifest := by
  have hRoot : bareProject.root.anchor ≠ .working := by
    decide
  have hStart :
      bareProject.Sheltered .initial
        (bareWorld .initial []).files :=
    sheltered_of_isBare (by decide +kernel)
  refine ⟨hRoot, ?_, ?_⟩
  · rcases hStart.readable with ⟨manifest, hRead⟩
    rcases exists_ends (manifest.write bareProject.root)
        (bareWorld .initial []) with
      ⟨result, v, hEnds⟩
    have hObtained := Manifest.IsObtained.read le_rfl hRead
    exact ⟨manifest, result, v, hObtained, hEnds,
      (kept_or_emptied bareProject hRoot).1 _ _ _ _ hObtained
        hEnds⟩
  · have hFailed :
        isCommand
            ((bareProject.run failingShell).run.run
              (bareWorld .initial [])).1 = true := by
      decide +kernel
    have hAfter :
        ((bareProject.run failingShell).run.run
            (bareWorld .initial [])).2.executions.all
          (isBare ·.after) = true := by
      decide +kernel
    have hLength :
        ((bareProject.run failingShell).run.run
          (bareWorld .initial [])).2.executions.length = 1 := by
      decide +kernel
    rcases hEnds :
        (bareProject.run failingShell).run.run
          (bareWorld .initial []) with
      ⟨result, w'⟩
    rw [hEnds] at hFailed hAfter hLength
    rcases of_isCommand hFailed with ⟨r, rfl⟩
    have hCommands :
        ∀ e ∈ w'.executions,
          bareProject.Sheltered .initial e.after :=
      fun e he =>
        sheltered_of_isBare (List.all_eq_true.mp hAfter e he)
    refine ⟨.command r, w', hEnds, hStart, hCommands, hLength,
      ?_⟩
    rcases (kept_or_emptied bareProject hRoot).2 failingShell
        _ w' _ w'.executions hEnds rfl hStart hCommands with
      hReadable | ⟨fault, hFailure, _⟩
    · exact hReadable
    · cases hFailure

/- A shell in which each command succeeds and changes nothing. -/
def obligingShell : Shell :=
  fun command fs => (.ok ⟨command, some 0, none⟩, fs)

/- A world with a lone surrogate in the manifest. -/
def surrogateWorld : World where
  files := bareFiles "\x7b\"a\": \"\\ud800\"\x7d" []
  logger := .initial
  lines := []
  journal := []

/-
  The migration fails for want of an encoding. Its commands
  leave a manifest that can be read, and yet its file is
  empty in the end.
-/
def endsEmptied : Except Failure Outcome × World → Bool
  | (.error (.encoding _), w) =>
      w.executions.length == 1 &&
        w.executions.all (isBare ·.after) &&
        match w.files.read bareProject.manifestPath with
        | .ok [] => true
        | _ => false
  | _ => false

/-
  With a lone surrogate, the manifest is emptied by a
  migration that fails, though no command has failed and
  each has left a manifest that can be read.
-/
theorem not_kept_surrogateWorld :
    ∃ fault w',
      Ends (bareProject.run obligingShell) surrogateWorld
          (.error (.encoding fault)) w' ∧
        bareProject.Sheltered .initial surrogateWorld.files ∧
        w'.executions.length = 1 ∧
        (∀ e ∈ w'.executions,
          bareProject.Sheltered .initial e.after) ∧
        w'.files.read bareProject.manifestPath = .ok [] := by
  have hEvaluated :
      endsEmptied
        ((bareProject.run obligingShell).run.run
          surrogateWorld) = true := by
    decide +kernel
  unfold endsEmptied at hEvaluated
  split at hEvaluated
  · next fault w' hEnds =>
      simp only [Bool.and_eq_true, beq_iff_eq] at hEvaluated
      rcases hEvaluated with ⟨⟨hLength, hAfter⟩, hEmpty⟩
      refine ⟨fault, w', hEnds,
        sheltered_of_isBare (by decide +kernel), hLength,
        fun e he =>
          sheltered_of_isBare (List.all_eq_true.mp hAfter e he),
        ?_⟩
      split at hEmpty
      · next hRead => exact hRead
      · simp at hEmpty
  · simp at hEvaluated

end Migration

end BiomeMigration
