import BiomeMigration.Proofs.Migration.Inquiry
import BiomeMigration.Proofs.Migration.Steps
import BiomeMigration.Proofs.Session.Course

/-
  The commands of a migration: the removal of the old tools,
  the installation of Biome and the mending of the files, in
  this order and up to the first that fails, with what is
  done to the files between them.

  Main declarations:
    * `Migration.Clears`
    * `Migration.Configures`
    * `Migration.follows_of_changes`
-/

------------------------------------------------------------
-- Operations without Commands
------------------------------------------------------------

namespace BiomeMigration

open Session

variable {R : World → World → Prop}

namespace Session

theorem keeps_writeText
    (hFiles : ∀ fs w, R w { w with files := fs })
    (p : Path)
    (t : Text) :
    Keeps R (writeText p t) := by
  intro w result w' hEnds
  rcases ends_writeText_iff.mp hEnds with ⟨hResult, rfl⟩
  refine ⟨hFiles _ w, fun r hSame => ?_⟩
  rw [hResult, FileSystem.writeText_eq] at hSame
  split at hSame
  · simp at hSame
  · split at hSame
    · simp at hSame
    · simp at hSame

/- The content of a file is replaced before the rest is done. -/
theorem keeps_write_bind
    {β : Type}
    (hR : Steady R)
    {p : Path}
    {content : Bytes}
    (hWrite :
      ∀ w fs, w.files.write p content = .ok fs →
        R w { w with files := fs })
    {next : Unit → Session β}
    (hNext : ∀ u, Keeps R (next u)) :
    Keeps R
      (do
        let fs ← ofFiles (·.write p content)
        let u ← setFiles fs
        next u) := by
  intro w result w' hEnds
  rcases ends_bind_iff.mp hEnds with
    ⟨failure, hFailed, rfl⟩ | ⟨fs, v, hFiles, hRest⟩
  · rcases keeps_ofFiles hR _ w _ w' hFailed with
      ⟨hSame, hOther⟩
    exact ⟨hSame, fun r hCommand =>
      hOther r (congrArg Except.error
        (Except.error.inj hCommand))⟩
  · rcases ends_ofFiles_iff.mp hFiles with ⟨hWritten, rfl⟩
    have hOk : v.files.write p content = .ok fs :=
      mapError_eq_ok_iff.mp hWritten.symm
    have hLater := (ends_setFiles fs v).of_bind hRest
    rcases hNext () _ result w' hLater with ⟨hRelated, hOther⟩
    exact ⟨hR.trans (hWrite v fs hOk) hRelated, hOther⟩

/- An operation that is repeated for each entry of a list. -/
theorem keeps_mapM
    {α β : Type}
    (hR : Steady R)
    {f : α → Session β}
    {as : List α}
    (hEach : ∀ a ∈ as, Keeps R (f a)) :
    Keeps R (as.mapM f) := by
  induction as with
  | nil => exact keeps_pure hR []
  | cons a as ih =>
      rw [List.mapM_cons]
      apply (hEach a (by simp)).bind hR
      intro b
      apply (ih fun c hc => hEach c (by simp [hc])).bind hR
      intro bs
      exact keeps_pure hR _

end Session

theorem Scrub.keeps_file
    (hR : Steady R)
    {p : Path}
    (hWrite :
      ∀ w content fs, w.files.write p content = .ok fs →
        R w { w with files := fs })
    (rules : List Directive.Rule) :
    Keeps R (Scrub.file rules p) := by
  unfold Scrub.file
  apply (keeps_ofFiles hR _).bind hR
  intro bytes
  refine (keeps_ofExcept hR ?_).bind hR ?_
  · intro r hSame
    cases hStrip : Scrub.strip rules bytes <;>
      simp [hStrip, Except.mapError] at hSame
  · rintro ⟨cleaned, removed⟩
    dsimp only
    split
    · apply keeps_write_bind hR (fun w fs => hWrite w cleaned fs)
      intro _
      exact keeps_log_pure hR _ _ _ _
    · exact keeps_pure hR _

theorem Scrub.keeps_tree
    (hR : Steady R)
    (hFiles : ∀ fs w, R w { w with files := fs })
    (rules : List Directive.Rule)
    (root : Path) :
    Keeps R (Scrub.tree rules root) := by
  have hFile :
      ∀ p,
        Keeps R
          (do
            let removed ← Scrub.file rules p
            return (p, removed)) :=
    fun p =>
      (Scrub.keeps_file hR (fun w _ fs _ => hFiles fs w)
        rules).bind hR fun _ => keeps_pure hR _
  have hRest :
      ∀ real,
        Keeps R
          (do
            let found ← ofFiles (·.listing real)
            let files ← found.paths.mapM fun p => do
              return (p, ← Scrub.file rules p)
            Session.ofExcept
              ((found.close (⟨files⟩ : Scrub.Report)).mapError
                .path)) := by
    intro real
    apply (keeps_ofFiles hR _).bind hR
    intro found
    apply (keeps_mapM hR fun p _ => hFile p).bind hR
    intro files
    exact keeps_ofExcept hR (mapError_path_ne_command _)
  unfold Scrub.tree
  apply (keeps_ofFiles hR _).bind hR
  intro real
  apply (keeps_ofFiles hR _).bind hR
  intro isDirectory
  dsimp only
  split
  · exact (keeps_throw hR (by simp)).bind hR
      fun _ => hRest real
  · exact hRest real

theorem Biome.keeps_write
    (hR : Steady R)
    (hFiles : ∀ fs w, R w { w with files := fs })
    (root : Path)
    (archetype : Archetype)
    (version : Text) :
    Keeps R (Biome.write root archetype version) := by
  unfold Biome.write
  dsimp only
  apply (keeps_ofFiles hR _).bind hR
  intro isThere
  split
  · exact keeps_log_pure hR _ _ _ _
  · apply (keeps_writeText hFiles _ _).bind hR
    intro _
    exact keeps_log_pure hR _ _ _ _

namespace Migration

theorem keeps_addScripts
    (hR : Steady R)
    (hFiles : ∀ fs w, R w { w with files := fs })
    (m : Migration)
    (s : Survey) :
    Keeps R (m.addScripts s) := by
  unfold addScripts
  apply (keeps_files hR).bind hR
  intro fs
  apply (keeps_ofExcept hR
    (Manifest.read_ne_command fs m.root)).bind hR
  intro manifest
  apply (keeps_ofFiles hR _).bind hR
  intro typescript
  dsimp only
  apply (keeps_writeText hFiles _ _).bind hR
  intro _
  exact keeps_log_pure hR _ _ _ _

theorem keeps_scrub
    (hR : Steady R)
    (hFiles : ∀ fs w, R w { w with files := fs })
    (m : Migration)
    (d : Decisions) :
    Keeps R (m.scrub d) := by
  unfold scrub
  split
  · exact keeps_pure hR _
  · apply (keeps_say hR _).bind hR
    intro _
    apply (Scrub.keeps_tree hR hFiles _ _).bind hR
    intro report
    exact keeps_log_pure hR _ _ _ _

------------------------------------------------------------
-- What is Done between Commands
------------------------------------------------------------

variable {m : Migration} {shell : Shell} {l : Logger}
variable {i : Inquiry} {fs fs' fs'' : FileSystem}
variable {w w' : World} {e : Execution} {es : List Execution}

/-
  The settings of the old tools, if there are any, are taken
  out of the manifest, and nothing else is done but logging.
-/
def Clears
    (m : Migration)
    (l : Logger)
    (fs fs' : FileSystem) : Prop :=
  ∃ manifest,
    Manifest.read fs m.root = .ok manifest ∧
      (manifest.hasLegacySettings = false ∧ l.Logged fs fs' ∨
        manifest.hasLegacySettings = true ∧
          ∃ loc old new,
            fs.openForWriting m.manifestPath = .ok (loc, old) ∧
              manifest.withoutLegacySettings.text.encode =
                .ok new ∧
              l.Logged (fs.setFile loc new) fs')

theorem Clears.of_logged
    (hClears : m.Clears l fs fs')
    (hLogged : l.Logged fs' fs'') :
    m.Clears l fs fs'' := by
  rcases hClears with
    ⟨manifest, hRead, ⟨hNone, hSame⟩ |
      ⟨hSome, loc, old, new, hOpen, hNew, hSame⟩⟩
  · exact ⟨manifest, hRead,
      Or.inl ⟨hNone, hSame.trans hLogged⟩⟩
  · exact ⟨manifest, hRead,
      Or.inr ⟨hSome, loc, old, new, hOpen, hNew,
        hSame.trans hLogged⟩⟩

/-
  The configuration of Biome and the scripts are added, and
  the comments are removed if the user wants that. Each of
  these steps is complete.
-/
def Configures
    (m : Migration)
    (l : Logger)
    (i : Inquiry)
    (fs fs' : FileSystem) : Prop :=
  ∃ (v₁ v₂ v₃ v₄ : World) (written typescript : Bool)
      (report : Scrub.Report),
    v₁.files = fs ∧ v₁.logger = l ∧
      Runs
        (Biome.write m.root i.survey.archetype
          m.settings.version)
        v₁ written v₂ ∧
      Runs (m.addScripts i.survey) v₂ typescript v₃ ∧
      Runs (m.scrub i.decisions) v₃ report v₄ ∧
      l.Logged v₄.files fs'

theorem Configures.of_logged
    (hConfigures : m.Configures l i fs fs')
    (hLogged : l.Logged fs' fs'') :
    m.Configures l i fs fs'' := by
  rcases hConfigures with
    ⟨v₁, v₂, v₃, v₄, written, typescript, report, hFiles,
      hLogger, hWrite, hScripts, hScrub, hLast⟩
  exact ⟨v₁, v₂, v₃, v₄, written, typescript, report, hFiles,
    hLogger, hWrite, hScripts, hScrub, hLast.trans hLogged⟩

------------------------------------------------------------
-- The Plan
------------------------------------------------------------

/- Nothing but logging is done before the old tools go. -/
def Inquiry.removalSteps
    (i : Inquiry)
    (l : Logger) : List Session.Step :=
  if i.decisions.removeLegacy then
    [{ command :=
        i.survey.manager.uninstall
          i.survey.legacy
       Before := l.Logged }]
  else []

/- After the removal, the manifest is cleared. -/
def installStep
    (m : Migration)
    (l : Logger)
    (i : Inquiry) : Session.Step where
  command :=
    i.survey.manager.install
      (Biome.dependency m.settings.version)
  Before :=
    if i.decisions.removeLegacy then m.Clears l else l.Logged

/- The files are mended last, if the settings say so. -/
def fixSteps
    (m : Migration)
    (l : Logger)
    (i : Inquiry) : List Session.Step :=
  if m.settings.runFix then
    [{ command := i.survey.manager.lintFix
       Before := m.Configures l i }]
  else []

/- A text says what a migration has found and done. -/
def Inquiry.Summarizes
    (i : Inquiry)
    (m : Migration)
    (text : Text) : Prop :=
  ∃ written typescript report,
    text = (i.summary m written typescript report).text

------------------------------------------------------------
-- The Last Command
------------------------------------------------------------

/- Logging runs nothing, and touches log files only. -/
theorem quiet_of_log
    {level : Level}
    {name : String}
    {message : Text}
    {u : Unit}
    (hRuns : Runs (log level name message) w u w') :
    w.Ran [] w' ∧ w.logger.Logged w.files w'.files :=
  ⟨(keeps_log World.steady_ran level name message).of_runs
      hRuns,
    ((keeps_log World.steady_idle level name message).of_runs
      hRuns).files⟩

/- Logging does not fail. -/
theorem not_ends_log_error
    {level : Level}
    {name : String}
    {message : Text}
    {failure : Failure}
    (hEnds :
      Ends (log level name message) w (.error failure) w') :
    False := by
  have hResult := ((ends_log level name message w).unique hEnds).1
  simp at hResult

/- What is said, and then checked. -/
theorem checked_of_log
    {level : Level}
    {name : String}
    {message text : Text}
    {result : Except Failure Unit}
    (hEnds :
      Ends
        (do
          log level name message
          check shell text)
        w result w') :
    ∃ e, Checked shell text w result w' e := by
  rcases ends_bind_iff.mp hEnds with
    ⟨failure, hFailed, _⟩ | ⟨_, v, hLog, hCheck⟩
  · exact (not_ends_log_error hFailed).elim
  · rcases quiet_of_log hLog with ⟨hRan, hLogged⟩
    rcases checked_of_ends hCheck with ⟨e, hChecked⟩
    exact ⟨e, hChecked.of_quiet hRan hLogged⟩

/- The last step fails only by its command. -/
theorem ends_fix
    {s : Survey}
    {result : Except Failure Unit}
    (hFix : m.settings.runFix = true)
    (hEnds : Ends (m.fix shell s) w result w') :
    ∃ e,
      (∃ v,
        Checked shell s.manager.lintFix w (.ok ()) v e ∧
          result = .ok () ∧ v.Ran [] w') ∨
        ∃ failure,
          Checked shell s.manager.lintFix w (.error failure)
              w' e ∧
            result = .error failure := by
  unfold fix say at hEnds
  rw [hFix, if_pos rfl, ← bind_assoc] at hEnds
  rcases ends_bind_iff.mp hEnds with
    ⟨failure, hFailed, rfl⟩ | ⟨_, v, hRan, hSay⟩
  · rcases checked_of_log hFailed with ⟨e, hChecked⟩
    exact ⟨e, Or.inr ⟨failure, hChecked, rfl⟩⟩
  · rcases checked_of_log hRan with ⟨e, hChecked⟩
    cases result with
    | error failure => exact (not_ends_log_error hSay).elim
    | ok u =>
        exact ⟨e, Or.inl
          ⟨v, hChecked, rfl, (quiet_of_log hSay).1⟩⟩

/-
  Once the files are mended, a migration fails only if the
  text at its end has no UTF-8 form.
-/
theorem ends_finish
    {written typescript : Bool}
    {report : Scrub.Report}
    {result : Except Failure Outcome}
    (hEnds :
      Ends (m.finish shell i written typescript report)
        w result w') :
    (∃ failure,
      Ends (m.fix shell i.survey) w (.error failure) w' ∧
        result = .error failure) ∨
      ∃ v,
        Ends (m.fix shell i.survey) w (.ok ()) v ∧
          v.Ran [] w' ∧
          ((∃ outcome, result = .ok outcome) ∨
            ∃ text fault,
              i.Summarizes m text ∧
                text.encode = .error fault ∧
                result = .error (.encoding fault)) := by
  unfold finish at hEnds
  rcases ends_bind_iff.mp hEnds with
    ⟨failure, hFailed, rfl⟩ | ⟨_, v, hFix, hRest⟩
  · exact Or.inl ⟨failure, hFailed, rfl⟩
  · refine Or.inr ⟨v, hFix, ?_⟩
    dsimp only at hRest
    cases hEncode :
        (i.summary m written typescript report).text.encode with
    | ok bytes =>
        have hShown :=
          (ends_echo_of_encode hEncode v).of_bind hRest
        rcases ends_pure_iff.mp hShown with ⟨rfl, rfl⟩
        exact ⟨World.steady_ran.echo _ v, Or.inl ⟨_, rfl⟩⟩
    | error fault =>
        have hFailed := ends_echo_of_fault hEncode v
        rcases hRest.unique (hFailed.bind_error _) with
          ⟨rfl, rfl⟩
        exact ⟨World.Ran.refl _, Or.inr
          ⟨_, fault, ⟨written, typescript, report, rfl⟩,
            hEncode, rfl⟩⟩

theorem follows_of_finish
    {written typescript : Bool}
    {report : Scrub.Report}
    {result : Except Failure Outcome}
    (hBefore : m.Configures w.logger i fs w.files)
    (hEnds :
      Ends (m.finish shell i written typescript report)
        w result w') :
    ∃ es,
      Follows shell [] (m.fixSteps w.logger i) (i.Summarizes m)
        fs w result w' es := by
  unfold fixSteps
  cases hFix : m.settings.runFix with
  | false =>
      have hSkip : m.fix shell i.survey = pure () := by
        unfold fix
        rw [hFix]
        rfl
      rcases ends_finish hEnds with
        ⟨failure, hFailed, _⟩ | ⟨v, hFixed, hRan, hShown⟩
      · rw [hSkip] at hFailed
        rcases ends_pure_iff.mp hFailed with ⟨hResult, _⟩
        cases hResult
      · rw [hSkip] at hFixed
        rcases ends_pure_iff.mp hFixed with ⟨_, rfl⟩
        rcases hShown with
          ⟨outcome, rfl⟩ | ⟨text, fault, hShows, hEncode, rfl⟩
        · exact ⟨[], Follows.of_ok hRan⟩
        · exact ⟨[], Follows.of_unprinted hRan
            (Unprinted.of_encode hShows hEncode)⟩
  | true =>
      rw [if_pos rfl]
      rcases ends_finish hEnds with
        ⟨failure, hFailed, rfl⟩ | ⟨v, hFixed, hRan, hShown⟩
      · rcases ends_fix hFix hFailed with
          ⟨e, ⟨_, _, hResult, _⟩ | ⟨_, hChecked, hResult⟩⟩
        · cases hResult
        · rcases Except.error.inj hResult with rfl
          exact ⟨[e],
            Follows.of_failed rfl hChecked
              (hBefore.of_logged hChecked.before)⟩
      · rcases ends_fix hFix hFixed with
          ⟨e, ⟨u, hChecked, _, hRan'⟩ | ⟨_, _, hResult⟩⟩
        · have hReady :
              (⟨i.survey.manager.lintFix,
                m.Configures w.logger i⟩ : Session.Step).Before
                  fs e.before :=
            hBefore.of_logged hChecked.before
          rcases hShown with
            ⟨outcome, rfl⟩ | ⟨text, fault, hShows, hEncode, rfl⟩
          · exact ⟨[e], Follows.steps_last
              ((Follows.of_ok hRan).cons hChecked hReady hRan')⟩
          · have hLast :
                Unprinted shell [] (i.Summarizes m)
                  (.error (.encoding fault) :
                    Except Failure Outcome) [] :=
              Unprinted.of_encode hShows hEncode
            exact ⟨[e], Follows.unprinted_last
              ((Follows.of_unprinted hRan hLast).cons hChecked
                hReady hRan')
              (hLast.cons hChecked.succeeds)⟩
        · cases hResult

------------------------------------------------------------
-- The Installation
------------------------------------------------------------

theorem before_installStep_of_logged
    (hBefore : (m.installStep l i).Before fs fs')
    (hLogged : l.Logged fs' fs'') :
    (m.installStep l i).Before fs fs'' := by
  unfold installStep at hBefore ⊢
  cases hRemove : i.decisions.removeLegacy with
  | false =>
      simp only [hRemove] at hBefore ⊢
      exact Logger.Logged.trans hBefore hLogged
  | true =>
      simp only [hRemove] at hBefore ⊢
      exact Clears.of_logged hBefore hLogged

/- An operation that runs no command, and does not succeed. -/
theorem follows_of_keeps
    {α β : Type}
    {steps last : List Session.Step}
    {Shows : Text → Prop}
    {x : Session α}
    {failure : Failure}
    (hKeeps : Keeps (fun w w' => w.Ran [] w') x)
    (hEnds : Ends x w (.error failure) w') :
    Follows shell steps last Shows fs w
      (.error failure : Except Failure β) w' [] := by
  rcases hKeeps w _ w' hEnds with ⟨hRan, hOther⟩
  exact Follows.of_error hRan
    fun r hSame => hOther r (congrArg Except.error hSame)

/-
  Between the installation and the mending, no command is
  run; a failure ends the migration before the mending.
-/
theorem follows_of_configuration
    {result : Except Failure Outcome}
    (hEnds :
      Ends
        (do
          let written ←
            Biome.write m.root i.survey.archetype
              m.settings.version
          let typescript ← m.addScripts i.survey
          let report ← m.scrub i.decisions
          m.finish shell i written typescript report)
        w result w') :
    ∃ es,
      Follows shell [] (m.fixSteps w.logger i) (i.Summarizes m)
        w.files w result w' es := by
  have hFiles :
      ∀ fs (w : World), w.Ran [] { w with files := fs } :=
    fun fs w => ⟨rfl, rfl, (List.append_nil _).symm⟩
  have hSteady := World.steady_ran
  rcases ends_bind_iff.mp hEnds with
    ⟨failure, hFailed, rfl⟩ | ⟨written, v₁, hWrite, hRest₁⟩
  · exact ⟨[], follows_of_keeps
      (Biome.keeps_write hSteady hFiles _ _ _) hFailed⟩
  have hRan₁ :=
    (Biome.keeps_write hSteady hFiles _ _ _).of_runs hWrite
  rcases ends_bind_iff.mp hRest₁ with
    ⟨failure, hFailed, rfl⟩ | ⟨typescript, v₂, hScripts, hRest₂⟩
  · exact ⟨[], (follows_of_keeps
      (keeps_addScripts hSteady hFiles _ _)
      hFailed).of_quiet hRan₁⟩
  have hRan₂ :=
    hRan₁.trans
      ((keeps_addScripts hSteady hFiles _ _).of_runs hScripts)
  rcases ends_bind_iff.mp hRest₂ with
    ⟨failure, hFailed, rfl⟩ | ⟨report, v₃, hScrub, hFinish⟩
  · exact ⟨[], (follows_of_keeps
      (keeps_scrub hSteady hFiles _ _) hFailed).of_quiet hRan₂⟩
  have hRan₃ :=
    hRan₂.trans
      ((keeps_scrub hSteady hFiles _ _).of_runs hScrub)
  have hBefore : m.Configures v₃.logger i w.files v₃.files :=
    ⟨w, v₁, v₂, v₃, written, typescript, report, rfl,
      hRan₃.logger.symm, hWrite, hScripts, hScrub,
      Logger.Logged.refl _ _⟩
  rcases follows_of_finish hBefore hFinish with ⟨es, hFollows⟩
  rw [hRan₃.logger] at hFollows
  exact ⟨es, hFollows.of_quiet hRan₃⟩

theorem follows_of_establish
    {result : Except Failure Outcome}
    (hBefore : (m.installStep w.logger i).Before fs w.files)
    (hEnds : Ends (m.establish shell i) w result w') :
    ∃ es,
      Follows shell [m.installStep w.logger i]
        (m.fixSteps w.logger i) (i.Summarizes m) fs w result w'
        es := by
  unfold establish at hEnds
  rcases ends_bind_iff.mp hEnds with
    ⟨failure, hFailed, rfl⟩ | ⟨_, v, hInstall, hRest⟩
  · rcases checked_of_log hFailed with ⟨e, hChecked⟩
    exact ⟨[e],
      Follows.of_failed rfl hChecked
        (before_installStep_of_logged hBefore
          hChecked.before)⟩
  · rcases checked_of_log hInstall with ⟨e, hChecked⟩
    rcases follows_of_configuration hRest with ⟨es, hFollows⟩
    rw [hChecked.files, hChecked.ran.logger] at hFollows
    exact ⟨e :: es,
      Follows.cons hChecked
        (before_installStep_of_logged hBefore hChecked.before)
        (World.Ran.refl v) hFollows⟩

------------------------------------------------------------
-- The Removal
------------------------------------------------------------

/- The manifest is cleared after the removal. -/
def clearing (m : Migration) : Session Unit := do
  let manifest ←
    Session.ofExcept (Manifest.read (← Session.files) m.root)
  if manifest.hasLegacySettings then
    Manifest.write m.root manifest.withoutLegacySettings
    say ("Removed eslintConfig/prettier configuration"
      ++ " from package.json.")

theorem keeps_clearing
    (hR : Steady R)
    (hFiles : ∀ fs w, R w { w with files := fs })
    (m : Migration) :
    Keeps R m.clearing := by
  unfold clearing
  apply (keeps_files hR).bind hR
  intro fs
  apply (keeps_ofExcept hR
    (Manifest.read_ne_command fs m.root)).bind hR
  intro manifest
  split
  · apply (keeps_writeText hFiles _ _).bind hR
    intro _
    exact keeps_say hR _
  · exact keeps_pure hR ()

theorem clears_of_clearing
    {u : Unit}
    (hRuns : Runs m.clearing w u w') :
    m.Clears w.logger w.files w'.files := by
  unfold clearing at hRuns
  rcases runs_bind_iff.mp hRuns with ⟨fs, w₁, hFiles, hRuns₁⟩
  rcases runs_files_iff.mp hFiles with ⟨rfl, rfl⟩
  rcases runs_bind_iff.mp hRuns₁ with
    ⟨manifest, w₂, hExcept, hRuns₂⟩
  rcases runs_ofExcept_iff.mp hExcept with ⟨hRead, rfl⟩
  refine ⟨manifest, hRead, ?_⟩
  cases hSettings : manifest.hasLegacySettings with
  | false =>
      rw [hSettings] at hRuns₂
      rcases runs_pure_iff.mp hRuns₂ with ⟨_, rfl⟩
      exact Or.inl ⟨rfl, Logger.Logged.refl _ _⟩
  | true =>
      rw [hSettings, if_pos rfl] at hRuns₂
      rcases runs_bind_iff.mp hRuns₂ with ⟨_, v, hWrite, hSay⟩
      rcases runs_writeText hWrite with ⟨fs, hWritten, rfl⟩
      rcases FileSystem.setFile_of_writeText hWritten with
        ⟨loc, old, new, hOpen, hNew, rfl⟩
      exact Or.inr
        ⟨rfl, loc, old, new, hOpen, hNew,
          (quiet_of_log hSay).2⟩

/- The removal is one command, and then the clearing. -/
theorem ends_removeLegacy
    {s : Survey}
    {result : Except Failure Unit}
    (hEnds : Ends (m.removeLegacy shell s) w result w') :
    ∃ e,
      (∃ failure,
        Checked shell
            (s.manager.uninstall s.legacy)
            w (.error failure) w' e ∧
          result = .error failure) ∨
        ∃ v,
          Checked shell
              (s.manager.uninstall s.legacy)
              w (.ok ()) v e ∧
            v.Ran [] w' ∧
            (∀ r, result ≠ .error (.command r)) ∧
            (result = .ok () →
              m.Clears w.logger e.after w'.files) := by
  have hFiles :
      ∀ fs (w : World), w.Ran [] { w with files := fs } :=
    fun fs w => ⟨rfl, rfl, (List.append_nil _).symm⟩
  unfold removeLegacy warn at hEnds
  rcases ends_bind_iff.mp hEnds with
    ⟨failure, hFailed, _⟩ | ⟨_, w₁, hWarn, hRest₁⟩
  · exact (not_ends_log_error hFailed).elim
  rcases quiet_of_log hWarn with ⟨hRan, hLogged⟩
  rw [← bind_assoc] at hRest₁
  rcases ends_bind_iff.mp hRest₁ with
    ⟨failure, hFailed, rfl⟩ | ⟨_, v, hCheck, hRest₂⟩
  · rcases checked_of_log hFailed with ⟨e, hChecked⟩
    exact ⟨e, Or.inl
      ⟨failure, hChecked.of_quiet hRan hLogged, rfl⟩⟩
  · rcases checked_of_log hCheck with ⟨e, hLater⟩
    have hChecked := hLater.of_quiet hRan hLogged
    have hClearing : Ends m.clearing v result w' := hRest₂
    rcases keeps_clearing World.steady_ran hFiles m _ _ _
        hClearing with
      ⟨hQuiet, hOther⟩
    refine ⟨e, Or.inr ⟨v, hChecked, hQuiet, hOther, ?_⟩⟩
    rintro rfl
    have hClears := clears_of_clearing hClearing
    rw [hChecked.ran.logger, hChecked.files] at hClears
    exact hClears

theorem keeps_settleLegacy
    {R : World → World → Prop}
    (hR : Steady R)
    {s : Survey}
    {d : Decisions}
    (hKeep : d.removeLegacy = false) :
    Keeps R (m.settleLegacy shell s d) := by
  unfold settleLegacy
  rw [hKeep, if_neg (by simp)]
  split
  · exact keeps_pure hR ()
  · exact keeps_log hR _ _ _

/- Without a removal, the installation comes first. -/
theorem follows_of_changes_kept
    {result : Except Failure Outcome}
    (hRemove : i.decisions.removeLegacy = false)
    (hEnds : Ends (m.changes shell i) w result w') :
    ∃ es,
      Follows shell [m.installStep w.logger i]
        (m.fixSteps w.logger i) (i.Summarizes m) w.files w result
        w' es := by
  unfold changes at hEnds
  rcases ends_bind_iff.mp hEnds with
    ⟨failure, hFailed, rfl⟩ | ⟨_, v, hSettle, hRest⟩
  · exact ⟨[], follows_of_keeps
      (keeps_settleLegacy World.steady_ran hRemove) hFailed⟩
  · have hRan :=
      (keeps_settleLegacy World.steady_ran
        hRemove).of_runs hSettle
    have hLogged : w.logger.Logged w.files v.files :=
      ((keeps_settleLegacy World.steady_idle
        hRemove).of_runs hSettle).files
    have hBefore :
        (m.installStep v.logger i).Before w.files v.files := by
      simpa [installStep, hRemove, hRan.logger] using hLogged
    rcases follows_of_establish hBefore hRest with
      ⟨es, hFollows⟩
    rw [hRan.logger] at hFollows
    exact ⟨es, hFollows.of_quiet hRan⟩

/- With a removal, the installation comes after it. -/
theorem follows_of_changes_removed
    {result : Except Failure Outcome}
    (hRemove : i.decisions.removeLegacy = true)
    (hEnds : Ends (m.changes shell i) w result w') :
    ∃ es,
      Follows shell
        [⟨i.survey.manager.uninstall
            i.survey.legacy,
          w.logger.Logged⟩,
          m.installStep w.logger i]
        (m.fixSteps w.logger i) (i.Summarizes m) w.files w result
        w' es := by
  have hSettle :
      m.settleLegacy shell i.survey i.decisions =
        m.removeLegacy shell i.survey := by
    unfold settleLegacy
    rw [hRemove, if_pos rfl]
  unfold changes at hEnds
  rw [hSettle] at hEnds
  rcases ends_bind_iff.mp hEnds with
    ⟨failure, hFailed, rfl⟩ | ⟨_, v, hRemoved, hRest⟩
  · rcases ends_removeLegacy hFailed with
      ⟨e, ⟨_, hChecked, hSame⟩ | ⟨u, hChecked, hRan, hOther, _⟩⟩
    · rcases Except.error.inj hSame with rfl
      exact ⟨[e],
        Follows.of_failed rfl hChecked hChecked.before⟩
    · exact ⟨[e], Follows.cons hChecked hChecked.before hRan
        (Follows.of_error (World.Ran.refl _)
          fun r hSame =>
            hOther r (congrArg Except.error hSame))⟩
  · rcases ends_removeLegacy hRemoved with
      ⟨e, ⟨_, _, hSame⟩ | ⟨u, hChecked, hRan, _, hClears⟩⟩
    · cases hSame
    · have hLogger : v.logger = w.logger :=
        hRan.logger.trans hChecked.ran.logger
      have hBefore :
          (m.installStep v.logger i).Before e.after
            v.files := by
        simpa [installStep, hRemove, hLogger] using hClears rfl
      rcases follows_of_establish hBefore hRest with
        ⟨es, hFollows⟩
      rw [hLogger] at hFollows
      exact ⟨e :: es,
        Follows.cons hChecked hChecked.before hRan hFollows⟩

theorem follows_of_changes
    {result : Except Failure Outcome}
    (hEnds : Ends (m.changes shell i) w result w') :
    ∃ es,
      Follows shell
        (i.removalSteps w.logger ++ [m.installStep w.logger i])
        (m.fixSteps w.logger i) (i.Summarizes m) w.files w result
        w' es := by
  cases hRemove : i.decisions.removeLegacy with
  | false =>
      have hSteps : i.removalSteps w.logger = [] := by
        simp [Inquiry.removalSteps, hRemove]
      rw [hSteps, List.nil_append]
      exact follows_of_changes_kept hRemove hEnds
  | true =>
      have hSteps :
          i.removalSteps w.logger =
            [⟨i.survey.manager.uninstall
                i.survey.legacy,
              w.logger.Logged⟩] := by
        simp [Inquiry.removalSteps, hRemove]
      rw [hSteps, List.singleton_append]
      exact follows_of_changes_removed hRemove hEnds

end Migration

end BiomeMigration
