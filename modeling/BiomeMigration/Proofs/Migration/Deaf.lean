import BiomeMigration.Proofs.Migration.Inquiry
import BiomeMigration.Proofs.Session.Deaf

/-
  The parts of a migration that do not listen to the user:
  all but the two questions.

  Main declarations:
    * `Probe.deaf_detect`
    * `Migration.deaf_survey`
    * `Migration.deaf_present`
    * `Migration.deaf_changes`
-/

------------------------------------------------------------
-- Looking at the Project
------------------------------------------------------------

namespace BiomeMigration

open Session

namespace Probe

theorem deaf_declared (p : Path) : Deaf (declared p) := by
  unfold declared
  apply deaf_files.bind
  intro fs
  split
  · exact deaf_pure _
  · split
    · exact deaf_throw rfl
    · exact deaf_log_pure rfl _ _ none

theorem deaf_declaredAt (p : Path) : Deaf (declaredAt p) := by
  unfold declaredAt
  apply (deaf_declared p).bind
  intro manager?
  split
  · exact deaf_log_pure rfl _ _ _
  · exact deaf_pure none

theorem deaf_local? (root : Path) : Deaf (local? root) := by
  unfold local?
  apply (deaf_ofFiles _).bind
  intro isThere
  split
  · exact deaf_declaredAt _
  · exact deaf_pure none

theorem deaf_above? (root : Path) : Deaf (above? root) := by
  unfold above?
  split
  · exact deaf_pure none
  · apply (deaf_ofFiles _).bind
    intro found?
    split
    · exact deaf_declaredAt _
    · exact deaf_pure none

theorem deaf_locked?
    (root : Path)
    (candidates : List (Manager × String)) :
    Deaf (locked? root candidates) := by
  induction candidates with
  | nil => exact deaf_pure none
  | cons candidate candidates ih =>
      rcases candidate with ⟨manager, name⟩
      unfold locked?
      apply (deaf_ofFiles _).bind
      intro found?
      split
      · exact deaf_log_pure rfl _ _ _
      · exact ih

theorem deaf_detect (root : Path) : Deaf (detect root) := by
  unfold detect
  apply (deaf_ofFiles _).bind
  intro real
  apply (deaf_local? real).bind
  intro declared?
  split
  · exact deaf_pure _
  · apply (deaf_above? real).bind
    intro above?
    split
    · exact deaf_pure _
    · apply (deaf_locked? real lockfiles).bind
      intro locked?
      exact deaf_pure _

end Probe

/- A manifest that cannot be read is a failure of the work. -/
theorem Manifest.isOfWork_of_read
    {fs : FileSystem}
    {root : Path}
    {failure : Failure}
    (hRead : Manifest.read fs root = .error failure) :
    failure.isOfWork = true := by
  unfold Manifest.read at hRead
  dsimp only at hRead
  cases hThere : fs.exists? (root.child fileName) with
  | error fault =>
      rw [hThere] at hRead
      rw [← Except.error.inj hRead]
      rfl
  | ok isThere =>
      rw [hThere] at hRead
      cases isThere with
      | false =>
          rw [← Except.error.inj hRead]
          rfl
      | true =>
          cases hJson : fs.readJson (root.child fileName) with
          | error cause =>
              have hFailure : failureOf cause = failure := by
                rw [hJson] at hRead
                exact Except.error.inj hRead
              rw [← hFailure]
              unfold failureOf
              split
              · rfl
              · rfl
          | ok v =>
              rw [hJson] at hRead
              cases v with
              | object members => cases hRead
              | _ =>
                  rw [← Except.error.inj hRead]
                  rfl

namespace Migration

theorem deaf_say (message : Text) : Deaf (say message) :=
  deaf_log rfl _ _

theorem deaf_warn (message : Text) : Deaf (warn message) :=
  deaf_log rfl _ _

theorem deaf_survey (m : Migration) : Deaf m.survey := by
  unfold survey
  apply deaf_files.bind
  intro fs
  apply (deaf_ofExcept fun _ => Manifest.isOfWork_of_read).bind
  intro manifest
  apply (Probe.deaf_detect m.root).bind
  intro manager
  exact deaf_pure _

theorem deaf_present (s : Survey) : Deaf (present s) := by
  unfold present
  apply (deaf_echo _).bind
  intro _
  apply (deaf_say _).bind
  intro _
  apply (deaf_say _).bind
  intro _
  dsimp only
  split
  · apply (deaf_say _).bind
    intro _
    exact deaf_say _
  · exact deaf_say _

end Migration

------------------------------------------------------------
-- Changing the Project
------------------------------------------------------------

theorem Scrub.deaf_file
    (rules : List Directive.Rule)
    (p : Path) :
    Deaf (Scrub.file rules p) := by
  unfold Scrub.file
  apply (deaf_ofFiles _).bind
  intro bytes
  refine Deaf.bind (deaf_ofExcept ?_) ?_
  · intro failure hSame
    cases hStrip : Scrub.strip rules bytes with
    | ok stripped =>
        rw [hStrip] at hSame
        cases hSame
    | error fault =>
        rw [hStrip] at hSame
        rw [← Except.error.inj hSame]
        rfl
  · rintro ⟨cleaned, removed⟩
    dsimp only
    split
    · apply (deaf_ofFiles _).bind
      intro fs
      apply (deaf_setFiles fs).bind
      intro _
      exact deaf_log_pure rfl _ _ _
    · exact deaf_pure _

theorem Scrub.deaf_tree
    (rules : List Directive.Rule)
    (root : Path) :
    Deaf (Scrub.tree rules root) := by
  have hRest :
      ∀ real,
        Deaf
          (do
            let found ← ofFiles (·.listing real)
            let files ← found.paths.mapM fun p => do
              return (p, ← Scrub.file rules p)
            Session.ofExcept
              ((found.close (⟨files⟩ : Scrub.Report)).mapError
                .path)) := by
    intro real
    apply (deaf_ofFiles _).bind
    intro found
    refine Deaf.bind (deaf_mapM (fun p => ?_) found.paths) ?_
    · exact (Scrub.deaf_file rules p).bind fun _ => deaf_pure _
    · intro files
      exact deaf_ofExcept fun _ => isOfWork_of_mapError_path
  unfold Scrub.tree
  apply (deaf_ofFiles _).bind
  intro real
  apply (deaf_ofFiles _).bind
  intro isDirectory
  dsimp only
  split
  · exact (deaf_throw rfl).bind fun _ => hRest real
  · exact hRest real

theorem Biome.deaf_write
    (root : Path)
    (archetype : Archetype)
    (version : Text) :
    Deaf (Biome.write root archetype version) := by
  unfold Biome.write
  dsimp only
  apply (deaf_ofFiles _).bind
  intro isThere
  split
  · exact deaf_log_pure rfl _ _ _
  · apply (deaf_writeText _ _).bind
    intro _
    exact deaf_log_pure rfl _ _ _

namespace Migration

theorem deaf_removeLegacy
    (m : Migration)
    (shell : Shell)
    (s : Survey) :
    Deaf (m.removeLegacy shell s) := by
  unfold removeLegacy
  apply (deaf_warn _).bind
  intro _
  apply (deaf_warn _).bind
  intro _
  apply (deaf_check shell _).bind
  intro _
  apply deaf_files.bind
  intro fs
  apply (deaf_ofExcept fun _ => Manifest.isOfWork_of_read).bind
  intro manifest
  split
  · apply (deaf_writeText _ _).bind
    intro _
    exact deaf_say _
  · exact deaf_pure ()

theorem deaf_settleLegacy
    (m : Migration)
    (shell : Shell)
    (s : Survey)
    (d : Decisions) :
    Deaf (m.settleLegacy shell s d) := by
  unfold settleLegacy
  split
  · exact deaf_removeLegacy m shell s
  · split
    · exact deaf_pure ()
    · exact deaf_warn _

theorem deaf_install
    (m : Migration)
    (shell : Shell)
    (s : Survey) :
    Deaf (m.install shell s) := by
  unfold install
  apply (deaf_say _).bind
  intro _
  exact deaf_check shell _

theorem deaf_addScripts
    (m : Migration)
    (s : Survey) :
    Deaf (m.addScripts s) := by
  unfold addScripts
  apply deaf_files.bind
  intro fs
  apply (deaf_ofExcept fun _ => Manifest.isOfWork_of_read).bind
  intro manifest
  apply (deaf_ofFiles _).bind
  intro typescript
  dsimp only
  apply (deaf_writeText _ _).bind
  intro _
  exact deaf_log_pure rfl _ _ _

theorem deaf_scrub
    (m : Migration)
    (d : Decisions) :
    Deaf (m.scrub d) := by
  unfold scrub
  split
  · exact deaf_pure _
  · apply (deaf_say _).bind
    intro _
    apply (Scrub.deaf_tree _ _).bind
    intro report
    exact deaf_log_pure rfl _ _ _

theorem deaf_fix
    (m : Migration)
    (shell : Shell)
    (s : Survey) :
    Deaf (m.fix shell s) := by
  unfold fix
  split
  · apply (deaf_say _).bind
    intro _
    apply (deaf_check shell _).bind
    intro _
    exact deaf_say _
  · exact deaf_pure ()

theorem deaf_finish
    (m : Migration)
    (shell : Shell)
    (i : Inquiry)
    (written typescript : Bool)
    (report : Scrub.Report) :
    Deaf (m.finish shell i written typescript report) := by
  unfold finish
  apply (deaf_fix m shell i.survey).bind
  intro _
  apply (deaf_echo _).bind
  intro _
  exact deaf_pure _

theorem deaf_establish
    (m : Migration)
    (shell : Shell)
    (i : Inquiry) :
    Deaf (m.establish shell i) := by
  unfold establish
  apply (deaf_install m shell i.survey).bind
  intro _
  apply (Biome.deaf_write _ _ _).bind
  intro written
  apply (deaf_addScripts m i.survey).bind
  intro typescript
  apply (deaf_scrub m i.decisions).bind
  intro report
  exact deaf_finish m shell i written typescript report

/- Once the last answer is given, nobody listens. -/
theorem deaf_changes
    (m : Migration)
    (shell : Shell)
    (i : Inquiry) :
    Deaf (m.changes shell i) := by
  unfold changes
  apply (deaf_settleLegacy m shell i.survey i.decisions).bind
  intro _
  exact deaf_establish m shell i

end Migration

end BiomeMigration
