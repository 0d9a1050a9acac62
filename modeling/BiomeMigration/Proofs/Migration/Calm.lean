import BiomeMigration.Migration
import BiomeMigration.Proofs.Session.Calm

/-
  The steps of a migration that run no command and spare all
  files that are there: looking at the project, asking, and
  writing the configuration of Biome.

  Main declarations:
    * `Probe.isCalm_detect`
    * `Migration.isCalm_survey`
    * `Migration.isCalm_consult`
    * `Biome.isCalm_write`
-/

------------------------------------------------------------
-- The Package Manager
------------------------------------------------------------

namespace BiomeMigration

open Session

variable {loc : Location}

namespace Probe

theorem isCalm_declared (p : Path) : IsCalm loc (declared p) := by
  unfold declared
  apply isCalm_files.bind
  intro fs
  split
  · exact isCalm_pure _
  · split
    · exact isCalm_throw _
    · exact isCalm_log_pure _ _ _ none

theorem isCalm_declaredAt (p : Path) :
    IsCalm loc (declaredAt p) := by
  unfold declaredAt
  apply (isCalm_declared p).bind
  intro manager?
  split
  · exact isCalm_log_pure _ _ _ _
  · exact isCalm_pure none

theorem isCalm_local? (root : Path) :
    IsCalm loc (local? root) := by
  unfold local?
  apply (isCalm_ofFiles _).bind
  intro isThere
  split
  · exact isCalm_declaredAt _
  · exact isCalm_pure none

theorem isCalm_above? (root : Path) :
    IsCalm loc (above? root) := by
  unfold above?
  split
  · exact isCalm_pure none
  · apply (isCalm_ofFiles _).bind
    intro found?
    split
    · exact isCalm_declaredAt _
    · exact isCalm_pure none

theorem isCalm_locked?
    (root : Path)
    (candidates : List (Manager × String)) :
    IsCalm loc (locked? root candidates) := by
  induction candidates with
  | nil => exact isCalm_pure none
  | cons candidate candidates ih =>
      rcases candidate with ⟨manager, name⟩
      unfold locked?
      apply (isCalm_ofFiles _).bind
      intro found?
      split
      · exact isCalm_log_pure _ _ _ _
      · exact ih

theorem isCalm_detect (root : Path) :
    IsCalm loc (detect root) := by
  unfold detect
  apply (isCalm_ofFiles _).bind
  intro real
  apply (isCalm_local? real).bind
  intro declared?
  split
  · exact isCalm_pure _
  · apply (isCalm_above? real).bind
    intro above?
    split
    · exact isCalm_pure _
    · apply (isCalm_locked? real lockfiles).bind
      intro locked?
      exact isCalm_pure _

end Probe

------------------------------------------------------------
-- Before the Changes
------------------------------------------------------------

namespace Migration

theorem isCalm_say (message : Text) :
    IsCalm loc (say message) :=
  isCalm_log _ _ _

theorem isCalm_warn (message : Text) :
    IsCalm loc (warn message) :=
  isCalm_log _ _ _

theorem isCalm_survey (m : Migration) :
    IsCalm loc m.survey := by
  unfold survey
  apply isCalm_files.bind
  intro fs
  apply (isCalm_ofExcept _).bind
  intro manifest
  apply (Probe.isCalm_detect m.root).bind
  intro manager
  exact isCalm_pure _

theorem isCalm_present (s : Survey) :
    IsCalm loc (present s) := by
  unfold present
  apply (isCalm_echo _).bind
  intro _
  apply (isCalm_say _).bind
  intro _
  apply (isCalm_say _).bind
  intro _
  dsimp only
  split
  · apply (isCalm_say _).bind
    intro _
    exact isCalm_say _
  · exact isCalm_say _

theorem isCalm_decide
    (m : Migration)
    (choice? : Option Bool)
    (q : Question) :
    IsCalm loc (m.decide choice? q) := by
  unfold decide
  split
  · exact isCalm_pure _
  · exact isCalm_confirm q m.assumeYes

theorem isCalm_consult
    (m : Migration)
    (s : Survey) :
    IsCalm loc (m.consult s) := by
  have hCleaning :
      ∀ removeLegacy,
        IsCalm loc
          (do
            let cleanComments ←
              m.decide m.settings.cleanComments?
                cleaningQuestion
            return (⟨removeLegacy, cleanComments⟩ : Decisions)) := by
    intro removeLegacy
    apply (isCalm_decide m _ _).bind
    intro cleanComments
    exact isCalm_pure _
  unfold consult
  dsimp only
  split
  · apply (isCalm_pure false).bind
    exact hCleaning
  · apply (isCalm_decide m _ _).bind
    exact hCleaning

/- What is done about the settings of the old tools, if they stay. -/
theorem isCalm_settleLegacy
    {m : Migration}
    {shell : Shell}
    {s : Survey}
    {d : Decisions}
    (hKeep : d.removeLegacy = false) :
    IsCalm loc (m.settleLegacy shell s d) := by
  unfold settleLegacy
  rw [hKeep]
  simp only [Bool.false_eq_true, if_false]
  split
  · exact isCalm_pure ()
  · exact isCalm_warn _

end Migration

------------------------------------------------------------
-- The Configuration of Biome
------------------------------------------------------------

namespace Session

/- A text may be written where there is no file. -/
theorem calm_of_not_exists
    {p : Path}
    (hAnchor : p.anchor ≠ .working)
    {t : Text}
    {w w' : World}
    {u : Unit}
    (hMissing : w.files.exists? p = .ok false)
    (hRuns : Runs (writeText p t) w u w') :
    w.Calm loc w' := by
  rcases runs_writeText hRuns with ⟨fs, hWritten, rfl⟩
  refine ⟨rfl, rfl, ?_⟩
  rintro ⟨⟨content, hFile⟩, _⟩
  exact FileSystem.spares_of_not_exists hAnchor hMissing hFile
    hWritten

end Session

/- A configuration is only written where there is none. -/
theorem Biome.isCalm_write
    {root : Path}
    (hRoot : root.anchor ≠ .working)
    (archetype : Archetype)
    (version : Text) :
    IsCalm loc (Biome.write root archetype version) := by
  have hAnchor : (root.child fileName).anchor ≠ .working :=
    Path.child_anchor hRoot rfl
  intro w written w' hRuns
  unfold Biome.write at hRuns
  rcases runs_bind_iff.mp hRuns with
    ⟨isThere, v, hExists, hRest⟩
  rcases runs_ofFiles_iff.mp hExists with ⟨hThere, rfl⟩
  cases isThere with
  | true => exact isCalm_log_pure _ _ _ _ _ _ _ hRest
  | false =>
      rcases runs_bind_iff.mp hRest with
        ⟨_, v', hWrite, hLog⟩
      exact (calm_of_not_exists hAnchor hThere hWrite).trans
        (isCalm_log_pure _ _ _ _ _ _ _ hLog)

end BiomeMigration
