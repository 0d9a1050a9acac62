import BiomeMigration.Package.ManifestFile
import BiomeMigration.Proofs.Files.LookUp

/-
  Successful runs of sessions: what a run of each operation
  that sessions are made of gives, and how runs follow each
  other.

  Main declarations:
    * `Session.Runs`
    * `Session.runs_bind_iff`
    * `Session.executed`
    * `Session.runs_check`
-/

------------------------------------------------------------
-- Sequences
------------------------------------------------------------

namespace BiomeMigration

namespace Session

/- An operation succeeds with a result and a new world. -/
def Runs
    {α : Type}
    (x : Session α)
    (w : World)
    (a : α)
    (w' : World) : Prop :=
  x.run.run w = (.ok a, w')

variable {α β : Type} {w w' : World}

/- An operation that does not fail runs. -/
theorem runs_of_isOk
    {x : Session α}
    (hOk : (x.run.run w).1.isOk = true) :
    ∃ a, Runs x w a (x.run.run w).2 := by
  unfold Runs
  rcases hRun : x.run.run w with ⟨result, v⟩
  rw [hRun] at hOk
  cases result with
  | ok a => exact ⟨a, rfl⟩
  | error failure => simp [Except.isOk, Except.toBool] at hOk

/- An operation that has a result runs to it. -/
theorem runs_of_toOption
    {x : Session α}
    {a : α}
    (hResult : (x.run.run w).1.toOption = some a) :
    Runs x w a (x.run.run w).2 := by
  unfold Runs
  rcases hRun : x.run.run w with ⟨result, v⟩
  rw [hRun] at hResult
  cases result with
  | ok b => rw [Option.some.inj hResult]
  | error failure => cases hResult

theorem runs_pure_iff
    {a b : α} :
    Runs (pure a) w b w' ↔ b = a ∧ w' = w := by
  unfold Runs
  constructor
  · intro hRuns
    rcases Prod.mk.inj hRuns with ⟨hResult, hWorld⟩
    exact ⟨(Except.ok.inj hResult).symm, hWorld.symm⟩
  · rintro ⟨rfl, rfl⟩
    rfl

/- A sequence runs if its first part does and then the rest. -/
theorem runs_bind_iff
    {x : Session α}
    {f : α → Session β}
    {b : β} :
    Runs (x >>= f) w b w' ↔
      ∃ a v, Runs x w a v ∧ Runs (f a) v b w' := by
  unfold Runs
  rw [ExceptT.run_bind, StateT.run_bind]
  constructor
  · intro hRuns
    rcases hFirst : x.run.run w with ⟨result, v⟩
    rw [hFirst] at hRuns
    cases result with
    | error failure =>
        rcases Prod.mk.inj hRuns with ⟨hResult, _⟩
        simp at hResult
    | ok a => exact ⟨a, v, rfl, hRuns⟩
  · rintro ⟨a, v, hFirst, hThen⟩
    rw [hFirst]
    exact hThen

theorem not_runs_throw
    {failure : Failure}
    {a : α} :
    ¬ Runs (throw failure) w a w' := by
  intro hRuns
  rcases Prod.mk.inj hRuns with ⟨hResult, _⟩
  simp at hResult

theorem runs_get_iff
    {v : World} :
    Runs get w v w' ↔ v = w ∧ w' = w := by
  unfold Runs
  constructor
  · intro hRuns
    rcases Prod.mk.inj hRuns with ⟨hResult, hWorld⟩
    exact ⟨(Except.ok.inj hResult).symm, hWorld.symm⟩
  · rintro ⟨rfl, rfl⟩
    rfl

theorem runs_modify_iff
    {f : World → World}
    {u : Unit} :
    Runs (modify f) w u w' ↔ w' = f w := by
  unfold Runs
  constructor
  · intro hRuns
    exact (Prod.mk.inj hRuns).2.symm
  · rintro rfl
    rfl

------------------------------------------------------------
-- Files
------------------------------------------------------------

theorem runs_files_iff
    {fs : FileSystem} :
    Runs files w fs w' ↔ fs = w.files ∧ w' = w := by
  unfold files
  rw [runs_bind_iff]
  simp only [runs_get_iff, runs_pure_iff]
  constructor
  · rintro ⟨_, _, ⟨rfl, rfl⟩, rfl, rfl⟩
    exact ⟨rfl, rfl⟩
  · rintro ⟨rfl, rfl⟩
    exact ⟨w', w', ⟨rfl, rfl⟩, rfl, rfl⟩

theorem runs_setFiles_iff
    {fs : FileSystem}
    {u : Unit} :
    Runs (setFiles fs) w u w' ↔ w' = { w with files := fs } :=
  runs_modify_iff

theorem runs_ofExcept_iff
    {result : Except Failure α}
    {a : α} :
    Runs (ofExcept result) w a w' ↔
      result = .ok a ∧ w' = w := by
  unfold ofExcept
  cases result with
  | ok b =>
      rw [runs_pure_iff, Except.ok.injEq]
      exact and_congr_left' eq_comm
  | error failure => simp [not_runs_throw]

theorem runs_ofFiles_iff
    {look : FileSystem → Except PathFault α}
    {a : α} :
    Runs (ofFiles look) w a w' ↔
      look w.files = .ok a ∧ w' = w := by
  unfold ofFiles
  rw [runs_bind_iff]
  simp only [runs_files_iff, runs_ofExcept_iff,
    mapError_eq_ok_iff]
  constructor
  · rintro ⟨_, _, ⟨rfl, rfl⟩, hResult, rfl⟩
    exact ⟨hResult, rfl⟩
  · rintro ⟨hResult, rfl⟩
    exact ⟨_, _, ⟨rfl, rfl⟩, hResult, rfl⟩

theorem runs_writeText
    {p : Path}
    {t : Text}
    {u : Unit}
    (hRuns : Runs (writeText p t) w u w') :
    ∃ fs,
      w.files.writeText p t = (.ok (), fs) ∧
        w' = { w with files := fs } := by
  unfold writeText at hRuns
  rcases runs_bind_iff.mp hRuns with ⟨fs, v, hFiles, hRest⟩
  rcases runs_files_iff.mp hFiles with ⟨rfl, rfl⟩
  rcases hWritten : v.files.writeText p t with ⟨result, fs⟩
  rw [hWritten] at hRest
  rcases runs_bind_iff.mp hRest with ⟨_, v', hSet, hResult⟩
  rcases runs_setFiles_iff.mp hSet with rfl
  rcases runs_ofExcept_iff.mp hResult with ⟨rfl, rfl⟩
  exact ⟨fs, rfl, rfl⟩

------------------------------------------------------------
-- Commands
------------------------------------------------------------

theorem runs_note_iff
    {event : Event}
    {u : Unit} :
    Runs (note event) w u w' ↔
      w' = { w with journal := w.journal ++ [event] } :=
  runs_modify_iff

/- The world after a command has been run in it. -/
def executed
    (shell : Shell)
    (text : Text)
    (w : World) : World :=
  { w with
    files := (shell text w.files).2
    journal :=
      w.journal ++ [.run text w.files (shell text w.files).2] }

theorem runs_execute
    {shell : Shell}
    {text : Text}
    {result : CommandResult}
    (hRuns : Runs (execute shell text) w result w') :
    w' = executed shell text w := by
  unfold execute at hRuns
  rcases runs_bind_iff.mp hRuns with ⟨fs, v, hFiles, hRest⟩
  rcases runs_files_iff.mp hFiles with ⟨rfl, rfl⟩
  rcases runs_bind_iff.mp hRest with ⟨_, v₁, hNote, hRest⟩
  rcases runs_note_iff.mp hNote with rfl
  rcases runs_bind_iff.mp hRest with ⟨_, v₂, hSet, hResult⟩
  rcases runs_setFiles_iff.mp hSet with rfl
  rcases runs_ofExcept_iff.mp hResult with ⟨_, rfl⟩
  rfl

/- A command is announced, and then run on the files. -/
theorem runs_check
    {shell : Shell}
    {text : Text}
    {u : Unit}
    (hRuns : Runs (check shell text) w u w') :
    ∃ v,
      Runs (log .info "runner" (Text.ofString "> " ++ text)) w ()
          v ∧
        w' = executed shell text v := by
  unfold check command at hRuns
  rcases runs_bind_iff.mp hRuns with
    ⟨result, v', hCommand, hRest⟩
  rcases runs_bind_iff.mp hCommand with
    ⟨_, v, hLog, hExecute⟩
  refine ⟨v, hLog, ?_⟩
  rw [← runs_execute hExecute]
  split at hRest
  · exact (not_runs_throw hRest).elim
  · exact (runs_pure_iff.mp hRest).2

end Session

end BiomeMigration
