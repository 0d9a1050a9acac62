import BiomeMigration.Proofs.Files.Writing
import BiomeMigration.Proofs.Session.Runs
import BiomeMigration.Session.Prompt

/-
  Operations that run no command and spare the file at a
  place, unless it is a log file.

  Main declarations:
    * `World.executions`
    * `World.Guards`
    * `World.Calm`
    * `Session.IsCalm`
    * `Session.isCalm_log`
-/

------------------------------------------------------------
-- Executions
------------------------------------------------------------

namespace BiomeMigration

open FileSystem (Spares)

/- A command that was run, and the files around it. -/
structure Execution where
  command : Text
  before : FileSystem
  after : FileSystem

/- A shell has run a command. -/
structure Execution.IsOf
    (e : Execution)
    (shell : Shell)
    (text : Text) : Prop where
  command : e.command = text
  after : e.after = (shell text e.before).2

/- The execution that an event is, if it is one. -/
def Event.execution? : Event → Option Execution
  | .run command before after => some ⟨command, before, after⟩
  | _ => none

namespace World

/- The commands that were run, in order. -/
def executions (w : World) : List Execution :=
  w.journal.filterMap Event.execution?

theorem executions_executed
    (shell : Shell)
    (text : Text)
    (w : World) :
    (Session.executed shell text w).executions =
      w.executions ++
        [⟨text, w.files, (shell text w.files).2⟩] := by
  unfold executions Session.executed
  rw [List.filterMap_append]
  rfl

------------------------------------------------------------
-- Calm Worlds
------------------------------------------------------------

/- A place holds a file that is no log file. -/
def Guards
    (w : World)
    (loc : Location) : Prop :=
  (∃ content, w.files.root.at? loc = some (.file content)) ∧
    ¬ w.logger.LogsTo w.files loc

/-
  A world has become another one without a command, and
  without a change to the file at a place that it guards.
-/
structure Calm
    (loc : Location)
    (w w' : World) : Prop where
  logger : w'.logger = w.logger
  executions : w'.executions = w.executions
  spares : w.Guards loc → Spares loc w.files w'.files

variable {loc : Location} {w w' w'' : World}

theorem Calm.refl
    (loc : Location)
    (w : World) :
    w.Calm loc w :=
  ⟨rfl, rfl, fun _ => Spares.refl loc w.files⟩

theorem Calm.guards
    (hCalm : w.Calm loc w')
    (hGuards : w.Guards loc) :
    w'.Guards loc := by
  have hSpares := hCalm.spares hGuards
  rcases hGuards with ⟨⟨content, hFile⟩, hLogs⟩
  refine ⟨⟨content, by rw [hSpares.node, hFile]⟩, ?_⟩
  rintro ⟨hHandler, hOpened⟩
  rw [hCalm.logger] at hHandler
  rw [hSpares.opened] at hOpened
  exact hLogs ⟨hHandler, hOpened⟩

theorem Calm.trans
    (hFirst : w.Calm loc w')
    (hSecond : w'.Calm loc w'') :
    w.Calm loc w'' where
  logger := hSecond.logger.trans hFirst.logger
  executions := hSecond.executions.trans hFirst.executions
  spares := fun hGuards =>
    (hFirst.spares hGuards).trans
      (hSecond.spares (hFirst.guards hGuards))

end World

------------------------------------------------------------
-- Calm Operations
------------------------------------------------------------

namespace Session

/- Each successful run of an operation is calm. -/
def IsCalm
    {α : Type}
    (loc : Location)
    (x : Session α) : Prop :=
  ∀ w a w', Runs x w a w' → w.Calm loc w'

variable {α β : Type} {loc : Location}

theorem isCalm_pure (a : α) : IsCalm loc (pure a) := by
  intro w b w' hRuns
  rcases runs_pure_iff.mp hRuns with ⟨_, rfl⟩
  exact World.Calm.refl loc w'

theorem isCalm_throw
    (failure : Failure) :
    IsCalm loc (throw failure : Session α) := by
  intro w a w' hRuns
  exact (not_runs_throw hRuns).elim

theorem IsCalm.bind
    {x : Session α}
    {f : α → Session β}
    (hFirst : IsCalm loc x)
    (hThen : ∀ a, IsCalm loc (f a)) :
    IsCalm loc (x >>= f) := by
  intro w b w' hRuns
  rcases runs_bind_iff.mp hRuns with ⟨a, v, hX, hF⟩
  exact (hFirst w a v hX).trans (hThen a v b w' hF)

theorem isCalm_files : IsCalm loc files := by
  intro w fs w' hRuns
  rcases runs_files_iff.mp hRuns with ⟨_, rfl⟩
  exact World.Calm.refl loc w'

theorem isCalm_ofExcept
    (result : Except Failure α) :
    IsCalm loc (ofExcept result) := by
  intro w a w' hRuns
  rcases runs_ofExcept_iff.mp hRuns with ⟨_, rfl⟩
  exact World.Calm.refl loc w'

theorem isCalm_ofFiles
    (look : FileSystem → Except PathFault α) :
    IsCalm loc (ofFiles look) := by
  intro w a w' hRuns
  rcases runs_ofFiles_iff.mp hRuns with ⟨_, rfl⟩
  exact World.Calm.refl loc w'

theorem isCalm_note
    {event : Event}
    (hEvent : event.execution? = none) :
    IsCalm loc (note event) := by
  intro w u w' hRuns
  rcases runs_note_iff.mp hRuns with rfl
  refine ⟨rfl, ?_, fun _ => Spares.refl loc w.files⟩
  simp [World.executions, hEvent]

theorem isCalm_echo (text : Text) :
    IsCalm loc (echo text) := by
  unfold echo
  split
  · exact isCalm_note rfl
  · exact isCalm_throw _

/- A record is written to the log files only. -/
theorem isCalm_write (r : Record) : IsCalm loc (write r) := by
  have hFiles :
      ∀ l : Logger, ∀ w : World, l = w.logger →
        w.Calm loc
          { w with files := l.writeFiles r w.files } := by
    rintro l w rfl
    refine ⟨rfl, rfl, ?_⟩
    rintro ⟨⟨content, hFile⟩, hLogs⟩
    exact Logger.spares_writeFiles hFile hLogs r
  intro w u w' hRuns
  unfold write at hRuns
  rcases runs_bind_iff.mp hRuns with ⟨_, w₁, hNote, hRest⟩
  rcases runs_bind_iff.mp hRest with ⟨v, w₂, hGet, hWrite⟩
  rcases runs_get_iff.mp hGet with ⟨rfl, rfl⟩
  dsimp only at hWrite
  have hFirst : w.Calm loc w₂ :=
    isCalm_note rfl w () w₂ hNote
  have hLast :
      ∀ w₃ : World, w₃.logger = w₂.logger →
        Runs
          (do
            let fs ← files
            setFiles (w₂.logger.writeFiles r fs))
          w₃ u w' →
        w₃.Calm loc w' := by
    intro w₃ hLogger hRuns
    rcases runs_bind_iff.mp hRuns with ⟨fs, w₄, hFiles', hSet⟩
    rcases runs_files_iff.mp hFiles' with ⟨rfl, rfl⟩
    rcases runs_setFiles_iff.mp hSet with rfl
    exact hFiles w₂.logger w₄ hLogger.symm
  split at hWrite
  · rcases runs_bind_iff.mp hWrite with
      ⟨_, w₃, hText, hLog⟩
    have hSecond : w₂.Calm loc w₃ :=
      isCalm_note rfl w₂ () w₃ hText
    exact hFirst.trans
      (hSecond.trans (hLast w₃ hSecond.logger hLog))
  · exact hFirst.trans (hLast w₂ rfl hWrite)

theorem isCalm_log
    (level : Level)
    (name : String)
    (message : Text) :
    IsCalm loc (log level name message) :=
  isCalm_write _

/- A result may be logged before it is returned. -/
theorem isCalm_log_pure
    (level : Level)
    (name : String)
    (message : Text)
    (a : α) :
    IsCalm loc
      (do
        log level name message
        return a) := by
  apply (isCalm_log level name message).bind
  intro _
  exact isCalm_pure a

/- Questions take lines and show prompts. -/
theorem isCalm_ask (q : Question) : IsCalm loc q.ask := by
  have hTalk :
      ∀ (w : World) lines shown,
        w.Calm loc
          { w with
            lines := lines
            journal :=
              w.journal ++
                List.replicate shown (.ask q.prompt) } := by
    intro w lines shown
    refine ⟨rfl, ?_, fun _ => Spares.refl loc w.files⟩
    simp [World.executions, Event.execution?]
  intro w a w' hRuns
  unfold Question.ask at hRuns
  rcases runs_bind_iff.mp hRuns with ⟨v, w₁, hGet, hRest⟩
  rcases runs_get_iff.mp hGet with ⟨rfl, rfl⟩
  rcases runs_bind_iff.mp hRest with ⟨_, w₂, hModify, hRest⟩
  rcases runs_modify_iff.mp hModify with rfl
  apply (hTalk w₁ _ _).trans
  split at hRest
  · exact isCalm_pure _ _ _ _ hRest
  · exact isCalm_throw _ _ _ _ hRest

theorem isCalm_confirm
    (q : Question)
    (assumeYes : Bool) :
    IsCalm loc (q.confirm assumeYes) := by
  unfold Question.confirm
  split
  · exact isCalm_pure q.default
  · exact isCalm_ask q

end Session

end BiomeMigration
