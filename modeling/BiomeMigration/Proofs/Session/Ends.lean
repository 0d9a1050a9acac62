import BiomeMigration.Proofs.Session.Runs
import BiomeMigration.Session.Prompt

/-
  Runs of sessions, whether they succeed or fail: what a run
  of each operation that sessions are made of ends with, and
  how a failure ends a sequence.

  Main declarations:
    * `Session.Ends`
    * `Session.ends_bind_iff`
    * `Session.recorded`
    * `Session.ends_check`
-/

------------------------------------------------------------
-- Sequences
------------------------------------------------------------

namespace BiomeMigration

namespace Session

variable {α β : Type} {w w' v v' : World}

/- An operation ends with a result, in a new world. -/
def Ends
    (x : Session α)
    (w : World)
    (result : Except Failure α)
    (w' : World) : Prop :=
  x.run.run w = (result, w')

theorem runs_iff_ends
    {x : Session α}
    {a : α} :
    Runs x w a w' ↔ Ends x w (.ok a) w' :=
  Iff.rfl

theorem Ends.unique
    {x : Session α}
    {result result' : Except Failure α}
    (hEnds : Ends x w result w')
    (hEnds' : Ends x w result' v') :
    result' = result ∧ v' = w' := by
  unfold Ends at hEnds hEnds'
  rw [hEnds] at hEnds'
  rcases Prod.mk.inj hEnds' with ⟨hResult, hWorld⟩
  exact ⟨hResult.symm, hWorld.symm⟩

/- Each operation ends. -/
theorem exists_ends (x : Session α) (w : World) :
    ∃ result w', Ends x w result w' :=
  ⟨_, _, rfl⟩

/- A sequence ends with its first failure. -/
theorem ends_bind_iff
    {x : Session α}
    {f : α → Session β}
    {result : Except Failure β} :
    Ends (x >>= f) w result w' ↔
      (∃ failure,
        Ends x w (.error failure) w' ∧
          result = .error failure) ∨
      ∃ a v, Ends x w (.ok a) v ∧ Ends (f a) v result w' := by
  unfold Ends
  rw [ExceptT.run_bind, StateT.run_bind]
  rcases hFirst : x.run.run w with ⟨first, v⟩
  cases first with
  | error failure =>
      constructor
      · intro hEnds
        rcases Prod.mk.inj hEnds with ⟨rfl, rfl⟩
        exact Or.inl ⟨failure, rfl, rfl⟩
      · rintro (⟨_, hSame, rfl⟩ | ⟨a, _, hSame, _⟩)
        · rcases Prod.mk.inj hSame with ⟨hResult, rfl⟩
          rcases Except.error.inj hResult with rfl
          rfl
        · cases (Prod.mk.inj hSame).1
  | ok a =>
      constructor
      · intro hEnds
        exact Or.inr ⟨a, v, rfl, hEnds⟩
      · rintro (⟨_, hSame, rfl⟩ | ⟨b, _, hSame, hEnds⟩)
        · cases (Prod.mk.inj hSame).1
        · rcases Prod.mk.inj hSame with ⟨hResult, rfl⟩
          rcases Except.ok.inj hResult with rfl
          exact hEnds

theorem Ends.bind
    {x : Session α}
    {f : α → Session β}
    {a : α}
    {result : Except Failure β}
    (hFirst : Ends x w (.ok a) v)
    (hThen : Ends (f a) v result w') :
    Ends (x >>= f) w result w' :=
  ends_bind_iff.mpr (Or.inr ⟨a, v, hFirst, hThen⟩)

theorem Ends.bind_error
    {x : Session α}
    {failure : Failure}
    (hFirst : Ends x w (.error failure) w')
    (f : α → Session β) :
    Ends (x >>= f) w (.error failure) w' :=
  ends_bind_iff.mpr (Or.inl ⟨failure, hFirst, rfl⟩)

/- What follows an operation that ended well. -/
theorem Ends.of_bind
    {x : Session α}
    {f : α → Session β}
    {a : α}
    {result : Except Failure β}
    (hFirst : Ends x w (.ok a) v)
    (hEnds : Ends (x >>= f) w result w') :
    Ends (f a) v result w' := by
  rcases ends_bind_iff.mp hEnds with
    ⟨failure, hFailed, _⟩ | ⟨b, u, hRan, hThen⟩
  · have hResult := (hFirst.unique hFailed).1
    simp at hResult
  · rcases hFirst.unique hRan with ⟨hResult, rfl⟩
    rcases Except.ok.inj hResult with rfl
    exact hThen

theorem ends_pure_iff
    {a : α}
    {result : Except Failure α} :
    Ends (pure a) w result w' ↔ result = .ok a ∧ w' = w := by
  unfold Ends
  constructor
  · intro hEnds
    rcases Prod.mk.inj hEnds with ⟨hResult, hWorld⟩
    exact ⟨hResult.symm, hWorld.symm⟩
  · rintro ⟨rfl, rfl⟩
    rfl

theorem ends_throw_iff
    {failure : Failure}
    {result : Except Failure α} :
    Ends (throw failure) w result w' ↔
      result = .error failure ∧ w' = w := by
  unfold Ends
  constructor
  · intro hEnds
    rcases Prod.mk.inj hEnds with ⟨hResult, hWorld⟩
    exact ⟨hResult.symm, hWorld.symm⟩
  · rintro ⟨rfl, rfl⟩
    rfl

theorem ends_get (w : World) : Ends get w (.ok w) w :=
  rfl

theorem ends_modify (f : World → World) (w : World) :
    Ends (modify f) w (.ok ()) (f w) :=
  rfl

------------------------------------------------------------
-- Files
------------------------------------------------------------

theorem ends_files (w : World) :
    Ends files w (.ok w.files) w :=
  rfl

theorem ends_setFiles (fs : FileSystem) (w : World) :
    Ends (setFiles fs) w (.ok ()) { w with files := fs } :=
  rfl

theorem ends_ofExcept_iff
    {given result : Except Failure α} :
    Ends (ofExcept given) w result w' ↔
      result = given ∧ w' = w := by
  unfold ofExcept
  cases given with
  | ok a => exact ends_pure_iff
  | error failure => exact ends_throw_iff

theorem ends_ofFiles_iff
    {look : FileSystem → Except PathFault α}
    {result : Except Failure α} :
    Ends (ofFiles look) w result w' ↔
      result = (look w.files).mapError .path ∧ w' = w := by
  constructor
  · intro hEnds
    exact ends_ofExcept_iff.mp ((ends_files w).of_bind hEnds)
  · intro hResult
    exact (ends_files w).bind (ends_ofExcept_iff.mpr hResult)

theorem ends_ofFiles_of_ok
    {look : FileSystem → Except PathFault α}
    {a : α}
    (hLook : look w.files = .ok a) :
    Ends (ofFiles look) w (.ok a) w := by
  apply ends_ofFiles_iff.mpr
  rw [hLook]
  exact ⟨rfl, rfl⟩

theorem ends_ofFiles_of_error
    {look : FileSystem → Except PathFault α}
    {fault : PathFault}
    (hLook : look w.files = .error fault) :
    Ends (ofFiles look) w (.error (.path fault)) w := by
  apply ends_ofFiles_iff.mpr
  rw [hLook]
  exact ⟨rfl, rfl⟩

/- A look-up fails by a fault of its path. -/
theorem ends_ofFiles_error
    {look : FileSystem → Except PathFault α}
    {failure : Failure}
    (hEnds : Ends (ofFiles look) w (.error failure) w') :
    (∃ fault, failure = .path fault) ∧ w' = w := by
  rcases ends_ofFiles_iff.mp hEnds with ⟨hResult, hWorld⟩
  refine ⟨?_, hWorld⟩
  cases hLook : look w.files with
  | ok a =>
      rw [hLook] at hResult
      cases hResult
  | error fault =>
      rw [hLook] at hResult
      exact ⟨fault, Except.error.inj hResult⟩

theorem ends_writeText_iff
    {p : Path}
    {t : Text}
    {result : Except Failure Unit} :
    Ends (writeText p t) w result w' ↔
      result = (w.files.writeText p t).1 ∧
        w' = { w with files := (w.files.writeText p t).2 } := by
  constructor
  · intro hEnds
    have hSet := (ends_files w).of_bind hEnds
    exact ends_ofExcept_iff.mp
      ((ends_setFiles _ w).of_bind hSet)
  · intro hResult
    apply (ends_files w).bind
    apply (ends_setFiles _ w).bind
    exact ends_ofExcept_iff.mpr hResult

------------------------------------------------------------
-- Output
------------------------------------------------------------

theorem ends_note (event : Event) (w : World) :
    Ends (note event) w (.ok ())
      { w with journal := w.journal ++ [event] } :=
  rfl

/- What a record shows on the console. -/
def shownBy (l : Logger) (r : Record) : List Event :=
  if !(l.consoleText r).isEmpty then
    [.console (l.consoleText r)]
  else []

/- The world after a record has been written in it. -/
def recorded (r : Record) (w : World) : World :=
  { w with
    files := w.logger.writeFiles r w.files
    journal := w.journal ++ [.record r] ++ shownBy w.logger r }

theorem ends_write (r : Record) (w : World) :
    Ends (write r) w (.ok ()) (recorded r w) := by
  have hLast :
      ∀ u : World,
        Ends
          (do
            let fs ← files
            setFiles (w.logger.writeFiles r fs))
          u (.ok ())
          { u with
            files := w.logger.writeFiles r u.files } :=
    fun u => (ends_files u).bind (ends_setFiles _ u)
  unfold write
  apply (ends_note _ w).bind
  apply (ends_get _).bind
  dsimp only
  unfold recorded shownBy
  split
  · exact (ends_note _ _).bind (hLast _)
  · rw [List.append_nil]
    exact hLast _

theorem ends_log
    (level : Level)
    (name : String)
    (message : Text)
    (w : World) :
    Ends (log level name message) w (.ok ())
      (recorded
        ⟨level, Record.sourceOf name, message, none, none⟩ w) :=
  ends_write _ w

/- A text with a UTF-8 form is printed. -/
theorem ends_echo_of_encode
    {text : Text}
    {bytes : Bytes}
    (hEncode : text.encode = .ok bytes)
    (w : World) :
    Ends (echo text) w (.ok ())
      { w with journal := w.journal ++ [.echo text] } := by
  unfold echo
  rw [hEncode]
  exact ends_note _ w

/- A text without one is not, and this is a failure. -/
theorem ends_echo_of_fault
    {text : Text}
    {fault : Text.Fault}
    (hEncode : text.encode = .error fault)
    (w : World) :
    Ends (echo text) w (.error (.encoding fault)) w := by
  unfold echo
  rw [hEncode]
  exact ends_throw_iff.mpr ⟨rfl, rfl⟩

------------------------------------------------------------
-- Commands
------------------------------------------------------------

theorem ends_execute
    (shell : Shell)
    (text : Text)
    (w : World) :
    Ends (execute shell text) w
      ((shell text w.files).1.mapError CommandFault.failure)
      (executed shell text w) := by
  unfold execute
  apply (ends_files w).bind
  apply (ends_note _ w).bind
  apply (ends_setFiles _ _).bind
  exact ends_ofExcept_iff.mpr ⟨rfl, rfl⟩

/- The world in which an announced command is run. -/
def announced (text : Text) (w : World) : World :=
  recorded
    ⟨.info, Record.sourceOf "runner", Text.ofString "> " ++ text,
      none, none⟩
    w

/- What comes of a command that has to succeed. -/
def verdict :
    Except CommandFault CommandResult → Except Failure Unit
  | .ok result =>
      if result.ok then .ok () else .error (.command result)
  | .error fault => .error fault.failure

theorem verdict_of_ok
    {r : CommandResult}
    (hOk : r.ok = true) :
    verdict (.ok r) = .ok () := by
  simp [verdict, hOk]

theorem verdict_of_not_ok
    {r : CommandResult}
    (hFailed : r.ok = false) :
    verdict (.ok r) = .error (.command r) := by
  simp [verdict, hFailed]

theorem verdict_eq_ok_iff
    {ran : Except CommandFault CommandResult}
    {u : Unit} :
    verdict ran = .ok u ↔ ∃ r, ran = .ok r ∧ r.ok = true := by
  cases ran with
  | error fault => simp [verdict]
  | ok r =>
      cases hResult : r.ok with
      | true => simp [verdict_of_ok hResult, hResult]
      | false => simp [verdict_of_not_ok hResult, hResult]

theorem verdict_eq_command_iff
    {ran : Except CommandFault CommandResult}
    {r : CommandResult} :
    verdict ran = .error (.command r) ↔
      ran = .ok r ∧ r.ok = false := by
  cases ran with
  | error fault =>
      cases fault <;> simp [verdict, CommandFault.failure]
  | ok other =>
      cases hResult : other.ok with
      | true =>
          rw [verdict_of_ok hResult]
          constructor
          · rintro ⟨⟩
          · rintro ⟨hSame, hFailed⟩
            rcases Except.ok.inj hSame with rfl
            rw [hResult] at hFailed
            cases hFailed
      | false =>
          rw [verdict_of_not_ok hResult]
          constructor
          · intro hSame
            rcases Failure.command.inj (Except.error.inj hSame)
              with rfl
            exact ⟨rfl, hResult⟩
          · rintro ⟨hSame, _⟩
            rcases Except.ok.inj hSame with rfl
            rfl

/- A command is announced and run, and its failure is one. -/
theorem ends_check_iff
    {shell : Shell}
    {text : Text}
    {result : Except Failure Unit} :
    Ends (check shell text) w result w' ↔
      result = verdict (shell text (announced text w).files).1 ∧
        w' = executed shell text (announced text w) := by
  have hCommand :
      Ends (command shell text) w
        ((shell text (announced text w).files).1.mapError
          CommandFault.failure)
        (executed shell text (announced text w)) :=
    (ends_log _ _ _ w).bind (ends_execute shell text _)
  unfold check
  cases hRan : (shell text (announced text w).files).1 with
  | error fault =>
      rw [hRan] at hCommand
      have hEnds := hCommand.bind_error fun result =>
        if !result.ok then throw (.command result) else pure ()
      constructor
      · intro hOther
        exact hEnds.unique hOther
      · rintro ⟨rfl, rfl⟩
        exact hEnds
  | ok reported =>
      rw [hRan] at hCommand
      have hChecked :
          ∀ u result w',
            Ends
                (if !reported.ok then throw (.command reported)
                else pure ())
                u result w' ↔
              result = verdict (.ok reported) ∧ w' = u := by
        intro u result w'
        cases hResult : reported.ok with
        | true =>
            rw [verdict_of_ok hResult]
            exact ends_pure_iff
        | false =>
            rw [verdict_of_not_ok hResult]
            exact ends_throw_iff
      constructor
      · intro hEnds
        exact (hChecked _ result w').mp (hCommand.of_bind hEnds)
      · intro hResult
        exact hCommand.bind ((hChecked _ result w').mpr hResult)

------------------------------------------------------------
-- Questions
------------------------------------------------------------

/- The world after a question has been asked in it. -/
def asked (q : Question) (w : World) : World :=
  { w with
    lines := (q.converse w.lines).rest
    journal :=
      w.journal ++
        List.replicate (q.converse w.lines).shown
          (.ask q.prompt) }

/- A question is answered or interrupted. -/
theorem ends_ask_iff
    {q : Question}
    {result : Except Failure Bool} :
    Ends q.ask w result w' ↔
      (result =
        match (q.converse w.lines).answer? with
        | some answer => .ok answer
        | none => .error .interrupted) ∧
        w' = asked q w := by
  have hTaken :
      ∀ result w',
        Ends
            (match (q.converse w.lines).answer? with
              | some answer => pure answer
              | none => throw Failure.interrupted :
              Session Bool)
            (asked q w) result w' ↔
          (result =
            match (q.converse w.lines).answer? with
            | some answer => .ok answer
            | none => .error .interrupted) ∧
            w' = asked q w := by
    intro result w'
    cases (q.converse w.lines).answer? with
    | some answer => exact ends_pure_iff
    | none => exact ends_throw_iff
  unfold Question.ask
  constructor
  · intro hEnds
    have hRest := (ends_get w).of_bind hEnds
    exact (hTaken result w').mp
      ((ends_modify _ w).of_bind hRest)
  · intro hResult
    apply (ends_get w).bind
    apply (ends_modify _ w).bind
    exact (hTaken result w').mpr hResult

end Session

end BiomeMigration
