import BiomeMigration.Proofs.Files.Touch
import BiomeMigration.Proofs.Session.Calm
import BiomeMigration.Proofs.Session.Ends

/-
  Operations that run no command and keep a relation between
  worlds, whether they succeed or fail. A relation that
  logging keeps, and that goes on from world to world, is
  kept by all sequences of operations that keep it.

  Main declarations:
    * `Session.Steady`
    * `Session.Keeps`
    * `Session.Keeps.bind`
    * `World.Idle`
    * `World.steady_idle`
-/

------------------------------------------------------------
-- Relations between Worlds
------------------------------------------------------------

namespace BiomeMigration

open FileSystem (Touches)

namespace Session

/-
  A relation between worlds that goes on from one to the
  next, and that neither logging nor printing breaks.
-/
structure Steady (R : World → World → Prop) : Prop where
  refl : ∀ w, R w w
  trans : ∀ {u v w}, R u v → R v w → R u w
  record : ∀ r w, R w (recorded r w)
  echo :
    ∀ text w,
      R w { w with journal := w.journal ++ [.echo text] }

/-
  An operation keeps a relation: however it ends, no command
  has failed, and the worlds around it are related.
-/
def Keeps
    {α : Type}
    (R : World → World → Prop)
    (x : Session α) : Prop :=
  ∀ w result w', Ends x w result w' →
    R w w' ∧ ∀ r, result ≠ .error (.command r)

variable {α β : Type} {R S : World → World → Prop}

theorem Steady.and
    (hR : Steady R)
    (hS : Steady S) :
    Steady fun w w' => R w w' ∧ S w w' where
  refl w := ⟨hR.refl w, hS.refl w⟩
  trans hFirst hSecond :=
    ⟨hR.trans hFirst.1 hSecond.1, hS.trans hFirst.2 hSecond.2⟩
  record r w := ⟨hR.record r w, hS.record r w⟩
  echo text w := ⟨hR.echo text w, hS.echo text w⟩

/- A successful run of an operation that keeps a relation. -/
theorem Keeps.of_runs
    {x : Session α}
    (hKeeps : Keeps R x)
    {w w' : World}
    {a : α}
    (hRuns : Runs x w a w') :
    R w w' :=
  (hKeeps w _ w' hRuns).1

theorem keeps_pure (hR : Steady R) (a : α) :
    Keeps R (pure a) := by
  intro w result w' hEnds
  rcases ends_pure_iff.mp hEnds with ⟨rfl, rfl⟩
  exact ⟨hR.refl w', by simp⟩

theorem keeps_throw
    (hR : Steady R)
    {failure : Failure}
    (hFailure : ∀ r, failure ≠ .command r) :
    Keeps R (throw failure : Session α) := by
  intro w result w' hEnds
  rcases ends_throw_iff.mp hEnds with ⟨rfl, rfl⟩
  exact ⟨hR.refl w', fun r hSame =>
    hFailure r (Except.error.inj hSame)⟩

theorem Keeps.bind
    (hR : Steady R)
    {x : Session α}
    {f : α → Session β}
    (hFirst : Keeps R x)
    (hThen : ∀ a, Keeps R (f a)) :
    Keeps R (x >>= f) := by
  intro w result w' hEnds
  rcases ends_bind_iff.mp hEnds with
    ⟨failure, hFailed, rfl⟩ | ⟨a, v, hRan, hRest⟩
  · rcases hFirst w _ w' hFailed with ⟨hRelated, hOther⟩
    refine ⟨hRelated, fun r hSame => hOther r ?_⟩
    rw [Except.error.inj hSame]
  · rcases hThen a v result w' hRest with ⟨hRelated, hOther⟩
    exact ⟨hR.trans (hFirst w _ v hRan).1 hRelated, hOther⟩

theorem keeps_files (hR : Steady R) : Keeps R files := by
  intro w result w' hEnds
  rcases (ends_files w).unique hEnds with ⟨rfl, rfl⟩
  exact ⟨hR.refl _, by simp⟩

theorem keeps_ofExcept
    (hR : Steady R)
    {given : Except Failure α}
    (hGiven : ∀ r, given ≠ .error (.command r)) :
    Keeps R (ofExcept given) := by
  intro w result w' hEnds
  rcases ends_ofExcept_iff.mp hEnds with ⟨rfl, rfl⟩
  exact ⟨hR.refl w', hGiven⟩

/- A fault of a path is no failed command. -/
theorem mapError_path_ne_command
    (given : Except PathFault α)
    (r : CommandResult) :
    given.mapError Failure.path ≠ .error (.command r) := by
  cases given with
  | ok a => rintro ⟨⟩
  | error fault => rintro ⟨⟩

theorem keeps_ofFiles
    (hR : Steady R)
    (look : FileSystem → Except PathFault α) :
    Keeps R (ofFiles look) := by
  intro w result w' hEnds
  rcases ends_ofFiles_iff.mp hEnds with ⟨rfl, rfl⟩
  exact ⟨hR.refl w', mapError_path_ne_command _⟩

theorem keeps_echo (hR : Steady R) (text : Text) :
    Keeps R (echo text) := by
  intro w result w' hEnds
  cases hEncode : text.encode with
  | ok bytes =>
      rcases (ends_echo_of_encode hEncode w).unique hEnds with
        ⟨rfl, rfl⟩
      exact ⟨hR.echo text w, by simp⟩
  | error fault =>
      rcases (ends_echo_of_fault hEncode w).unique hEnds with
        ⟨rfl, rfl⟩
      exact ⟨hR.refl _, by simp⟩

theorem keeps_log
    (hR : Steady R)
    (level : Level)
    (name : String)
    (message : Text) :
    Keeps R (log level name message) := by
  intro w result w' hEnds
  rcases (ends_log level name message w).unique hEnds with
    ⟨rfl, rfl⟩
  exact ⟨hR.record _ w, by simp⟩

/- A result may be logged before it is returned. -/
theorem keeps_log_pure
    (hR : Steady R)
    (level : Level)
    (name : String)
    (message : Text)
    (a : α) :
    Keeps R
      (do
        log level name message
        return a) :=
  (keeps_log hR level name message).bind hR
    fun _ => keeps_pure hR a

/- Questions end with an answer or an interrupt. -/
theorem keeps_ask
    {q : Question}
    (hAsk : ∀ w, R w (asked q w)) :
    Keeps R q.ask := by
  intro w result w' hEnds
  rcases ends_ask_iff.mp hEnds with ⟨rfl, rfl⟩
  refine ⟨hAsk w, fun r hSame => ?_⟩
  cases hAnswer : (q.converse w.lines).answer? with
  | some answer =>
      rw [hAnswer] at hSame
      cases hSame
  | none =>
      rw [hAnswer] at hSame
      cases hSame

theorem keeps_confirm
    (hR : Steady R)
    {q : Question}
    (hAsk : ∀ w, R w (asked q w))
    (assumeYes : Bool) :
    Keeps R (q.confirm assumeYes) := by
  unfold Question.confirm
  split
  · exact keeps_pure hR q.default
  · exact keeps_ask hAsk

end Session

------------------------------------------------------------
-- Idle Worlds
------------------------------------------------------------

namespace World

open Session

/- The prompts that were shown, in order. -/
def prompts (w : World) : List String :=
  w.journal.filterMap fun
    | .ask prompt => some prompt
    | _ => none

/-
  A world has become another one without a command, and
  without a change to any place that is no open log file.
-/
structure Idle (w w' : World) : Prop where
  logger : w'.logger = w.logger
  executions : w'.executions = w.executions
  files : Touches (w.logger.LogsTo w.files) w.files w'.files

theorem executions_append
    (w : World)
    {events : List Event}
    (hEvents : ∀ e ∈ events, e.execution? = none) :
    { w with journal := w.journal ++ events }.executions =
      w.executions := by
  unfold executions
  rw [List.filterMap_append,
    List.filterMap_eq_nil_iff.mpr hEvents, List.append_nil]

theorem execution?_shownBy
    {l : Logger}
    {r : Record} :
    ∀ e ∈ [.record r] ++ shownBy l r,
      e.execution? = none := by
  intro e he
  unfold shownBy at he
  split at he
  · simp only [List.mem_append, List.mem_singleton] at he
    rcases he with rfl | rfl
    · rfl
    · rfl
  · rw [List.append_nil, List.mem_singleton] at he
    rw [he]
    rfl

theorem executions_recorded (r : Record) (w : World) :
    (recorded r w).executions = w.executions := by
  have hSame :=
    executions_append w
      (execution?_shownBy (l := w.logger) (r := r))
  unfold recorded
  rw [List.append_assoc]
  exact hSame

theorem prompts_recorded (r : Record) (w : World) :
    (recorded r w).prompts = w.prompts := by
  unfold prompts recorded shownBy
  dsimp only
  split
  · simp
  · simp

theorem prompts_asked (q : Question) (w : World) :
    (asked q w).prompts =
      w.prompts ++
        List.replicate (q.converse w.lines).shown q.prompt := by
  unfold prompts asked
  rw [List.filterMap_append]
  congr 1
  generalize (q.converse w.lines).shown = n
  induction n with
  | zero => rfl
  | succ n ih =>
      rw [List.replicate_succ, List.replicate_succ,
        List.filterMap_cons, ih]

theorem Idle.refl (w : World) : w.Idle w :=
  ⟨rfl, rfl, Touches.refl _ _⟩

theorem Idle.trans
    {u v w : World}
    (hFirst : u.Idle v)
    (hSecond : v.Idle w) :
    u.Idle w := by
  refine ⟨hSecond.logger.trans hFirst.logger,
    hSecond.executions.trans hFirst.executions,
    hFirst.files.trans ?_⟩
  have hPlaces := u.logger.logsTo_of_touches hFirst.files
  have hFiles := hSecond.files
  rw [hFirst.logger, hPlaces] at hFiles
  exact hFiles

/- Only logging and printing happens in idle worlds. -/
theorem steady_idle : Steady Idle where
  refl := Idle.refl
  trans := Idle.trans
  record r w :=
    ⟨rfl, executions_recorded r w,
      w.logger.touches_writeFiles r w.files⟩
  echo text w :=
    ⟨rfl, executions_append w (by simp [Event.execution?]),
      Touches.refl _ _⟩

theorem idle_asked (q : Question) (w : World) :
    w.Idle (asked q w) :=
  ⟨rfl,
    executions_append w
      (fun e he => by rw [List.eq_of_mem_replicate he]; rfl),
    Touches.refl _ _⟩

/- Nothing is asked, and no line is taken. -/
theorem steady_input :
    Steady fun w w' =>
      w'.lines = w.lines ∧ w'.prompts = w.prompts where
  refl _ := ⟨rfl, rfl⟩
  trans hFirst hSecond :=
    ⟨hSecond.1.trans hFirst.1, hSecond.2.trans hFirst.2⟩
  record r w := ⟨rfl, prompts_recorded r w⟩
  echo text w := ⟨rfl, by simp [prompts]⟩

end World

end BiomeMigration
