import BiomeMigration.Proofs.Session.Keeps

/-
  Operations that run the commands of a plan, one after the
  other, and end with the first command that fails. Each
  step of a plan is a command together with what may be done
  to the files before it.

  Main declarations:
    * `Session.Course`
    * `Session.Follows`
    * `Session.Follows.cons`
    * `Session.follows_of_keeps`
-/

------------------------------------------------------------
-- Worlds before and after Commands
------------------------------------------------------------

namespace BiomeMigration

open FileSystem (Touches)

namespace World

open Session

variable {u v w : World} {es es' : List Execution}

/-
  A world has become another one by running commands, and
  without asking anything.
-/
structure Ran
    (w : World)
    (es : List Execution)
    (w' : World) : Prop where
  logger : w'.logger = w.logger
  prompts : w'.prompts = w.prompts
  executions : w'.executions = w.executions ++ es

theorem Ran.refl (w : World) : w.Ran [] w :=
  ⟨rfl, rfl, (List.append_nil _).symm⟩

theorem Ran.trans
    (hFirst : u.Ran es v)
    (hSecond : v.Ran es' w) :
    u.Ran (es ++ es') w where
  logger := hSecond.logger.trans hFirst.logger
  prompts := hSecond.prompts.trans hFirst.prompts
  executions := by
    rw [hSecond.executions, hFirst.executions, List.append_assoc]

theorem ran_recorded (r : Record) (w : World) :
    w.Ran [] (recorded r w) where
  logger := rfl
  prompts := prompts_recorded r w
  executions := by
    rw [executions_recorded, List.append_nil]

theorem ran_executed
    (shell : Shell)
    (text : Text)
    (w : World) :
    w.Ran [⟨text, w.files, (shell text w.files).2⟩]
      (executed shell text w) where
  logger := rfl
  prompts := by simp [prompts, executed]
  executions := executions_executed shell text w

/- Whatever happens to the files, no command is run. -/
theorem steady_ran : Steady fun w w' => w.Ran [] w' where
  refl := Ran.refl
  trans hFirst hSecond := hFirst.trans hSecond
  record := ran_recorded
  echo text w :=
    ⟨rfl, by simp [prompts],
      by simp [executions, Event.execution?]⟩

end World

namespace Logger

variable {l : Logger} {fs fs' fs'' : FileSystem}

/- File systems that differ by what a logger writes. -/
def Logged (l : Logger) (fs fs' : FileSystem) : Prop :=
  Touches (l.LogsTo fs) fs fs'

theorem Logged.refl (l : Logger) (fs : FileSystem) :
    l.Logged fs fs :=
  Touches.refl _ fs

theorem Logged.trans
    (hFirst : l.Logged fs fs')
    (hSecond : l.Logged fs' fs'') :
    l.Logged fs fs'' := by
  unfold Logged at hSecond
  rw [l.logsTo_of_touches hFirst] at hSecond
  exact Touches.trans hFirst hSecond

end Logger

------------------------------------------------------------
-- Plans
------------------------------------------------------------

/- A command that was run has succeeded. -/
def Execution.Succeeds
    (e : Execution)
    (shell : Shell) : Prop :=
  ∃ r, (shell e.command e.before).1 = .ok r ∧ r.ok = true

namespace Session

/-
  A step of a plan: a command, and what may happen to the
  files that the last command has left before it is run.
-/
structure Step where
  command : Text
  Before : FileSystem → FileSystem → Prop

/-
  Commands of a shell are the first steps of a plan. Each one
  starts from the files that the one before it has left, and
  from what may happen to these.
-/
inductive Course (shell : Shell) :
    List Step → FileSystem → List Execution → Prop where
  | stop (steps : List Step) (fs : FileSystem) :
      Course shell steps fs []
  | next
      {step : Step}
      {steps : List Step}
      {fs : FileSystem}
      {e : Execution}
      {es : List Execution} :
      e.IsOf shell step.command →
      step.Before fs e.before →
      Course shell steps e.after es →
      Course shell (step :: steps) fs (e :: es)

variable {shell : Shell} {steps : List Step}
variable {fs : FileSystem} {e : Execution} {es : List Execution}

/- The commands that were run start the plan. -/
theorem Course.commands
    (hCourse : Course shell steps fs es) :
    es.map Execution.command <+: steps.map Step.command := by
  induction hCourse with
  | stop steps fs => exact List.nil_prefix
  | next hIsOf _ _ ih =>
      rw [List.map_cons, List.map_cons, hIsOf.command]
      exact (List.prefix_cons_inj _).mpr ih

------------------------------------------------------------
-- Ends
------------------------------------------------------------

variable {α β : Type} {result : Except Failure α}
variable {w w' v : World}

/-
  All commands that were run have succeeded, and no failure
  is a command's. An operation that succeeds has run all
  steps, one that fails none of the last ones.
-/
structure Completed
    (shell : Shell)
    (steps last : List Step)
    (result : Except Failure α)
    (es : List Execution) : Prop where
  succeed : ∀ e ∈ es, e.Succeeds shell
  other : ∀ r, result ≠ .error (.command r)
  whole : result.isOk = true → es.length = steps.length + last.length
  part : result.isOk = false → es.length ≤ steps.length

/-
  The last command that was run, and no other, has not
  succeeded. This is the failure, and nothing is done after
  it.
-/
structure Aborted
    (shell : Shell)
    (result : Except Failure α)
    (w' : World)
    (es : List Execution) : Prop where
  last :
    ∃ done e failure,
      es = done ++ [e] ∧
        (∀ d ∈ done, d.Succeeds shell) ∧
        ¬ e.Succeeds shell ∧
        verdict (shell e.command e.before).1 = .error failure ∧
        result = .error failure ∧
        w'.files = e.after

/-
  All steps were run, and all commands have succeeded, but a
  text at the end has no UTF-8 form and cannot be printed.
-/
structure Unprinted
    (shell : Shell)
    (steps : List Step)
    (Shows : Text → Prop)
    (result : Except Failure α)
    (es : List Execution) : Prop where
  succeed : ∀ e ∈ es, e.Succeeds shell
  whole : es.length = steps.length
  unprinted :
    ∃ text fault,
      Shows text ∧
        text.encode = .error fault ∧
        result = .error (.encoding fault)

/-
  From files that a command has left, an operation runs the
  commands of a plan. It asks nothing.
-/
structure Follows
    (shell : Shell)
    (steps last : List Step)
    (Shows : Text → Prop)
    (fs : FileSystem)
    (w : World)
    (result : Except Failure α)
    (w' : World)
    (es : List Execution) : Prop where
  ran : w.Ran es w'
  course : Course shell (steps ++ last) fs es
  ending :
    Completed shell steps last result es ∨
      Aborted shell result w' es ∨
      Unprinted shell (steps ++ last) Shows result es

variable {last : List Step} {Shows : Text → Prop}

theorem Completed.cons
    {step : Step}
    (hSucceeds : e.Succeeds shell)
    (hCompleted : Completed shell steps last result es) :
    Completed shell (step :: steps) last result (e :: es) where
  succeed := by
    intro d hd
    rcases List.mem_cons.mp hd with rfl | hMem
    · exact hSucceeds
    · exact hCompleted.succeed d hMem
  other := hCompleted.other
  whole := by
    intro hOk
    have hWhole := hCompleted.whole hOk
    simp only [List.length_cons]
    omega
  part := by
    intro hFailed
    have hPart := hCompleted.part hFailed
    simp only [List.length_cons]
    omega

theorem Aborted.cons
    (hSucceeds : e.Succeeds shell)
    (hAborted : Aborted shell result w' es) :
    Aborted shell result w' (e :: es) := by
  rcases hAborted.last with
    ⟨done, d, failure, rfl, hDone, hRest⟩
  refine ⟨e :: done, d, failure, rfl, ?_, hRest⟩
  intro c hc
  rcases List.mem_cons.mp hc with rfl | hMem
  · exact hSucceeds
  · exact hDone c hMem

theorem Unprinted.cons
    {step : Step}
    (hSucceeds : e.Succeeds shell)
    (hUnprinted : Unprinted shell steps Shows result es) :
    Unprinted shell (step :: steps) Shows result (e :: es) where
  succeed := by
    intro d hd
    rcases List.mem_cons.mp hd with rfl | hMem
    · exact hSucceeds
    · exact hUnprinted.succeed d hMem
  whole := by
    rw [List.length_cons, List.length_cons, hUnprinted.whole]
  unprinted := hUnprinted.unprinted

------------------------------------------------------------
-- Commands that Have to Succeed
------------------------------------------------------------

/-
  A command has been announced and run, and has to succeed.
-/
structure Checked
    (shell : Shell)
    (text : Text)
    (w : World)
    (result : Except Failure Unit)
    (w' : World)
    (e : Execution) : Prop where
  isOf : e.IsOf shell text
  before : w.logger.Logged w.files e.before
  ran : w.Ran [e] w'
  files : w'.files = e.after
  result : result = verdict (shell e.command e.before).1

theorem succeeds_iff :
    e.Succeeds shell ↔
      verdict (shell e.command e.before).1 = .ok () :=
  verdict_eq_ok_iff.symm

theorem Checked.succeeds
    {text : Text}
    (hChecked : Checked shell text w (.ok ()) w' e) :
    e.Succeeds shell :=
  succeeds_iff.mpr hChecked.result.symm

theorem Checked.failed
    {text : Text}
    {failure : Failure}
    (hChecked : Checked shell text w (.error failure) w' e) :
    ¬ e.Succeeds shell := by
  rw [succeeds_iff, ← hChecked.result]
  rintro ⟨⟩

/- What was logged before a command stands before it, too. -/
theorem Checked.of_quiet
    {text : Text}
    {result : Except Failure Unit}
    (hChecked : Checked shell text v result w' e)
    (hRan : w.Ran [] v)
    (hFiles : w.logger.Logged w.files v.files) :
    Checked shell text w result w' e where
  isOf := hChecked.isOf
  before := by
    have hBefore := hChecked.before
    rw [hRan.logger] at hBefore
    exact hFiles.trans hBefore
  ran := hRan.trans hChecked.ran
  files := hChecked.files
  result := hChecked.result

theorem checked_of_ends
    {text : Text}
    {result : Except Failure Unit}
    (hEnds : Ends (check shell text) w result w') :
    ∃ e, Checked shell text w result w' e := by
  rcases ends_check_iff.mp hEnds with ⟨hResult, rfl⟩
  have hAnnounced : w.Ran [] (announced text w) :=
    World.ran_recorded _ w
  exact ⟨⟨text, (announced text w).files,
    (shell text (announced text w).files).2⟩,
    ⟨rfl, rfl⟩, w.logger.touches_writeFiles _ _,
    hAnnounced.trans (World.ran_executed shell text _), rfl,
    hResult⟩

------------------------------------------------------------
-- Composition
------------------------------------------------------------

/- A command that succeeds is followed by the rest of a plan. -/
theorem Follows.cons
    {step : Step}
    {u : World}
    (hChecked : Checked shell step.command w (.ok ()) u e)
    (hBefore : step.Before fs e.before)
    (hRan : u.Ran [] v)
    (hFollows :
      Follows shell steps last Shows e.after v result w' es) :
    Follows shell (step :: steps) last Shows fs w result w'
      (e :: es) where
  ran := (hChecked.ran.trans hRan).trans hFollows.ran
  course := .next hChecked.isOf hBefore hFollows.course
  ending :=
    hFollows.ending.imp
      (·.cons hChecked.succeeds)
      (Or.imp (·.cons hChecked.succeeds)
        (·.cons hChecked.succeeds))

/- A plan may be followed after what runs no command. -/
theorem Follows.of_quiet
    (hFollows :
      Follows shell steps last Shows fs v result w' es)
    (hRan : w.Ran [] v) :
    Follows shell steps last Shows fs w result w' es where
  ran := hRan.trans hFollows.ran
  course := hFollows.course
  ending := hFollows.ending

/- A plan without steps is complete. -/
theorem Follows.of_ok
    {a : α}
    (hRan : w.Ran [] w') :
    Follows shell [] [] Shows fs w (.ok a) w' [] where
  ran := hRan
  course := .stop _ fs
  ending := Or.inl ⟨by simp, by simp, by simp, by simp⟩

/- A plan without steps ends with a text that is not printed. -/
theorem Unprinted.of_encode
    {text : Text}
    {fault : Text.Fault}
    (hShows : Shows text)
    (hEncode : text.encode = .error fault) :
    Unprinted shell [] Shows
      (.error (.encoding fault) : Except Failure α) [] where
  succeed := by simp
  whole := rfl
  unprinted := ⟨text, fault, hShows, hEncode, rfl⟩

theorem Follows.of_unprinted
    (hRan : w.Ran [] w')
    (hUnprinted : Unprinted shell [] Shows result []) :
    Follows shell [] [] Shows fs w result w' [] where
  ran := hRan
  course := .stop _ fs
  ending := Or.inr (Or.inr hUnprinted)

/- The steps of a plan that is complete may be its last ones. -/
theorem Follows.steps_last
    {a : α}
    (hFollows :
      Follows shell steps [] Shows fs w (.ok a) w' es) :
    Follows shell [] steps Shows fs w (.ok a) w' es where
  ran := hFollows.ran
  course := by simpa using hFollows.course
  ending := by
    rcases hFollows.ending with
      hCompleted | hAborted | hUnprinted
    · refine Or.inl
        ⟨hCompleted.succeed, hCompleted.other, ?_, ?_⟩
      · intro hOk
        have hWhole := hCompleted.whole hOk
        simpa using hWhole
      · intro hFailed
        simp [Except.isOk, Except.toBool] at hFailed
    · rcases hAborted.last with ⟨_, _, _, _, _, _, _, hResult, _⟩
      cases hResult
    · rcases hUnprinted.unprinted with ⟨_, _, _, _, hResult⟩
      cases hResult

/- So may those of a plan that ends with an unprinted text. -/
theorem Follows.unprinted_last
    (hFollows :
      Follows shell steps [] Shows fs w result w' es)
    (hUnprinted : Unprinted shell steps Shows result es) :
    Follows shell [] steps Shows fs w result w' es where
  ran := hFollows.ran
  course := by simpa using hFollows.course
  ending := Or.inr (Or.inr hUnprinted)

/- An operation that succeeds has run all commands of a plan. -/
theorem Follows.commands_of_ok
    {a : α}
    (hFollows :
      Follows shell steps last Shows fs w (.ok a) w' es) :
    es.map Execution.command =
        (steps ++ last).map Step.command ∧
      ∀ e ∈ es, e.Succeeds shell := by
  rcases hFollows.ending with
    hCompleted | hAborted | hUnprinted
  · refine ⟨?_, hCompleted.succeed⟩
    apply hFollows.course.commands.eq_of_length
    rw [List.length_map, List.length_map, List.length_append]
    exact hCompleted.whole rfl
  · rcases hAborted.last with ⟨_, _, _, _, _, _, _, hResult, _⟩
    cases hResult
  · rcases hUnprinted.unprinted with ⟨_, _, _, _, hResult⟩
    cases hResult

/- Without a failure of a command, a plan may be left. -/
theorem Follows.of_error
    {failure : Failure}
    (hRan : w.Ran [] w')
    (hFailure : ∀ r, failure ≠ .command r) :
    Follows shell steps last Shows fs w
      (.error failure : Except Failure α) w' [] where
  ran := hRan
  course := .stop _ fs
  ending :=
    Or.inl
      ⟨by simp, fun r hSame =>
        hFailure r (Except.error.inj hSame), by
        intro hOk
        simp [Except.isOk, Except.toBool] at hOk, by simp⟩

/- A command that fails is the last one. -/
theorem Follows.of_failed
    {step : Step}
    {others : List Step}
    {failure : Failure}
    (hSteps : steps ++ last = step :: others)
    (hChecked :
      Checked shell step.command w (.error failure) w' e)
    (hBefore : step.Before fs e.before) :
    Follows shell steps last Shows fs w
      (.error failure : Except Failure α) w' [e] where
  ran := hChecked.ran
  course := by
    rw [hSteps]
    exact .next hChecked.isOf hBefore (.stop _ _)
  ending :=
    Or.inr (Or.inl
      ⟨[], e, failure, rfl, by simp, hChecked.failed,
        hChecked.result.symm, rfl, hChecked.files⟩)

end Session

end BiomeMigration
