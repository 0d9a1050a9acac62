import BiomeMigration.Proofs.Session.Ends

/-
  Operations that do not listen to the user. What they do is
  settled by the files and the logger alone, whatever the
  lines of the input are; they ask nothing, and they report
  no error.

  Main declarations:
    * `Session.Deaf`
    * `Session.Deaf.bind`
    * `Session.deaf_log`
    * `Session.deaf_check`
    * `Session.deaf_mapM`
-/

------------------------------------------------------------
-- Events and Failures
------------------------------------------------------------

namespace BiomeMigration

/- A prompt is shown. -/
def Event.isPrompt : Event → Bool
  | .ask _ => true
  | _ => false

/- An error is logged, or something worse. -/
def Event.isError : Event → Bool
  | .record r => r.level.passes .error
  | _ => false

/-
  A failure of the work on a project. It is no fault of the
  settings or of the log file.
-/
def Failure.isOfWork : Failure → Bool
  | .settings _ => false
  | .settingsRoot => false
  | .settingsValue _ => false
  | .namelessLog => false
  | _ => true

namespace Session

------------------------------------------------------------
-- Deaf Operations
------------------------------------------------------------

/-
  An operation does not listen: from given files and with a
  given logger it always has the same result, leaves the same
  files, and adds the same events, and it takes no line.
-/
def Deaf
    {α : Type}
    (x : Session α) : Prop :=
  ∀ fs l, ∃ result fs' events,
    (∀ failure, result = .error failure →
      failure.isOfWork = true) ∧
      (∀ e ∈ events, e.isPrompt = false ∧ e.isError = false) ∧
      ∀ lines journal,
        Ends x ⟨fs, l, lines, journal⟩ result
          ⟨fs', l, lines, journal ++ events⟩

variable {α β : Type}

/- An operation that changes nothing, and does not fail. -/
theorem deaf_of_result
    {x : Session α}
    (result : FileSystem → Except Failure α)
    (hFailure :
      ∀ fs failure, result fs = .error failure →
        failure.isOfWork = true)
    (hEnds : ∀ w, Ends x w (result w.files) w) :
    Deaf x := by
  intro fs l
  refine ⟨result fs, fs, [], hFailure fs, by simp, ?_⟩
  intro lines journal
  rw [List.append_nil]
  exact hEnds _

theorem deaf_pure (a : α) : Deaf (pure a : Session α) :=
  deaf_of_result (fun _ => .ok a) (by simp)
    fun _ => ends_pure_iff.mpr ⟨rfl, rfl⟩

theorem deaf_throw
    {failure : Failure}
    (hWork : failure.isOfWork = true) :
    Deaf (throw failure : Session α) := by
  refine deaf_of_result (fun _ => .error failure) ?_
    fun _ => ends_throw_iff.mpr ⟨rfl, rfl⟩
  intro _ other hSame
  rw [← Except.error.inj hSame]
  exact hWork

theorem Deaf.bind
    {x : Session α}
    {f : α → Session β}
    (hFirst : Deaf x)
    (hThen : ∀ a, Deaf (f a)) :
    Deaf (x >>= f) := by
  intro fs l
  rcases hFirst fs l with
    ⟨result, fs₁, events₁, hWork₁, hQuiet₁, hEnds₁⟩
  cases result with
  | error failure =>
      refine ⟨.error failure, fs₁, events₁, ?_, hQuiet₁, ?_⟩
      · intro other hSame
        rw [← Except.error.inj hSame]
        exact hWork₁ failure rfl
      · intro lines journal
        exact (hEnds₁ lines journal).bind_error f
  | ok a =>
      rcases hThen a fs₁ l with
        ⟨result, fs₂, events₂, hWork₂, hQuiet₂, hEnds₂⟩
      refine ⟨result, fs₂, events₁ ++ events₂, hWork₂, ?_, ?_⟩
      · intro e he
        rcases List.mem_append.mp he with hIn | hIn
        · exact hQuiet₁ e hIn
        · exact hQuiet₂ e hIn
      · intro lines journal
        rw [← List.append_assoc]
        exact (hEnds₁ lines journal).bind (hEnds₂ lines _)

------------------------------------------------------------
-- Files
------------------------------------------------------------

theorem deaf_files : Deaf files :=
  deaf_of_result (fun fs => .ok fs) (by simp)
    ends_files

theorem deaf_ofExcept
    {given : Except Failure α}
    (hGiven :
      ∀ failure, given = .error failure →
        failure.isOfWork = true) :
    Deaf (ofExcept given) :=
  deaf_of_result (fun _ => given) (fun _ => hGiven)
    fun _ => ends_ofExcept_iff.mpr ⟨rfl, rfl⟩

/- A fault of a path is met at work. -/
theorem isOfWork_of_mapError_path
    {given : Except PathFault α}
    {failure : Failure}
    (hFailed : given.mapError .path = .error failure) :
    failure.isOfWork = true := by
  cases given with
  | ok a => cases hFailed
  | error fault =>
      rw [← Except.error.inj hFailed]
      rfl

theorem deaf_ofFiles
    (look : FileSystem → Except PathFault α) :
    Deaf (ofFiles look) :=
  deaf_of_result
    (fun fs => (look fs).mapError .path)
    (fun _ _ => isOfWork_of_mapError_path)
    fun _ => ends_ofFiles_iff.mpr ⟨rfl, rfl⟩

theorem deaf_setFiles (fs : FileSystem) :
    Deaf (setFiles fs) := by
  intro _ l
  refine ⟨.ok (), fs, [], by simp, by simp, ?_⟩
  intro lines journal
  rw [List.append_nil]
  exact ends_setFiles fs _

theorem deaf_writeText
    (p : Path)
    (t : Text) :
    Deaf (writeText p t) := by
  unfold writeText
  apply deaf_files.bind
  intro fs
  dsimp only
  apply (deaf_setFiles _).bind
  intro _
  apply deaf_ofExcept
  intro failure hSame
  unfold FileSystem.writeText at hSame
  split at hSame
  · rw [← Except.error.inj hSame]
    rfl
  · split at hSame
    · rw [← Except.error.inj hSame]
      rfl
    · split at hSame
      · rw [← Except.error.inj hSame]
        rfl
      · cases hSame

------------------------------------------------------------
-- Output and Commands
------------------------------------------------------------

theorem deaf_note
    {event : Event}
    (hPrompt : event.isPrompt = false)
    (hError : event.isError = false) :
    Deaf (note event) := by
  intro fs l
  refine ⟨.ok (), fs, [event], by simp, ?_, ?_⟩
  · simp [hPrompt, hError]
  · intro lines journal
    exact ends_note event _

/- A text may be one that cannot be printed. -/
theorem deaf_echo (text : Text) : Deaf (echo text) := by
  unfold echo
  split
  · exact deaf_note rfl rfl
  · exact deaf_throw rfl

/- What a record shows on the console is no record. -/
theorem quiet_of_mem_shownBy
    {l : Logger}
    {r : Record} :
    ∀ e ∈ shownBy l r,
      e.isPrompt = false ∧ e.isError = false := by
  intro e he
  unfold shownBy at he
  split at he
  · rw [List.mem_singleton.mp he]
    exact ⟨rfl, rfl⟩
  · cases he

theorem deaf_log
    {level : Level}
    (hLevel : level.passes .error = false)
    (name : String)
    (message : Text) :
    Deaf (log level name message) := by
  intro fs l
  let r : Record :=
    ⟨level, Record.sourceOf name, message, none, none⟩
  refine ⟨.ok (), l.writeFiles r fs,
    [.record r] ++ shownBy l r, by simp, ?_, ?_⟩
  · intro e he
    rcases List.mem_append.mp he with hIn | hIn
    · rw [List.mem_singleton.mp hIn]
      exact ⟨rfl, hLevel⟩
    · exact quiet_of_mem_shownBy e hIn
  · intro lines journal
    rw [← List.append_assoc]
    exact ends_log level name message _

/- A result may be logged before it is returned. -/
theorem deaf_log_pure
    {level : Level}
    (hLevel : level.passes .error = false)
    (name : String)
    (message : Text)
    (a : α) :
    Deaf
      (do
        log level name message
        return a) :=
  (deaf_log hLevel name message).bind fun _ => deaf_pure a

/- A command without a result is met at work. -/
theorem isOfWork_of_mapError_failure
    {ran : Except CommandFault CommandResult}
    {failure : Failure}
    (hFailed :
      ran.mapError CommandFault.failure = .error failure) :
    failure.isOfWork = true := by
  cases ran with
  | ok r => cases hFailed
  | error fault =>
      rw [← Except.error.inj hFailed]
      cases fault <;> rfl

theorem deaf_execute
    (shell : Shell)
    (command : Text) :
    Deaf (execute shell command) := by
  intro fs l
  refine ⟨(shell command fs).1.mapError CommandFault.failure,
    (shell command fs).2,
    [.run command fs (shell command fs).2],
    fun _ => isOfWork_of_mapError_failure, ?_, ?_⟩
  · simp [Event.isPrompt, Event.isError]
  · intro lines journal
    exact ends_execute shell command _

theorem deaf_check
    (shell : Shell)
    (command : Text) :
    Deaf (check shell command) := by
  unfold check Session.command
  refine Deaf.bind
    ((deaf_log rfl _ _).bind fun _ => deaf_execute shell command)
    ?_
  intro result
  split
  · exact deaf_throw rfl
  · exact deaf_pure ()

/- An operation that is repeated for each entry of a list. -/
theorem deaf_mapM
    {f : α → Session β}
    (hEach : ∀ a, Deaf (f a))
    (as : List α) :
    Deaf (as.mapM f) := by
  induction as with
  | nil => exact deaf_pure []
  | cons a as ih =>
      rw [List.mapM_cons]
      apply (hEach a).bind
      intro b
      apply ih.bind
      intro bs
      exact deaf_pure _

end Session

end BiomeMigration
