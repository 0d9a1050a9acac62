import BiomeMigration.Proofs.Migration.Conduct
import BiomeMigration.Proofs.Migration.Deaf

/-
  The ways of answering the questions of a migration: the
  settings answer them, the user accepts all default answers,
  or lines are typed until one answers. Migrations that are
  answered alike do the same.

  Main declarations:
    * `Question.Yields`
    * `Migration.AnsweredAs`
    * `Migration.decided`
    * `Migration.run_agrees_of_answered`
-/

------------------------------------------------------------
-- Lines that Answer
------------------------------------------------------------

namespace BiomeMigration

open Session

namespace Question

/- The words for an answer, in small letters. -/
def words : Bool → List (List Char)
  | true => [['y'], ['y', 'e', 's']]
  | false => [['n'], ['n', 'o']]

/- The word on a line: no blanks around it, small letters. -/
def wordOn (line : String) : List Char :=
  Blank.lower (Blank.trim line.toList)

/-
  Lines answer a question, and the rest of them is left:
  after any number of lines with other words comes a word
  for the answer; a blank line and the end of the input stand
  for the default answer.
-/
inductive Yields (q : Question) :
    List (Option String) → Bool → List (Option String) →
      Prop where
  | word
      {line : String}
      {rest : List (Option String)}
      {answer : Bool}
      (hWord : wordOn line ∈ words answer) :
      Yields q (some line :: rest) answer rest
  | blank
      {line : String}
      {rest : List (Option String)}
      (hBlank : wordOn line = []) :
      Yields q (some line :: rest) q.default rest
  | ended : Yields q [] q.default []
  | other
      {line : String}
      {lines rest : List (Option String)}
      {answer : Bool}
      (hBlank : wordOn line ≠ [])
      (hOther : ∀ answer', wordOn line ∉ words answer')
      (hLater : Yields q lines answer rest) :
      Yields q (some line :: lines) answer rest

variable {q : Question} {line : String} {answer : Bool}

theorem reading_of_word
    (hWord : wordOn line ∈ words answer) :
    q.reading line = some answer := by
  unfold wordOn at hWord
  unfold reading
  cases answer with
  | true =>
      rcases List.mem_cons.mp hWord with hEq | hWord
      · simp [hEq]
      · simp [List.mem_singleton.mp hWord]
  | false =>
      rcases List.mem_cons.mp hWord with hEq | hWord
      · simp [hEq]
      · simp [List.mem_singleton.mp hWord]

theorem reading_of_blank
    (hBlank : wordOn line = []) :
    q.reading line = some q.default := by
  unfold wordOn at hBlank
  simp [reading, hBlank]

theorem reading_of_other
    (hBlank : wordOn line ≠ [])
    (hOther : ∀ answer', wordOn line ∉ words answer') :
    q.reading line = none := by
  have hYes := hOther true
  have hNo := hOther false
  unfold wordOn at hBlank hYes hNo
  simp only [words, List.mem_cons, List.not_mem_nil, or_false,
    not_or] at hYes hNo
  simp [reading, hBlank, hYes, hNo]

/- A conversation ends with the answer that lines yield. -/
theorem converse_of_yields
    {lines rest : List (Option String)}
    (hYields : q.Yields lines answer rest) :
    (q.converse lines).answer? = some answer ∧
      (q.converse lines).rest = rest := by
  induction hYields with
  | word hWord => simp [converse, reading_of_word hWord]
  | blank hBlank => simp [converse, reading_of_blank hBlank]
  | ended => exact ⟨rfl, rfl⟩
  | other hBlank hOther hLater ih =>
      simpa [converse, reading_of_other hBlank hOther] using ih

end Question

------------------------------------------------------------
-- Answered Migrations
------------------------------------------------------------

namespace Migration

/-
  A question of a migration is answered, and a rest of the
  lines is left. No line is taken if the settings answer it,
  or if the user accepts every default answer.
-/
inductive Gives
    (m : Migration)
    (choice? : Option Bool)
    (q : Question) :
    List (Option String) → Bool → List (Option String) →
      Prop where
  | preset
      {lines : List (Option String)}
      {choice : Bool}
      (hChoice : choice? = some choice) :
      Gives m choice? q lines choice lines
  | accepted
      {lines : List (Option String)}
      (hNone : choice? = none)
      (hYes : m.assumeYes = true) :
      Gives m choice? q lines q.default lines
  | typed
      {lines rest : List (Option String)}
      {answer : Bool}
      (hNone : choice? = none)
      (hYes : m.assumeYes = false)
      (hYields : q.Yields lines answer rest) :
      Gives m choice? q lines answer rest

/- The packages of the old tools in a project. -/
def legacyIn
    (m : Migration)
    (fs : FileSystem) : List Text :=
  match Manifest.read fs m.root with
  | .ok manifest => Legacy.packages manifest
  | .error _ => []

/-
  The questions of a migration are answered by two choices,
  and a rest of the lines is left. Without packages of the
  old tools, nothing has to be said about them.
-/
def AnsweredAs
    (m : Migration)
    (fs : FileSystem)
    (lines : List (Option String))
    (remove clean : Bool)
    (rest : List (Option String)) : Prop :=
  ∃ between,
    (if m.legacyIn fs = [] then between = lines
      else
        m.Gives m.settings.removeLegacy? removalQuestion lines
          remove between) ∧
      m.Gives m.settings.cleanComments? cleaningQuestion
        between clean rest

/- The user of a migration is asked nothing. -/
def Unasking (m : Migration) : Prop :=
  m.assumeYes = true ∨
    m.settings.removeLegacy?.isSome = true ∧
      m.settings.cleanComments?.isSome = true

/-
  Migrations that differ at most in how their questions are
  answered.
-/
structure SameTask (m m' : Migration) : Prop where
  root : m'.root = m.root
  version : m'.settings.version = m.settings.version
  runFix : m'.settings.runFix = m.settings.runFix

variable {m m' : Migration} {shell : Shell} {fs : FileSystem}
variable {lines rest : List (Option String)}
variable {remove clean answer : Bool}

theorem SameTask.refl (m : Migration) : m.SameTask m :=
  ⟨rfl, rfl, rfl⟩

theorem SameTask.survey_eq
    (hSame : m.SameTask m') :
    m'.survey = m.survey := by
  unfold survey
  rw [hSame.root]

theorem SameTask.legacyIn_eq
    (hSame : m.SameTask m')
    (fs : FileSystem) :
    m'.legacyIn fs = m.legacyIn fs := by
  unfold legacyIn
  rw [hSame.root]

theorem SameTask.changes_eq
    (hSame : m.SameTask m')
    (shell : Shell)
    (i : Inquiry) :
    m'.changes shell i = m.changes shell i := by
  unfold changes settleLegacy removeLegacy establish install
    addScripts scrub finish fix Inquiry.summary
  rw [hSame.root, hSame.version, hSame.runFix]

------------------------------------------------------------
-- Consulting the User
------------------------------------------------------------

/- An answer is found by prompts alone. -/
theorem ends_decide_of_gives
    {choice? : Option Bool}
    {q : Question}
    (hGives : m.Gives choice? q lines answer rest) :
    ∃ n, ∀ fs l journal,
      Ends (m.decide choice? q) ⟨fs, l, lines, journal⟩
        (.ok answer)
        ⟨fs, l, rest,
          journal ++ List.replicate n (.ask q.prompt)⟩ := by
  unfold decide
  cases hGives with
  | preset hChoice =>
      subst hChoice
      refine ⟨0, fun fs l journal => ?_⟩
      rw [List.replicate_zero, List.append_nil]
      exact ends_pure_iff.mpr ⟨rfl, rfl⟩
  | accepted hNone hYes =>
      subst hNone
      refine ⟨0, fun fs l journal => ?_⟩
      rw [List.replicate_zero, List.append_nil]
      dsimp only
      unfold Question.confirm
      rw [if_pos hYes]
      exact ends_pure_iff.mpr ⟨rfl, rfl⟩
  | typed hNone hYes hYields =>
      subst hNone
      rcases Question.converse_of_yields hYields with
        ⟨hAnswer, hRest⟩
      refine ⟨(q.converse lines).shown,
        fun fs l journal => ?_⟩
      dsimp only
      unfold Question.confirm
      rw [hYes]
      apply ends_ask_iff.mpr
      unfold asked
      dsimp only
      rw [hAnswer, hRest]
      exact ⟨rfl, rfl⟩

/- Consulting shows prompts, and finds the decisions. -/
theorem ends_consult_of_answered
    {s : Survey}
    (hLegacy : s.legacy = m.legacyIn fs)
    (hAnswered :
      m.AnsweredAs fs lines remove clean rest) :
    ∃ prompts : List Event,
      (∀ e ∈ prompts, e.isPrompt = true) ∧
        ∀ fs' l journal,
          Ends (m.consult s) ⟨fs', l, lines, journal⟩
            (.ok ⟨!s.legacy.isEmpty && remove, clean⟩)
            ⟨fs', l, rest, journal ++ prompts⟩ := by
  rcases hAnswered with ⟨between, hRemoval, hCleaning⟩
  have hRemoved :
      ∃ n, ∀ fs' l journal,
        Ends (m.consultRemoval s) ⟨fs', l, lines, journal⟩
          (.ok (!s.legacy.isEmpty && remove))
          ⟨fs', l, between,
            journal ++
              List.replicate n (.ask removalQuestion.prompt)⟩ := by
    unfold consultRemoval
    rw [← hLegacy] at hRemoval
    split at hRemoval
    · next hNil =>
        refine ⟨0, fun fs' l journal => ?_⟩
        rw [hNil, hRemoval, List.replicate_zero,
          List.append_nil]
        exact ends_pure_iff.mpr ⟨rfl, rfl⟩
    · next hSome =>
        rcases ends_decide_of_gives hRemoval with ⟨n, hEnds⟩
        have hNotEmpty : s.legacy.isEmpty = false := by
          simpa using hSome
        refine ⟨n, fun fs' l journal => ?_⟩
        rw [hNotEmpty]
        exact hEnds fs' l journal
  rcases hRemoved with ⟨n, hRemoved⟩
  rcases ends_decide_of_gives hCleaning with ⟨k, hCleaned⟩
  refine ⟨List.replicate n (.ask removalQuestion.prompt) ++
    List.replicate k (.ask cleaningQuestion.prompt), ?_, ?_⟩
  · intro e he
    rcases List.mem_append.mp he with hIn | hIn
    · rw [List.eq_of_mem_replicate hIn]
      rfl
    · rw [List.eq_of_mem_replicate hIn]
      rfl
  · intro fs' l journal
    rw [consult_eq, ← List.append_assoc]
    apply (hRemoved fs' l journal).bind
    apply (hCleaned fs' l _).bind
    exact ends_pure_iff.mpr ⟨rfl, rfl⟩

------------------------------------------------------------
-- Runs of Answered Migrations
------------------------------------------------------------

/- What happens, but for the prompts. -/
def unprompted (events : List Event) : List Event :=
  events.filter fun e => !e.isPrompt

theorem unprompted_append (events events' : List Event) :
    unprompted (events ++ events') =
      unprompted events ++ unprompted events' :=
  List.filter_append events events'

theorem unprompted_of_quiet
    {events : List Event}
    (hQuiet : ∀ e ∈ events, e.isPrompt = false) :
    unprompted events = events :=
  List.filter_eq_self.mpr fun e he => by simp [hQuiet e he]

theorem unprompted_of_prompts
    {events : List Event}
    (hPrompts : ∀ e ∈ events, e.isPrompt = true) :
    unprompted events = [] :=
  List.filter_eq_nil_iff.mpr fun e he => by
    simp [hPrompts e he]

/- Prompts run no commands. -/
theorem filterMap_execution?_unprompted (events : List Event) :
    (unprompted events).filterMap Event.execution? =
      events.filterMap Event.execution? := by
  induction events with
  | nil => rfl
  | cons e events ih =>
      unfold unprompted at ih ⊢
      cases e with
      | ask prompt => exact ih
      | run command before after =>
          exact congrArg (⟨command, before, after⟩ :: ·) ih
      | _ => exact ih

theorem run_eq_survey_bind
    (m : Migration)
    (shell : Shell) :
    m.run shell =
      m.survey >>= fun s =>
        present s >>= fun _ =>
          m.consult s >>= fun d => m.changes shell ⟨s, d⟩ := by
  rw [run_eq_inquiry_bind]
  unfold inquiry
  simp only [bind_assoc, pure_bind]

/- The survey finds the packages that are in the project. -/
theorem legacy_of_survey
    {w w' : World}
    {s : Survey}
    (hRuns : Runs m.survey w s w') :
    s.legacy = m.legacyIn w.files := by
  rcases runs_survey hRuns with ⟨manifest, hRead, hLegacy, _⟩
  unfold legacyIn
  rw [hRead]
  exact hLegacy

/-
  The choices settle what a migration does to a project. How
  it comes to be answered is only seen in the prompts and in
  the lines that are left.
-/
theorem exists_of_answered
    (m : Migration)
    (shell : Shell)
    (fs : FileSystem)
    (l : Logger)
    (remove clean : Bool) :
    ∃ result fs' events, ∀ m' lines rest,
      m.SameTask m' →
      m'.AnsweredAs fs lines remove clean rest →
        ∃ lines' events',
          unprompted events' = events ∧
            ∀ journal,
              Ends (m'.run shell) ⟨fs, l, lines, journal⟩
                result
                ⟨fs', l, lines', journal ++ events'⟩ := by
  rcases deaf_survey m fs l with
    ⟨found, fs₁, events₁, _, hQuiet₁, hSurvey⟩
  have hNone₁ := unprompted_of_quiet fun e he => (hQuiet₁ e he).1
  cases found with
  | error failure =>
      refine ⟨.error failure, fs₁, events₁, ?_⟩
      intro m' lines rest hSame _
      refine ⟨lines, events₁, hNone₁, fun journal => ?_⟩
      rw [run_eq_survey_bind, hSame.survey_eq]
      exact (hSurvey lines journal).bind_error _
  | ok s =>
      rcases deaf_present s fs₁ l with
        ⟨shown, fs₂, events₂, _, hQuiet₂, hPresent⟩
      have hNone₂ :=
        unprompted_of_quiet fun e he => (hQuiet₂ e he).1
      cases shown with
      | error failure =>
          refine ⟨.error failure, fs₂, events₁ ++ events₂, ?_⟩
          intro m' lines rest hSame _
          refine ⟨lines, events₁ ++ events₂, ?_,
            fun journal => ?_⟩
          · rw [unprompted_append, hNone₁, hNone₂]
          · rw [run_eq_survey_bind, hSame.survey_eq,
              ← List.append_assoc]
            apply (hSurvey lines journal).bind
            exact (hPresent lines _).bind_error _
      | ok u =>
          rcases deaf_changes m shell
              ⟨s, ⟨!s.legacy.isEmpty && remove, clean⟩⟩ fs₂ l
            with
            ⟨result, fs₃, events₃, _, hQuiet₃, hChanges⟩
          have hNone₃ :=
            unprompted_of_quiet fun e he => (hQuiet₃ e he).1
          refine ⟨result, fs₃, events₁ ++ events₂ ++ events₃,
            ?_⟩
          intro m' lines rest hSame hAnswered
          have hFound :
              Runs m.survey ⟨fs, l, lines, []⟩ s
                ⟨fs₁, l, lines, [] ++ events₁⟩ :=
            hSurvey lines []
          have hHere := legacy_of_survey hFound
          have hLegacy : s.legacy = m'.legacyIn fs := by
            rw [hSame.legacyIn_eq, hHere]
          rcases ends_consult_of_answered hLegacy hAnswered with
            ⟨prompts, hPrompts, hConsult⟩
          refine ⟨rest,
            events₁ ++ events₂ ++ prompts ++ events₃, ?_,
            fun journal => ?_⟩
          · rw [unprompted_append, unprompted_append,
              unprompted_append, hNone₁, hNone₂, hNone₃,
              unprompted_of_prompts hPrompts, List.append_nil]
          · rw [run_eq_survey_bind, hSame.survey_eq,
              ← List.append_assoc, ← List.append_assoc,
              ← List.append_assoc]
            apply (hSurvey lines journal).bind
            apply (hPresent lines _).bind
            apply (hConsult fs₂ l _).bind
            rw [hSame.changes_eq]
            exact hChanges rest _

/- A migration that asks nothing does not listen. -/
theorem Unasking.deaf_run
    (hUnasking : m.Unasking)
    (shell : Shell) :
    Deaf (m.run shell) := by
  have hDecide :
      ∀ {choice? q},
        m.assumeYes = true ∨ choice?.isSome = true →
          Deaf (m.decide choice? q) := by
    intro choice? q hSettled
    unfold decide
    cases choice? with
    | some choice => exact deaf_pure choice
    | none =>
        have hYes : m.assumeYes = true := by
          simpa using hSettled
        dsimp only
        unfold Question.confirm
        rw [if_pos hYes]
        exact deaf_pure _
  rw [run_eq_survey_bind]
  apply (deaf_survey m).bind
  intro s
  apply (deaf_present s).bind
  intro _
  refine Deaf.bind ?_ fun d => deaf_changes m shell ⟨s, d⟩
  rw [consult_eq]
  refine Deaf.bind ?_ fun removeLegacy =>
    Deaf.bind ?_ fun cleanComments => deaf_pure _
  · unfold consultRemoval
    split
    · exact deaf_pure false
    · exact hDecide (hUnasking.imp_right And.left)
  · exact hDecide (hUnasking.imp_right And.right)

/-
  Migrations of one project that are answered by the same
  choices have the same result and leave the same files, and
  the same happens but for the prompts; so the same commands
  are run in the same order. Where the settings answer both
  questions, or the user accepts every default answer, the
  lines are neither taken nor looked at, and nothing is asked.
-/
theorem run_agrees_of_answered (shell : Shell) :
    (∀ (m m' : Migration) (w w' : World)
        (remove clean : Bool)
        (rest rest' : List (Option String)),
      m.SameTask m' →
      w'.files = w.files →
      w'.logger = w.logger →
      m.AnsweredAs w.files w.lines remove clean rest →
      m'.AnsweredAs w'.files w'.lines remove clean rest' →
        ∃ result fs lines lines' events events',
          Ends (m.run shell) w result
              ⟨fs, w.logger, lines, w.journal ++ events⟩ ∧
            Ends (m'.run shell) w' result
              ⟨fs, w'.logger, lines', w'.journal ++ events'⟩ ∧
            unprompted events = unprompted events' ∧
            events.filterMap Event.execution? =
              events'.filterMap Event.execution?) ∧
      ∀ m : Migration, m.Unasking →
        ∀ fs l, ∃ result fs' events,
          (∀ e ∈ events, e.isPrompt = false) ∧
            ∀ lines journal,
              Ends (m.run shell) ⟨fs, l, lines, journal⟩ result
                ⟨fs', l, lines, journal ++ events⟩ := by
  constructor
  · intro m m' w w' remove clean rest rest' hSame hFiles
      hLogger hFirst hSecond
    rcases w with ⟨fs, l, lines, journal⟩
    rcases w' with ⟨fs', l', lines', journal'⟩
    subst hFiles hLogger
    rcases exists_of_answered m shell fs' l' remove clean with
      ⟨result, after, events, hAll⟩
    rcases hAll m lines rest (SameTask.refl m) hFirst with
      ⟨left₁, events₁, hEvents₁, hEnds₁⟩
    rcases hAll m' lines' rest' hSame hSecond with
      ⟨left₂, events₂, hEvents₂, hEnds₂⟩
    have hAlike : unprompted events₁ = unprompted events₂ :=
      hEvents₁.trans hEvents₂.symm
    refine ⟨result, after, left₁, left₂, events₁, events₂,
      hEnds₁ journal, hEnds₂ journal', hAlike, ?_⟩
    rw [← filterMap_execution?_unprompted, hAlike,
      filterMap_execution?_unprompted]
  · intro m hUnasking fs l
    rcases hUnasking.deaf_run shell fs l with
      ⟨result, fs', events, _, hQuiet, hEnds⟩
    exact ⟨result, fs', events, fun e he => (hQuiet e he).1,
      hEnds⟩

/- A project whose settings answer both questions. -/
def presetProject : Migration where
  root := ⟨.root, []⟩
  settings :=
    { version := "2"
      removeLegacy? := some true
      cleanComments? := some false
      runFix := true }
  assumeYes := false

/-
  One who answers on the third line, and refuses on the next
  one, is served like one whose settings say so.
-/
theorem run_agrees_askingProject :
    askingProject.SameTask presetProject ∧
      askingProject.AnsweredAs
        (loggedWorld fileLogger []).files
        [some "?", some "yess", some " YES ", some "n"]
        true false [] ∧
      presetProject.AnsweredAs
        (loggedWorld fileLogger []).files [none] true false
        [none] ∧
      presetProject.Unasking ∧
      (∃ result fs lines lines' events events',
        Ends (askingProject.run failingShell)
            (loggedWorld fileLogger
              [some "?", some "yess", some " YES ", some "n"])
            result ⟨fs, fileLogger, lines, events⟩ ∧
          Ends (presetProject.run failingShell)
            (loggedWorld fileLogger [none])
            result ⟨fs, fileLogger, lines', events'⟩ ∧
          unprompted events = unprompted events' ∧
          events.filterMap Event.execution? =
            events'.filterMap Event.execution?) ∧
      ∃ result fs events,
        (∀ e ∈ events, e.isPrompt = false) ∧
          Ends (presetProject.run failingShell)
            (loggedWorld fileLogger [none]) result
            ⟨fs, fileLogger, [none], events⟩ := by
  have hLegacy :
      askingProject.legacyIn (loggedWorld fileLogger []).files ≠
        [] := by
    decide +kernel
  have hSame : askingProject.SameTask presetProject :=
    ⟨rfl, rfl, rfl⟩
  have hTyped :
      askingProject.AnsweredAs
        (loggedWorld fileLogger []).files
        [some "?", some "yess", some " YES ", some "n"]
        true false [] := by
    refine ⟨[some "n"], ?_, .typed rfl rfl ?_⟩
    · rw [if_neg hLegacy]
      refine .typed rfl rfl ?_
      apply Question.Yields.other (by decide +kernel)
        (by decide +kernel)
      apply Question.Yields.other (by decide +kernel)
        (by decide +kernel)
      exact .word (by decide +kernel)
    · exact .word (by decide +kernel)
  have hPreset :
      presetProject.AnsweredAs
        (loggedWorld fileLogger []).files [none] true false
        [none] := by
    refine ⟨[none], ?_, .preset rfl⟩
    have hSome :
        presetProject.legacyIn
            (loggedWorld fileLogger []).files ≠ [] := by
      rw [hSame.legacyIn_eq]
      exact hLegacy
    rw [if_neg hSome]
    exact .preset rfl
  have hUnasking : presetProject.Unasking :=
    Or.inr ⟨rfl, rfl⟩
  rcases run_agrees_of_answered failingShell with
    ⟨hAgree, hAlone⟩
  refine ⟨hSame, hTyped, hPreset, hUnasking, ?_, ?_⟩
  · exact hAgree askingProject presetProject
      (loggedWorld fileLogger
        [some "?", some "yess", some " YES ", some "n"])
      (loggedWorld fileLogger [none]) true false [] [none]
      hSame rfl rfl hTyped hPreset
  · rcases hAlone presetProject hUnasking
        (loggedWorld fileLogger []).files fileLogger with
      ⟨result, fs, events, hQuiet, hEnds⟩
    exact ⟨result, fs, events, hQuiet, hEnds [none] []⟩

end Migration

end BiomeMigration
