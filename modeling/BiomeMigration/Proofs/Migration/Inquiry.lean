import BiomeMigration.Migration
import BiomeMigration.Proofs.Session.Keeps

/-
  A migration up to its last answer: looking at the project
  and asking. A relation between worlds that is kept by
  logging and by asking is kept by all of it, and at most two
  questions are asked.

  Main declarations:
    * `Probe.keeps_detect`
    * `Migration.inquiry`
    * `Migration.run_eq_inquiry_bind`
    * `Migration.keeps_inquiry`
    * `Migration.Asks`
    * `Migration.asks_of_inquiry`
-/

------------------------------------------------------------
-- The Package Manager
------------------------------------------------------------

namespace BiomeMigration

open Session

variable {R : World → World → Prop}

namespace Probe

theorem keeps_declared (hR : Steady R) (p : Path) :
    Keeps R (declared p) := by
  unfold declared
  apply (keeps_files hR).bind hR
  intro fs
  split
  · exact keeps_pure hR _
  · split
    · exact keeps_throw hR (by simp)
    · exact keeps_log_pure hR _ _ _ none

theorem keeps_declaredAt (hR : Steady R) (p : Path) :
    Keeps R (declaredAt p) := by
  unfold declaredAt
  apply (keeps_declared hR p).bind hR
  intro manager?
  split
  · exact keeps_log_pure hR _ _ _ _
  · exact keeps_pure hR none

theorem keeps_local? (hR : Steady R) (root : Path) :
    Keeps R (local? root) := by
  unfold local?
  apply (keeps_ofFiles hR _).bind hR
  intro isThere
  split
  · exact keeps_declaredAt hR _
  · exact keeps_pure hR none

theorem keeps_above? (hR : Steady R) (root : Path) :
    Keeps R (above? root) := by
  unfold above?
  split
  · exact keeps_pure hR none
  · apply (keeps_ofFiles hR _).bind hR
    intro found?
    split
    · exact keeps_declaredAt hR _
    · exact keeps_pure hR none

theorem keeps_locked?
    (hR : Steady R)
    (root : Path)
    (candidates : List (Manager × String)) :
    Keeps R (locked? root candidates) := by
  induction candidates with
  | nil => exact keeps_pure hR none
  | cons candidate candidates ih =>
      rcases candidate with ⟨manager, name⟩
      unfold locked?
      apply (keeps_ofFiles hR _).bind hR
      intro found?
      split
      · exact keeps_log_pure hR _ _ _ _
      · exact ih

theorem keeps_detect (hR : Steady R) (root : Path) :
    Keeps R (detect root) := by
  unfold detect
  apply (keeps_ofFiles hR _).bind hR
  intro real
  apply (keeps_local? hR real).bind hR
  intro declared?
  split
  · exact keeps_pure hR _
  · apply (keeps_above? hR real).bind hR
    intro above?
    split
    · exact keeps_pure hR _
    · apply (keeps_locked? hR real lockfiles).bind hR
      intro locked?
      exact keeps_pure hR _

end Probe

------------------------------------------------------------
-- Looking and Asking
------------------------------------------------------------

/- Reading a manifest does not fail by a command. -/
theorem Manifest.read_ne_command
    (fs : FileSystem)
    (root : Path)
    (r : CommandResult) :
    Manifest.read fs root ≠ .error (.command r) := by
  intro hSame
  unfold Manifest.read at hSame
  dsimp only at hSame
  cases hThere : fs.exists? (root.child fileName) with
  | error fault =>
      rw [hThere] at hSame
      cases hSame
  | ok isThere =>
      rw [hThere] at hSame
      cases isThere with
      | false => cases hSame
      | true =>
          cases hJson : fs.readJson (root.child fileName) with
          | error cause =>
              have hFailure : failureOf cause = .command r := by
                rw [hJson] at hSame
                exact Except.error.inj hSame
              unfold failureOf at hFailure
              split at hFailure
              · cases hFailure
              · cases hFailure
          | ok v =>
              rw [hJson] at hSame
              cases v <;> cases hSame

namespace Migration

theorem keeps_say (hR : Steady R) (message : Text) :
    Keeps R (say message) :=
  keeps_log hR _ _ _

theorem keeps_survey (hR : Steady R) (m : Migration) :
    Keeps R m.survey := by
  unfold survey
  apply (keeps_files hR).bind hR
  intro fs
  apply (keeps_ofExcept hR
    (Manifest.read_ne_command fs m.root)).bind hR
  intro manifest
  apply (Probe.keeps_detect hR m.root).bind hR
  intro manager
  exact keeps_pure hR _

theorem keeps_present (hR : Steady R) (s : Survey) :
    Keeps R (present s) := by
  unfold present
  apply (keeps_echo hR _).bind hR
  intro _
  apply (keeps_say hR _).bind hR
  intro _
  apply (keeps_say hR _).bind hR
  intro _
  dsimp only
  split
  · apply (keeps_say hR _).bind hR
    intro _
    exact keeps_say hR _
  · exact keeps_say hR _

theorem keeps_decide
    (hR : Steady R)
    (m : Migration)
    (choice? : Option Bool)
    {q : Question}
    (hAsk : ∀ w, R w (asked q w)) :
    Keeps R (m.decide choice? q) := by
  unfold decide
  split
  · exact keeps_pure hR _
  · exact keeps_confirm hR hAsk m.assumeYes

/- Whether to remove the old tools, if there are any. -/
def consultRemoval (m : Migration) (s : Survey) : Session Bool :=
  if s.legacy.isEmpty then pure false
  else m.decide m.settings.removeLegacy? removalQuestion

/- Whether to clean the comments. -/
def consultCleaning (m : Migration) : Session Bool :=
  m.decide m.settings.cleanComments? cleaningQuestion

theorem consult_eq (m : Migration) (s : Survey) :
    m.consult s =
      m.consultRemoval s >>= fun removeLegacy =>
        m.consultCleaning >>= fun cleanComments =>
          pure ⟨removeLegacy, cleanComments⟩ := by
  unfold consult consultRemoval consultCleaning
  dsimp only
  split
  · rw [pure_bind]
  · rfl

theorem keeps_consultRemoval
    (hR : Steady R)
    (m : Migration)
    (s : Survey)
    (hAsk : ∀ w, R w (asked removalQuestion w)) :
    Keeps R (m.consultRemoval s) := by
  unfold consultRemoval
  split
  · exact keeps_pure hR false
  · exact keeps_decide hR m _ hAsk

theorem keeps_consult
    (hR : Steady R)
    (m : Migration)
    (s : Survey)
    (hAsk : ∀ q w, R w (asked q w)) :
    Keeps R (m.consult s) := by
  rw [consult_eq]
  apply (keeps_consultRemoval hR m s (hAsk _)).bind hR
  intro removeLegacy
  apply (keeps_decide hR m _ (hAsk _)).bind hR
  intro cleanComments
  exact keeps_pure hR _

------------------------------------------------------------
-- Up to the Last Answer
------------------------------------------------------------

/- What is found and decided before anything is changed. -/
structure Inquiry where
  survey : Survey
  decisions : Decisions

/- A migration up to its last answer. -/
def inquiry (m : Migration) : Session Inquiry := do
  let s ← m.survey
  present s
  let d ← m.consult s
  return ⟨s, d⟩

/- What is said at the end about what was found and done. -/
def Inquiry.summary
    (i : Inquiry)
    (m : Migration)
    (written typescript : Bool)
    (report : Scrub.Report) : Summary where
  archetype := i.survey.archetype
  manager := i.survey.manager
  version := m.settings.version
  legacy := i.survey.legacy
  legacyRemoved := i.decisions.removeLegacy
  configWritten := written
  typescript := typescript
  figures := figures report

/- A migration from its last command on. -/
def finish
    (m : Migration)
    (shell : Shell)
    (i : Inquiry)
    (written typescript : Bool)
    (report : Scrub.Report) : Session Outcome := do
  m.fix shell i.survey
  let summary := i.summary m written typescript report
  Session.echo summary.text
  return ⟨summary, report⟩

/- A migration from the installation on. -/
def establish
    (m : Migration)
    (shell : Shell)
    (i : Inquiry) : Session Outcome := do
  m.install shell i.survey
  let written ←
    Biome.write m.root i.survey.archetype
      m.settings.version
  let typescript ← m.addScripts i.survey
  let report ← m.scrub i.decisions
  m.finish shell i written typescript report

/- A migration from its last answer on. -/
def changes
    (m : Migration)
    (shell : Shell)
    (i : Inquiry) : Session Outcome := do
  m.settleLegacy shell i.survey i.decisions
  m.establish shell i

theorem run_eq_inquiry_bind
    (m : Migration)
    (shell : Shell) :
    m.run shell = m.inquiry >>= m.changes shell := by
  unfold run inquiry changes establish finish Inquiry.summary
  simp only [bind_assoc, pure_bind]

theorem keeps_inquiry
    (hR : Steady R)
    (m : Migration)
    (hAsk : ∀ q w, R w (asked q w)) :
    Keeps R m.inquiry := by
  unfold inquiry
  apply (keeps_survey hR m).bind hR
  intro s
  apply (keeps_present hR s).bind hR
  intro _
  apply (keeps_consult hR m s hAsk).bind hR
  intro d
  exact keeps_pure hR _

variable {m : Migration} {w w' : World}

/- The survey is about the manifest and the package manager. -/
theorem runs_survey
    {s : Survey}
    (hRuns : Runs m.survey w s w') :
    ∃ manifest,
      Manifest.read w.files m.root = .ok manifest ∧
        s.legacy = Legacy.packages manifest ∧
        s.archetype = .ofManifest manifest ∧
        Runs (Probe.detect m.root) w s.manager w' := by
  unfold survey at hRuns
  rcases runs_bind_iff.mp hRuns with ⟨fs, w₁, hFiles, hRuns₁⟩
  rcases runs_files_iff.mp hFiles with ⟨rfl, rfl⟩
  rcases runs_bind_iff.mp hRuns₁ with
    ⟨manifest, w₂, hExcept, hRuns₂⟩
  rcases runs_ofExcept_iff.mp hExcept with ⟨hRead, rfl⟩
  rcases runs_bind_iff.mp hRuns₂ with
    ⟨manager, w₃, hDetect, hPure⟩
  rcases runs_pure_iff.mp hPure with ⟨rfl, rfl⟩
  exact ⟨manifest, hRead, rfl, rfl, hDetect⟩

------------------------------------------------------------
-- Questions
------------------------------------------------------------

/-
  The reply to a question: what the settings say, the default
  answer for one who is not asked, or what the lines answer,
  unless they interrupt it.
-/
def reply
    (m : Migration)
    (choice? : Option Bool)
    (q : Question)
    (lines : List (Option String)) : Option Bool :=
  match choice? with
  | some choice => some choice
  | none =>
      if m.assumeYes then some q.default
      else (q.converse lines).answer?

/- A question is not put, or asked until it is settled. -/
theorem ends_decide
    {choice? : Option Bool}
    {q : Question}
    {result : Except Failure Bool}
    (hEnds : Ends (m.decide choice? q) w result w') :
    (result =
      match m.reply choice? q w.lines with
      | some answer => .ok answer
      | none => .error .interrupted) ∧
      (w' = w ∧ result.isOk = true ∨
        choice? = none ∧ w' = asked q w ∧
          result.isOk = (q.converse w.lines).answer?.isSome) := by
  unfold decide at hEnds
  unfold reply
  cases choice? with
  | some choice =>
      rcases ends_pure_iff.mp hEnds with ⟨rfl, rfl⟩
      exact ⟨rfl, Or.inl ⟨rfl, rfl⟩⟩
  | none =>
      unfold Question.confirm at hEnds
      dsimp only at hEnds ⊢
      cases hYes : m.assumeYes with
      | true =>
          rw [hYes, if_pos rfl] at hEnds
          rcases ends_pure_iff.mp hEnds with ⟨rfl, rfl⟩
          exact ⟨rfl, Or.inl ⟨rfl, rfl⟩⟩
      | false =>
          rw [hYes] at hEnds
          rcases ends_ask_iff.mp hEnds with ⟨hResult, hWorld⟩
          refine ⟨hResult, Or.inr ⟨rfl, hWorld, ?_⟩⟩
          rw [hResult]
          cases (q.converse w.lines).answer? with
          | some answer => rfl
          | none => rfl

/-
  The prompts of questions that are asked one after the
  other, until one is interrupted.
-/
def promptsOf :
    List Question → List (Option String) → List String
  | [], _ => []
  | q :: questions, lines =>
      let talk := q.converse lines
      List.replicate talk.shown q.prompt ++
        if talk.answer?.isSome then promptsOf questions talk.rest
        else []

/-
  The questions of a migration for a project: at most two,
  and none that is already settled or has no object.
-/
structure Asks
    (m : Migration)
    (fs : FileSystem)
    (questions : List Question) : Prop where
  order : questions.Sublist [removalQuestion, cleaningQuestion]
  removal :
    removalQuestion ∈ questions →
      m.settings.removeLegacy? = none ∧
        ∃ manifest,
          Manifest.read fs m.root = .ok manifest ∧
            Legacy.packages manifest ≠ []
  cleaning :
    cleaningQuestion ∈ questions →
      m.settings.cleanComments? = none

theorem Asks.nil (m : Migration) (fs : FileSystem) :
    m.Asks fs [] :=
  ⟨by simp, by simp, by simp⟩

theorem removalQuestion_ne_cleaningQuestion :
    removalQuestion ≠ cleaningQuestion := by
  decide

/- Cleaning is asked about last. -/
theorem prompts_of_consultCleaning
    {result : Except Failure Bool}
    (hEnds : Ends m.consultCleaning w result w') :
    w'.prompts = w.prompts ∨
      m.settings.cleanComments? = none ∧
        w'.prompts =
          w.prompts ++ promptsOf [cleaningQuestion] w.lines := by
  rcases (ends_decide hEnds).2 with
    ⟨rfl, _⟩ | ⟨hNone, rfl, _⟩
  · exact Or.inl rfl
  · refine Or.inr ⟨hNone, ?_⟩
    rw [World.prompts_asked]
    simp [promptsOf]

/- Nothing is asked about packages that are not there. -/
theorem ends_consultRemoval
    {s : Survey}
    {result : Except Failure Bool}
    (hEnds : Ends (m.consultRemoval s) w result w') :
    w' = w ∧ result.isOk = true ∨
      s.legacy ≠ [] ∧ m.settings.removeLegacy? = none ∧
        w' = asked removalQuestion w ∧
        result.isOk =
          (removalQuestion.converse w.lines).answer?.isSome := by
  unfold consultRemoval at hEnds
  split at hEnds
  · rcases ends_pure_iff.mp hEnds with ⟨rfl, rfl⟩
    exact Or.inl ⟨rfl, rfl⟩
  · next hLegacy =>
      rcases (ends_decide hEnds).2 with hQuiet | hAsked
      · exact Or.inl hQuiet
      · refine Or.inr ⟨?_, hAsked⟩
        rintro hNil
        rw [hNil] at hLegacy
        exact hLegacy rfl

/- The questions come one after the other. -/
theorem prompts_of_consult
    {s : Survey}
    {result : Except Failure Decisions}
    (hEnds : Ends (m.consult s) w result w') :
    ∃ questions,
      questions.Sublist [removalQuestion, cleaningQuestion] ∧
        (removalQuestion ∈ questions →
          m.settings.removeLegacy? = none ∧ s.legacy ≠ []) ∧
        (cleaningQuestion ∈ questions →
          m.settings.cleanComments? = none) ∧
        w'.prompts =
          w.prompts ++ promptsOf questions w.lines := by
  have hOther := removalQuestion_ne_cleaningQuestion
  rw [consult_eq] at hEnds
  rcases ends_bind_iff.mp hEnds with
    ⟨failure, hFailed, _⟩ | ⟨removeLegacy, v, hRemoval, hRest⟩
  · rcases ends_consultRemoval hFailed with
      ⟨_, hOk⟩ | ⟨hLegacy, hNone, rfl, hOk⟩
    · simp [Except.isOk, Except.toBool] at hOk
    · refine ⟨[removalQuestion], by simp,
        fun _ => ⟨hNone, hLegacy⟩, ?_, ?_⟩
      · intro hMem
        exact (hOther (List.mem_singleton.mp hMem).symm).elim
      · rw [World.prompts_asked]
        simp [promptsOf]
  · have hCleaning :
        ∃ result, Ends m.consultCleaning v result w' := by
      rcases ends_bind_iff.mp hRest with
        ⟨failure, hFailed, _⟩ | ⟨b, u, hRan, hPure⟩
      · exact ⟨_, hFailed⟩
      · rcases ends_pure_iff.mp hPure with ⟨_, rfl⟩
        exact ⟨_, hRan⟩
    rcases hCleaning with ⟨answer, hCleaning⟩
    rcases ends_consultRemoval hRemoval with
      ⟨rfl, _⟩ | ⟨hLegacy, hNone, rfl, hOk⟩
    · rcases prompts_of_consultCleaning hCleaning with
        hSame | ⟨hUnset, hPrompts⟩
      · exact ⟨[], by simp, by simp, by simp,
          by simpa [promptsOf] using hSame⟩
      · refine ⟨[cleaningQuestion], by simp, ?_,
          fun _ => hUnset, hPrompts⟩
        intro hMem
        exact (hOther (List.mem_singleton.mp hMem)).elim
    · have hAnswered :
          (removalQuestion.converse w.lines).answer?.isSome =
            true :=
        hOk.symm
      rcases prompts_of_consultCleaning hCleaning with
        hSame | ⟨hUnset, hPrompts⟩
      · refine ⟨[removalQuestion], by simp,
          fun _ => ⟨hNone, hLegacy⟩, ?_, ?_⟩
        · intro hMem
          exact (hOther (List.mem_singleton.mp hMem).symm).elim
        · rw [hSame, World.prompts_asked]
          simp [promptsOf]
      · refine ⟨[removalQuestion, cleaningQuestion],
          List.Sublist.refl _, fun _ => ⟨hNone, hLegacy⟩,
          fun _ => hUnset, ?_⟩
        rw [hPrompts, World.prompts_asked, List.append_assoc]
        simp only [promptsOf, hAnswered, if_true]
        rfl

/- The questions that are asked before anything is changed. -/
theorem asks_of_inquiry
    {result : Except Failure Inquiry}
    (hEnds : Ends m.inquiry w result w') :
    ∃ questions,
      m.Asks w.files questions ∧
        w'.prompts =
          w.prompts ++ promptsOf questions w.lines := by
  have hSteady := World.steady_input
  have hQuiet :
      w'.prompts = w.prompts →
        ∃ questions,
          m.Asks w.files questions ∧
            w'.prompts =
              w.prompts ++ promptsOf questions w.lines :=
    fun hSame =>
      ⟨[], Asks.nil m w.files, by simpa [promptsOf] using hSame⟩
  unfold inquiry at hEnds
  rcases ends_bind_iff.mp hEnds with
    ⟨failure, hFailed, _⟩ | ⟨s, w₁, hSurvey, hRest⟩
  · exact hQuiet (keeps_survey hSteady m _ _ _ hFailed).1.2
  have hSurveyed := (keeps_survey hSteady m).of_runs hSurvey
  rcases ends_bind_iff.mp hRest with
    ⟨failure, hFailed, _⟩ | ⟨_, w₂, hPresent, hRest⟩
  · have hPresented := (keeps_present hSteady s _ _ _ hFailed).1
    exact hQuiet (hPresented.2.trans hSurveyed.2)
  have hPresented := (keeps_present hSteady s).of_runs hPresent
  have hConsult :
      ∃ result, Ends (m.consult s) w₂ result w' := by
    rcases ends_bind_iff.mp hRest with
      ⟨failure, hFailed, _⟩ | ⟨d, u, hRan, hPure⟩
    · exact ⟨_, hFailed⟩
    · rcases ends_pure_iff.mp hPure with ⟨_, rfl⟩
      exact ⟨_, hRan⟩
  rcases hConsult with ⟨_, hConsult⟩
  rcases prompts_of_consult hConsult with
    ⟨questions, hOrder, hRemoval, hCleaning, hPrompts⟩
  rcases runs_survey hSurvey with
    ⟨manifest, hRead, hLegacy, _, _⟩
  refine ⟨questions, ⟨hOrder, ?_, hCleaning⟩, ?_⟩
  · intro hMem
    rcases hRemoval hMem with ⟨hNone, hSome⟩
    exact ⟨hNone, manifest, hRead, hLegacy ▸ hSome⟩
  · rw [hPrompts, hPresented.1, hPresented.2, hSurveyed.1,
      hSurveyed.2]

end Migration

end BiomeMigration
