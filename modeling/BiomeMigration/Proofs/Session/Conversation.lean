import BiomeMigration.Proofs.Session.Ends
import BiomeMigration.Text.LetterCase

/-
  A conversation of several questions that share their lines:
  each question takes lines up to the first one that settles
  it, and once the lines have run out, each one that is left
  is given its default answer.

  Main declarations:
    * `LetterCase.lower_eq_iff`
    * `Question.Settles`
    * `Question.Turn`
    * `Question.exists_turn`
    * `Question.lines_split_between`
-/

------------------------------------------------------------
-- Small Letters of Answers
------------------------------------------------------------

namespace BiomeMigration

namespace LetterCase

/- The letters of the words that answer a question. -/
def answerLetters : List Char :=
  ['y', 'e', 's', 'n', 'o']

variable {c d : Char} {cs word : List Char}

theorem bounds_of_answerLetter :
    ∀ d ∈ answerLetters, 0 < d.toNat ∧ d.toNat < 0x80 := by
  decide

/-
  Of the capitals with one small letter, only the ASCII ones
  have a letter of an answer.
-/
theorem row_of_answerLetter :
    ∀ row ∈ rows, ∀ d ∈ answerLetters,
      (row.1 : Int) ≤ d.toNat - row.2.2.2 →
        (d.toNat : Int) - row.2.2.2 ≤ row.2.1 →
          row = (0x41, 0x5A, 1, 32) := by
  decide +kernel

theorem shift?_of_answerLetter
    {n : Nat}
    {shift : Int}
    (hLetter : d ∈ answerLetters)
    (hShift : shift? n = some shift)
    (hSmall : (n + shift).toNat = d.toNat) :
    0x41 ≤ n ∧ n ≤ 0x5A ∧ d.toNat = n + 32 := by
  rcases Option.map_eq_some_iff.mp hShift with
    ⟨⟨first, last, step, shift'⟩, hRow, hSame⟩
  dsimp only at hSame
  subst hSame
  have hIn := List.find?_some hRow
  simp only [Bool.and_eq_true, decide_eq_true_eq] at hIn
  have hPositive := (bounds_of_answerLetter d hLetter).1
  have hOnly :=
    row_of_answerLetter _ (List.mem_of_find?_eq_some hRow) d
      hLetter
  dsimp only at hOnly
  have hTable := hOnly (by omega) (by omega)
  simp only [Prod.mk.injEq] at hTable
  omega

theorem eq_of_ofNat
    {n : Nat}
    (hLetter : d ∈ answerLetters)
    (hPoint : CodePoint.ofNat n = .scalar d) :
    n = d.toNat := by
  have hPositive := (bounds_of_answerLetter d hLetter).1
  unfold CodePoint.ofNat at hPoint
  split at hPoint
  · cases hPoint
  · have hChar : Char.ofNat n = d := CodePoint.scalar.inj hPoint
    rw [← hChar]
    by_cases hValid : n.isValidChar
    · rw [Char.ofNat, dif_pos hValid]
      rfl
    · rw [Char.ofNat, dif_neg hValid] at hChar
      rw [← hChar] at hPositive
      exact absurd hPositive (by decide)

theorem ne_smallSigma :
    ∀ d ∈ answerLetters, ∀ isFinal,
      smallSigma isFinal ≠ .scalar d := by
  decide

/- The letters of an answer are small, and have ASCII capitals. -/
theorem toLower_ascii :
    ∀ n < 0x80, ∀ d ∈ answerLetters,
      n = d.toNat ∨ n + 32 = d.toNat →
        (Char.ofNat n).toLower = d := by
  decide

theorem toLower_eq
    (hLetter : d ∈ answerLetters)
    (hForm : c.toNat = d.toNat ∨ c.toNat + 32 = d.toNat) :
    c.toLower = d := by
  have hSmall := (bounds_of_answerLetter d hLetter).2
  have hLower := toLower_ascii c.toNat (by omega) d hLetter hForm
  rwa [Char.ofNat_toNat] at hLower

/- Only ASCII characters become letters of an answer. -/
theorem toNat_lt_of_toLower
    (hLetter : c.toLower ∈ answerLetters) :
    c.toNat < 0x80 := by
  apply Nat.not_le.mp
  intro hLarge
  have hSame : c.toLower = c := by
    unfold Char.toLower
    rw [dif_neg]
    rintro ⟨_, hLast⟩
    have hLast' : c.toNat ≤ 0x5A := hLast
    omega
  rw [hSame] at hLetter
  have hSmall := (bounds_of_answerLetter c hLetter).2
  omega

/-
  The small form of a character, at the end of a word or
  inside of one.
-/
def formOf (c : Char) (isFinal : Bool) : Text :=
  if CodePoint.scalar c == sigma then [smallSigma isFinal]
  else small (.scalar c)

theorem formOf_ascii :
    ∀ n < 0x80, (Char.ofNat n).toLower ∈ answerLetters →
      ∀ isFinal,
        formOf (Char.ofNat n) isFinal =
          [.scalar (Char.ofNat n).toLower] := by
  decide

theorem formOf_eq
    (hLetter : c.toLower ∈ answerLetters)
    (isFinal : Bool) :
    formOf c isFinal = [.scalar c.toLower] := by
  have hForm :=
    formOf_ascii c.toNat (toNat_lt_of_toLower hLetter)
  rw [Char.ofNat_toNat] at hForm
  exact hForm hLetter isFinal

/-
  A form that starts with a letter of an answer is that of a
  character with this letter in ASCII.
-/
theorem toLower_of_formOf
    (hLetter : d ∈ answerLetters)
    {isFinal : Bool}
    {more : Text}
    (hForm : formOf c isFinal = .scalar d :: more) :
    c.toLower = d := by
  unfold formOf at hForm
  split at hForm
  · exact (ne_smallSigma d hLetter isFinal
      (List.cons.inj hForm).1).elim
  · unfold small at hForm
    dsimp only at hForm
    split at hForm
    · have hDotted : 'i' = d :=
        CodePoint.scalar.inj (List.cons.inj hForm).1
      subst hDotted
      exact absurd hLetter (by decide)
    · split at hForm
      · next shift hShift =>
          have hSmall :=
            eq_of_ofNat hLetter (List.cons.inj hForm).1
          have hCapital :=
            shift?_of_answerLetter hLetter hShift hSmall
          exact toLower_eq hLetter (Or.inr hCapital.2.2.symm)
      · have hSame : c = d :=
          CodePoint.scalar.inj (List.cons.inj hForm).1
        exact toLower_eq hLetter (Or.inl (by rw [hSame]))

theorem formOf_ne_nil (c : Char) (isFinal : Bool) :
    formOf c isFinal ≠ [] := by
  unfold formOf small
  dsimp only
  split
  · simp
  · split
    · simp [Text.ofChars]
    · split
      · simp
      · simp

theorem lowerAfter_scalar (before : Text) (c : Char) (t : Text) :
    lowerAfter before (.scalar c :: t) =
      formOf c (startsCased before && !startsCased t) ++
        lowerAfter (.scalar c :: before) t :=
  rfl

/-
  A text is a word of an answer in small letters if it is so
  in ASCII: no other character has one of its letters.
-/
theorem lower_eq_iff
    (hWord : ∀ d ∈ word, d ∈ answerLetters) :
    lower (Text.ofChars cs) = Text.ofChars word ↔
      Blank.lower cs = word := by
  unfold lower
  generalize ([] : Text) = before
  induction cs generalizing before word with
  | nil =>
      cases word with
      | nil => exact ⟨fun _ => rfl, fun _ => rfl⟩
      | cons d word => exact ⟨nofun, nofun⟩
  | cons c cs ih =>
      show lowerAfter before (.scalar c :: Text.ofChars cs) = _ ↔
        c.toLower :: Blank.lower cs = _
      rw [lowerAfter_scalar]
      cases word with
      | nil =>
          refine ⟨fun hNil => ?_, nofun⟩
          exact (formOf_ne_nil _ _
            (List.append_eq_nil_iff.mp hNil).1).elim
      | cons d word =>
          rcases List.forall_mem_cons.mp hWord with
            ⟨hFirst, hMore⟩
          show _ = CodePoint.scalar d :: Text.ofChars word ↔ _
          by_cases hLower : c.toLower = d
          · subst hLower
            rw [formOf_eq hFirst, List.singleton_append,
              List.cons.injEq, List.cons.injEq]
            simp only [true_and]
            exact ih hMore _
          · refine ⟨fun hSame => ?_, fun hSame => ?_⟩
            · rcases List.exists_cons_of_ne_nil
                  (formOf_ne_nil c _) with
                ⟨first, more, hForm⟩
              rw [hForm] at hSame
              rw [(List.cons.inj hSame).1] at hForm
              exact (hLower
                (toLower_of_formOf hFirst hForm)).elim
            · exact (hLower (List.cons.inj hSame).1).elim

end LetterCase

------------------------------------------------------------
-- Lines that Settle a Question
------------------------------------------------------------

namespace Question

/-
  A line says a word: in small letters and without the blanks
  around it, it is that word.
-/
def Says (line word : String) : Prop :=
  LetterCase.lower (Text.ofChars (Blank.trim line.toList)) =
    Text.ofString word

/-
  A line settles a question: a blank line leaves it at the
  default answer.
-/
inductive Settles (q : Question) (line : String) :
    Bool → Prop where
  | blank (hSays : Says line "") : Settles q line q.default
  | yes (hSays : Says line "y" ∨ Says line "yes") :
      Settles q line true
  | no (hSays : Says line "n" ∨ Says line "no") :
      Settles q line false

variable {q : Question} {line word : String} {answer : Bool}

theorem says_iff
    (hWord : ∀ d ∈ word.toList, d ∈ LetterCase.answerLetters) :
    Says line word ↔
      Blank.lower (Blank.trim line.toList) = word.toList :=
  LetterCase.lower_eq_iff hWord

/- A line is read as the answer that it settles on. -/
theorem reading_eq_some_iff :
    q.reading line = some answer ↔ q.Settles line answer := by
  have hBlank := @says_iff line "" (by decide)
  have hY := @says_iff line "y" (by decide)
  have hYes := @says_iff line "yes" (by decide)
  have hN := @says_iff line "n" (by decide)
  have hNo := @says_iff line "no" (by decide)
  unfold reading
  dsimp only
  constructor
  · intro hReading
    split at hReading
    · next hWord =>
        rw [← Option.some.inj hReading]
        exact .blank (hBlank.mpr (beq_iff_eq.mp hWord))
    · split at hReading
      · next hWord =>
          rw [← Option.some.inj hReading]
          rw [Bool.or_eq_true, beq_iff_eq, beq_iff_eq] at hWord
          exact .yes (hWord.imp hY.mpr hYes.mpr)
      · split at hReading
        · next hWord =>
            rw [← Option.some.inj hReading]
            rw [Bool.or_eq_true, beq_iff_eq, beq_iff_eq] at hWord
            exact .no (hWord.imp hN.mpr hNo.mpr)
        · cases hReading
  · intro hSettles
    cases hSettles with
    | blank hSays => simp [hBlank.mp hSays]
    | yes hSays =>
        rcases hSays with hSays | hSays
        · simp [hY.mp hSays]
        · simp [hYes.mp hSays]
    | no hSays =>
        rcases hSays with hSays | hSays
        · simp [hN.mp hSays]
        · simp [hNo.mp hSays]

/- A line that settles nothing is passed over. -/
theorem reading_eq_none_iff :
    q.reading line = none ↔ ∀ answer, ¬ q.Settles line answer := by
  rw [Option.eq_none_iff_forall_ne_some]
  simp only [ne_eq, reading_eq_some_iff]

------------------------------------------------------------
-- Turns of a Conversation
------------------------------------------------------------

/-
  The part of a conversation that belongs to one question:
  the lines that it takes, its answer, and how often its
  prompt is shown.
-/
structure Turn where
  question : Question
  lines : List String
  answer : Bool
  shown : Nat

namespace Turn

/-
  The last line that is taken is the first one that settles
  the question; the prompt is shown once for each line.
-/
def Answered (t : Turn) : Prop :=
  ∃ skipped line,
    t.lines = skipped ++ [line] ∧
      (∀ l ∈ skipped, ∀ answer, ¬ t.question.Settles l answer) ∧
      t.question.Settles line t.answer ∧
      t.shown = t.lines.length

/-
  No line that is taken settles the question: the prompt is
  shown once more, and the default answer is given.
-/
def Unanswered (t : Turn) : Prop :=
  (∀ l ∈ t.lines, ∀ answer, ¬ t.question.Settles l answer) ∧
    t.answer = t.question.default ∧
    t.shown = t.lines.length + 1

/- What is shown in a turn. -/
def events (t : Turn) : List Event :=
  List.replicate t.shown (.ask t.question.prompt)

end Turn

/-
  Lines answer all of some turns, or they run out in one of
  them, and those after it take none.
-/
def RunOutAtMostOnce
    (turns : List Turn)
    (rest : List String) : Prop :=
  (∀ t ∈ turns, t.Answered) ∨
    ∃ before last after,
      turns = before ++ last :: after ∧ rest = [] ∧
        (∀ t ∈ before, t.Answered) ∧ last.Unanswered ∧
        ∀ t ∈ after, t.Unanswered ∧ t.lines = []

/- One question takes its turn. -/
theorem exists_turn (q : Question) (lines : List String) :
    ∃ (t : Turn) (rest : List String),
      t.question = q ∧ t.lines ++ rest = lines ∧
        q.converse (lines.map some) =
          ⟨some t.answer, t.shown, rest.map some⟩ ∧
        (t.Answered ∨ t.Unanswered ∧ rest = []) := by
  induction lines with
  | nil =>
      exact ⟨⟨q, [], q.default, 1⟩, [], rfl, rfl, rfl,
        Or.inr ⟨⟨by simp, rfl, rfl⟩, rfl⟩⟩
  | cons line lines ih =>
      rw [List.map_cons, converse]
      cases hReading : q.reading line with
      | some answer =>
          refine ⟨⟨q, [line], answer, 1⟩, lines, rfl, rfl, rfl,
            Or.inl ⟨[], line, rfl, by simp, ?_, rfl⟩⟩
          exact reading_eq_some_iff.mp hReading
      | none =>
          have hSkipped := reading_eq_none_iff.mp hReading
          rcases ih with
            ⟨t, rest, rfl, hLines, hLater, hTurn⟩
          refine ⟨⟨t.question, line :: t.lines, t.answer,
            t.shown + 1⟩, rest, rfl, by simp [hLines],
            by rw [hLater], ?_⟩
          rcases hTurn with
            ⟨skipped, last, hLast, hEarlier, hSettles, hShown⟩ |
              ⟨⟨hEarlier, hAnswer, hShown⟩, hRest⟩
          · refine Or.inl ⟨line :: skipped, last, ?_, ?_, hSettles,
              ?_⟩
            · show line :: t.lines = _
              rw [hLast, List.cons_append]
            · exact List.forall_mem_cons.mpr ⟨hSkipped, hEarlier⟩
            · show t.shown + 1 = (line :: t.lines).length
              rw [hShown, List.length_cons]
          · refine Or.inr ⟨⟨?_, hAnswer, ?_⟩, hRest⟩
            · exact List.forall_mem_cons.mpr ⟨hSkipped, hEarlier⟩
            · show t.shown + 1 = (line :: t.lines).length + 1
              rw [hShown, List.length_cons]

/- Questions that find no line left are given up at once. -/
theorem lines_eq_nil_of_flatMap
    {turns : List Turn}
    {rest : List String}
    (hLines : turns.flatMap Turn.lines ++ rest = []) :
    (∀ t ∈ turns, t.lines = []) ∧ rest = [] := by
  rcases List.append_eq_nil_iff.mp hLines with ⟨hTurns, hRest⟩
  exact ⟨List.flatMap_eq_nil_iff.mp hTurns, hRest⟩

theorem Turn.Answered.lines_ne_nil
    {t : Turn}
    (hAnswered : t.Answered) :
    t.lines ≠ [] := by
  rcases hAnswered with ⟨skipped, line, hLines, _⟩
  rw [hLines]
  simp

/- After the lines have run out, no question is answered. -/
theorem unanswered_of_no_lines
    {turns : List Turn}
    {rest : List String}
    (hTurns : RunOutAtMostOnce turns rest)
    (hLines : ∀ t ∈ turns, t.lines = []) :
    ∀ t ∈ turns, t.Unanswered ∧ t.lines = [] := by
  intro t ht
  have hNil := hLines t ht
  rcases hTurns with
    hAll | ⟨before, last, after, rfl, _, hBefore, hLast, hAfter⟩
  · exact ((hAll t ht).lines_ne_nil hNil).elim
  · rcases List.mem_append.mp ht with hIn | hIn
    · exact ((hBefore t hIn).lines_ne_nil hNil).elim
    · rcases List.mem_cons.mp hIn with rfl | hIn
      · exact ⟨hLast, hNil⟩
      · exact hAfter t hIn

/-
  Questions in a row share the lines that are typed: each
  takes its part in order, and what no question takes is
  left. A question stops at the first line that settles it;
  when the lines run out, it and all later ones are given
  their default answers. The conversation always ends.
-/
theorem lines_split_between
    (questions : List Question)
    (lines : List String)
    (w : World) :
    ∃ (turns : List Turn) (rest : List String),
      turns.map Turn.question = questions ∧
        turns.flatMap Turn.lines ++ rest = lines ∧
        RunOutAtMostOnce turns rest ∧
        Session.Runs (questions.mapM (·.confirm false))
          { w with lines := lines.map some }
          (turns.map Turn.answer)
          { w with
            lines := rest.map some
            journal := w.journal ++ turns.flatMap Turn.events } := by
  induction questions generalizing lines w with
  | nil =>
      refine ⟨[], lines, rfl, rfl, Or.inl (by simp), ?_⟩
      rw [List.mapM_nil]
      exact Session.runs_pure_iff.mpr ⟨rfl, by simp⟩
  | cons q questions ih =>
      rcases exists_turn q lines with
        ⟨t, rest, hQuestion, hLines, hConverse, hTurn⟩
      rcases ih rest
          { w with journal := w.journal ++ t.events } with
        ⟨turns, left, hQuestions, hRest, hTurns, hRuns⟩
      refine ⟨t :: turns, left, ?_, ?_, ?_, ?_⟩
      · rw [List.map_cons, hQuestion, hQuestions]
      · rw [List.flatMap_cons, List.append_assoc, hRest, hLines]
      · rcases hTurn with hAnswered | ⟨hUnanswered, hNone⟩
        · rcases hTurns with
            hAll | ⟨before, last, after, rfl, hLeft, hBefore,
              hLast, hAfter⟩
          · exact Or.inl (List.forall_mem_cons.mpr
              ⟨hAnswered, hAll⟩)
          · exact Or.inr ⟨t :: before, last, after, rfl, hLeft,
              List.forall_mem_cons.mpr ⟨hAnswered, hBefore⟩,
              hLast, hAfter⟩
        · rw [hNone] at hRest
          rcases lines_eq_nil_of_flatMap hRest with
            ⟨hNil, hLeft⟩
          exact Or.inr ⟨[], t, turns, rfl, hLeft, by simp,
            hUnanswered, unanswered_of_no_lines hTurns hNil⟩
      · have hAsk :
            Session.Runs (q.confirm false)
              { w with lines := lines.map some } t.answer
              { w with
                lines := rest.map some
                journal := w.journal ++ t.events } := by
          refine Session.ends_ask_iff.mpr ?_
          unfold Session.asked
          dsimp only
          rw [hConverse, ← hQuestion]
          exact ⟨rfl, rfl⟩
        rw [List.mapM_cons]
        refine Session.runs_bind_iff.mpr ⟨_, _, hAsk, ?_⟩
        refine Session.runs_bind_iff.mpr ⟨_, _, hRuns, ?_⟩
        refine Session.runs_pure_iff.mpr ⟨rfl, ?_⟩
        rw [List.flatMap_cons, List.append_assoc]

end Question

end BiomeMigration
