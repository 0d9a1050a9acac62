import BiomeMigration.Proofs.Directive.Lines
import BiomeMigration.Proofs.Directive.Recognition

/-
  Two slashes with something behind them on their line.
  Whether a form for lines finds a comment at such slashes
  is settled on the line, and so is its first comment.

  Main declarations:
    * `OpenersFilled`
    * `Form.isSome_comment?_append`
    * `Form.comment?_of_unbroken`
    * `Form.before?`
    * `Form.before?_append`
-/

------------------------------------------------------------
-- Slashes with Something behind Them
------------------------------------------------------------

namespace BiomeMigration

namespace Directive

/-
  The text behind two slashes goes on, on its own line, with
  blanks and a character that is not blank and does not
  start two slashes itself.
-/
def fills (after : List Char) : Bool :=
  match (run (fun c => isBlank c && !isLineEnd c) after).2 with
  | [] => false
  | c :: rest =>
      !isBlank c && !(c == '/' && rest.head? == some '/')

/- Any two slashes of a text are filled. -/
def OpenersFilled (cs : List Char) : Prop :=
  ∀ before after,
    cs = before ++ '/' :: '/' :: after → fills after = true

theorem fills_iff
    {after : List Char} :
    fills after = true ↔
      ∃ blanks c rest,
        after = blanks ++ c :: rest ∧
          (∀ d ∈ blanks,
            isBlank d = true ∧ isLineEnd d = false) ∧
          isBlank c = false ∧
          ¬ (c = '/' ∧ rest.head? = some '/') := by
  unfold fills
  constructor
  · intro hFills
    cases hRun :
        run (fun c => isBlank c && !isLineEnd c) after with
    | mk blanks tail =>
        rcases run_eq_iff.mp hRun with ⟨hText, hBlanks, _⟩
        rw [hRun] at hFills
        cases tail with
        | nil => cases hFills
        | cons c rest =>
            have hBoth :
                isBlank c = false ∧
                  (¬ c = '/' ∨ ¬ rest.head? = some '/') := by
              simpa using hFills
            exact ⟨blanks, c, rest, hText, by simpa using hBlanks,
              hBoth.1, not_and_or.mpr hBoth.2⟩
  · rintro ⟨blanks, c, rest, rfl, hBlanks, hBlank, hOther⟩
    have hRun :
        run (fun c => isBlank c && !isLineEnd c)
            (blanks ++ c :: rest) =
          (blanks, c :: rest) := by
      apply run_eq_iff.mpr
      refine ⟨rfl, ?_, ?_⟩
      · simpa using hBlanks
      · simp [hBlank]
    rw [hRun]
    simpa [hBlank] using not_and_or.mp hOther

theorem openersFilled_cons_iff
    {c : Char}
    {cs : List Char} :
    OpenersFilled (c :: cs) ↔
      (c = '/' → cs.head? = some '/' →
          fills cs.tail = true) ∧
        OpenersFilled cs := by
  constructor
  · intro hFilled
    constructor
    · rintro rfl hHead
      rcases List.head?_eq_some_iff.mp hHead with ⟨after, rfl⟩
      exact hFilled [] after rfl
    · intro before after hText
      exact hFilled (c :: before) after (by rw [hText]; rfl)
  · rintro ⟨hHead, hFilled⟩ before after hText
    cases before with
    | nil =>
        rcases List.cons.inj hText with ⟨hEq, rfl⟩
        exact hHead hEq rfl
    | cons d before =>
        exact hFilled before after (List.cons.inj hText).2

instance decidableOpenersFilled :
    (cs : List Char) → Decidable (OpenersFilled cs)
  | [] => isTrue (by intro before after hText; simp at hText)
  | _ :: cs =>
      have := decidableOpenersFilled cs
      decidable_of_iff _ openersFilled_cons_iff.symm

/-
  A text that is over, or goes on with a line end or with
  two slashes.
-/
def Stops (rest : List Char) : Prop :=
  ∀ c ∈ rest.head?,
    isLineEnd c = true ∨
      (c = '/' ∧ rest.tail.head? = some '/')

/- What fills two slashes stands in front of such a text. -/
theorem fills_of_append
    {after rest : List Char}
    (hStops : Stops rest)
    (hFills : fills (after ++ rest) = true) :
    fills after = true := by
  rcases fills_iff.mp hFills with
    ⟨blanks, c, tail, hText, hBlanks, hBlank, hOther⟩
  have hApart : rest ≠ c :: tail := by
    rintro rfl
    rcases hStops c rfl with hEnd | hSlash
    · rw [isBlank_of_isLineEnd hEnd] at hBlank
      cases hBlank
    · exact hOther hSlash
  rcases List.append_eq_append_iff.mp hText with
    ⟨beyond, hOver, hRest⟩ | ⟨more, hAfter, hTail⟩
  · cases beyond with
    | nil => exact (hApart hRest).elim
    | cons d beyond =>
        have hHead : d ∈ rest.head? := by
          simp [hRest]
        have hIn := hBlanks d (by simp [hOver])
        rcases hStops d hHead with hEnd | ⟨rfl, _⟩
        · rw [hIn.2] at hEnd
          cases hEnd
        · exact absurd hIn.1 (by decide)
  · cases more with
    | nil => exact (hApart hTail.symm).elim
    | cons d more =>
        rcases List.cons.inj hTail with ⟨rfl, rfl⟩
        apply fills_iff.mpr
        refine ⟨blanks, c, more, hAfter, hBlanks, hBlank, ?_⟩
        rintro ⟨hSlash, hHead⟩
        exact hOther ⟨hSlash, by simp [hHead]⟩

namespace OpenersFilled

variable {part rest : List Char}

theorem of_append_left
    (hFilled : OpenersFilled (part ++ rest))
    (hStops : Stops rest) :
    OpenersFilled part := by
  intro before after hText
  apply fills_of_append hStops
  exact hFilled before (after ++ rest) (by rw [hText]; simp)

theorem of_append_right
    (hFilled : OpenersFilled (part ++ rest)) :
    OpenersFilled rest := by
  intro before after hText
  exact hFilled (part ++ before) after (by rw [hText]; simp)

end OpenersFilled

end Directive

end BiomeMigration

------------------------------------------------------------
-- Comments on a Line
------------------------------------------------------------

namespace BiomeMigration

namespace Directive

/- A beginning does not reach into text it has no part of. -/
theorem isSome_after?_append
    {lead rest : List Char}
    (hRest : ∀ c ∈ rest.head?, c ∉ lead)
    (cs : List Char) :
    (after? lead (cs ++ rest)).isSome =
      (after? lead cs).isSome := by
  induction lead generalizing cs with
  | nil => rfl
  | cons a lead ih =>
      have hMore : ∀ c ∈ rest.head?, c ∉ lead :=
        fun c hc hIn =>
          hRest c hc (List.mem_cons_of_mem a hIn)
      cases cs with
      | nil =>
          cases rest with
          | nil => rfl
          | cons c rest =>
              have hOther : a ≠ c := by
                rintro rfl
                exact hRest a rfl List.mem_cons_self
              simp [after?, hOther]
      | cons c cs =>
          by_cases hSame : a = c
          · simp [after?, hSame, ih hMore]
          · simp [after?, hSame]

namespace Form

variable {word : List Char}

/- A form for lines finds a comment by its word. -/
theorem isSome_comment?_line
    (word cs : List Char) :
    ((line word).comment? cs).isSome =
      ((after? ['/', '/'] cs).bind fun inside =>
        after? word (run isBlank inside).2).isSome := by
  unfold comment?
  simp only [opener, Form.word, body?, Option.bind_eq_bind]
  cases after? ['/', '/'] cs with
  | none => rfl
  | some inside =>
      simp only [Option.bind_some]
      cases after? word (run isBlank inside).2 with
      | none => rfl
      | some rest => rfl

/- Behind the slashes and blanks the word decides. -/
theorem isSome_comment?_of_blanks
    {blanks rest : List Char}
    {c : Char}
    (hBlanks : ∀ d ∈ blanks, isBlank d = true)
    (hBlank : isBlank c = false) :
    ((line word).comment?
        ('/' :: '/' :: (blanks ++ c :: rest))).isSome =
      (after? word (c :: rest)).isSome := by
  have hRun :
      run isBlank (blanks ++ c :: rest) =
        (blanks, c :: rest) := by
    apply run_eq_iff.mpr
    exact ⟨rfl, hBlanks, by simpa using hBlank⟩
  rw [isSome_comment?_line]
  simp [after?, hRun]

/- Other characters than two slashes start no comment. -/
theorem comment?_line_eq_none
    {c d : Char}
    {cs : List Char}
    (hOther : ¬ (c = '/' ∧ d = '/')) :
    (line word).comment? (c :: d :: cs) = none := by
  have hNone : after? ['/', '/'] (c :: d :: cs) = none := by
    by_cases hFirst : '/' = c
    · have hSecond : '/' ≠ d := by
        intro hEq
        exact hOther ⟨hFirst.symm, hEq.symm⟩
      simp [after?, hSecond]
    · simp [after?, hFirst]
  unfold comment?
  simp only [opener, hNone, Option.bind_eq_bind,
    Option.bind_none]

/- A third slash keeps two slashes from being a comment. -/
theorem comment?_third_eq_none
    (hPlain : (line word).Plain)
    (cs : List Char) :
    (line word).comment? ('/' :: '/' :: '/' :: cs) = none := by
  have hNoBlanks :
      ((line word).comment?
          ('/' :: '/' :: ([] ++ '/' :: cs))).isSome =
        (after? word ('/' :: cs)).isSome :=
    isSome_comment?_of_blanks (by simp) rfl
  have hNone : after? word ('/' :: cs) = none := by
    cases hWord : word with
    | nil => exact (hPlain.1 hWord).elim
    | cons w word =>
        have hOther : w ≠ '/' := by
          refine (hPlain.2 w ?_).2.2
          simp [Form.word, hWord]
        simp [after?, hOther]
  rw [hNone] at hNoBlanks
  simpa using hNoBlanks

/-
  Whether a comment starts at a place of a line does not
  depend on the text behind the line, nor on a comment
  further behind.
-/
theorem isSome_comment?_append
    (hPlain : (line word).Plain)
    {cs rest : List Char}
    (hFilled : OpenersFilled cs)
    (hStops : Stops rest)
    (hNonempty : cs ≠ []) :
    ((line word).comment? (cs ++ rest)).isSome =
      ((line word).comment? cs).isSome := by
  have hApart : ∀ c ∈ rest.head?, c ∉ word := by
    intro c hc hIn
    rcases hStops c hc with hEnd | ⟨rfl, _⟩
    · rw [hPlain.isLineEnd_eq_false c hIn] at hEnd
      cases hEnd
    · exact (hPlain.2 '/' hIn).2.2 rfl
  cases cs with
  | nil => exact (hNonempty rfl).elim
  | cons c cs =>
      cases cs with
      | nil =>
          have hSelf : (line word).comment? [c] = none := by
            have hNone : after? ['/', '/'] [c] = none := by
              rcases eq_or_ne '/' c with rfl | hOther
              · rfl
              · simp [after?, hOther]
            unfold comment?
            simp only [opener, hNone, Option.bind_eq_bind,
              Option.bind_none]
          rw [hSelf]
          cases rest with
          | nil => exact congrArg Option.isSome hSelf
          | cons d rest =>
              rw [List.singleton_append]
              by_cases hOpen : c = '/' ∧ d = '/'
              · rcases hOpen with ⟨rfl, rfl⟩
                rcases hStops '/' rfl with hEnd | ⟨_, hThird⟩
                · cases hEnd
                · rcases List.head?_eq_some_iff.mp hThird with
                    ⟨tail, hTail⟩
                  rw [List.tail_cons] at hTail
                  rw [hTail, comment?_third_eq_none hPlain]
              · rw [comment?_line_eq_none hOpen]
      | cons d cs =>
          by_cases hOpen : c = '/' ∧ d = '/'
          · rcases hOpen with ⟨rfl, rfl⟩
            rcases fills_iff.mp (hFilled [] cs rfl) with
              ⟨blanks, e, tail, rfl, hBlanks, hBlank, _⟩
            have hSpaces : ∀ d ∈ blanks, isBlank d = true :=
              fun d hd => (hBlanks d hd).1
            have hText :
                '/' :: '/' :: (blanks ++ e :: tail) ++ rest =
                  '/' :: '/' ::
                    (blanks ++ e :: (tail ++ rest)) := by
              simp
            rw [hText, isSome_comment?_of_blanks hSpaces hBlank,
              isSome_comment?_of_blanks hSpaces hBlank,
              ← List.cons_append, isSome_after?_append hApart]
          · rw [List.cons_append, List.cons_append,
              comment?_line_eq_none hOpen,
              comment?_line_eq_none hOpen]

/- A comment of a line is all that follows on the line. -/
theorem comment?_of_unbroken
    (hPlain : (line word).Plain)
    {cs after : List Char}
    (hUnbroken : ∀ c ∈ cs, isLineEnd c = false)
    (hAfter : ∀ c ∈ after.head?, isLineEnd c = true)
    (hFound : ((line word).comment? cs).isSome = true) :
    (line word).comment? (cs ++ after) = some (cs, after) := by
  rcases Option.isSome_iff_exists.mp hFound with
    ⟨⟨comment, rest⟩, hComment⟩
  have hText := append_of_comment? hComment
  rcases exists_lead_of_comment? hComment with
    ⟨lead, body, hLead, rfl, hBody⟩
  have hRun := run_eq_iff.mp (Option.some.inj hBody)
  have hNoRest : rest = [] := by
    cases rest with
    | nil => rfl
    | cons c rest =>
        have hEnd := hRun.2.2 c rfl
        rw [hUnbroken c (by rw [hText]; simp)] at hEnd
        cases hEnd
  subst hNoRest
  rw [List.append_nil] at hText
  have hTail :
      run (!isLineEnd ·) (body ++ after) = (body, after) := by
    apply run_eq_iff.mpr
    refine ⟨rfl, hRun.2.1, fun c hc => ?_⟩
    simp [hAfter c hc]
  rw [hText, List.append_assoc,
    comment?_lead hPlain.worded hLead]
  simp only [body?, hTail, Option.map_some]

------------------------------------------------------------
-- The First Comment
------------------------------------------------------------

/- The part of a line before its first comment. -/
def before? (form : Form) : List Char → Option (List Char)
  | [] => none
  | c :: cs =>
      if (form.comment? (c :: cs)).isSome then some []
      else (form.before? cs).map (c :: ·)

/- There is none if no comment starts anywhere. -/
theorem comment?_eq_none_of_before?
    {form : Form}
    {cs : List Char}
    (hNone : form.before? cs = none) :
    ∀ front back,
      cs = front ++ back → form.comment? back = none := by
  induction cs with
  | nil =>
      intro front back hText
      rcases List.append_eq_nil_iff.mp hText.symm with ⟨_, rfl⟩
      exact comment?_eq_none_of_head (by simp)
  | cons c cs ih =>
      intro front back hText
      unfold before? at hNone
      split at hNone
      · cases hNone
      · next hFirst =>
          cases front with
          | nil =>
              rw [List.nil_append] at hText
              rw [← hText]
              simpa using hFirst
          | cons d front =>
              exact ih (Option.map_eq_none_iff.mp hNone) front
                back (List.cons.inj hText).2

/- Else a comment starts behind it, and none before. -/
theorem exists_of_before?
    {form : Form}
    {cs before : List Char}
    (hBefore : form.before? cs = some before) :
    ∃ rest,
      cs = before ++ rest ∧
        (form.comment? rest).isSome = true ∧
        ∀ front back,
          before = front ++ back →
            back ≠ [] → form.comment? (back ++ rest) = none := by
  induction cs generalizing before with
  | nil => cases hBefore
  | cons c cs ih =>
      unfold before? at hBefore
      split at hBefore
      · next hFirst =>
          rcases Option.some.inj hBefore with rfl
          refine ⟨c :: cs, rfl, hFirst, ?_⟩
          intro front back hText hNonempty
          exact
            (hNonempty
              (List.append_eq_nil_iff.mp hText.symm).2).elim
      · next hFirst =>
          rcases Option.map_eq_some_iff.mp hBefore with
            ⟨tail, hTail, rfl⟩
          rcases ih hTail with ⟨rest, rfl, hComment, hNone⟩
          refine ⟨rest, rfl, hComment, ?_⟩
          intro front back hText hNonempty
          cases front with
          | nil =>
              rw [List.nil_append] at hText
              rw [← hText]
              simpa using hFirst
          | cons d front =>
              exact hNone front back (List.cons.inj hText).2
                hNonempty

/- Text stops before a comment. -/
theorem stops_of_comment?
    {rest : List Char}
    (hFound : ((line word).comment? rest).isSome = true) :
    Stops rest := by
  rcases Option.isSome_iff_exists.mp hFound with
    ⟨⟨comment, tail⟩, hComment⟩
  have hText := append_of_comment? hComment
  rcases exists_lead_of_comment? hComment with
    ⟨lead, body, ⟨blanks, _, rfl⟩, rfl, _⟩
  intro c hc
  rw [hText] at hc ⊢
  simp only [opener, List.cons_append, List.head?_cons,
    Option.mem_some_iff] at hc
  exact Or.inr ⟨hc.symm, rfl⟩

/- The first comment of two parts is the first of one. -/
theorem before?_append
    (hPlain : (line word).Plain)
    {cs rest : List Char}
    (hFilled : OpenersFilled cs)
    (hStops : Stops rest) :
    (line word).before? (cs ++ rest) =
      ((line word).before? cs).or
        (((line word).before? rest).map (cs ++ ·)) := by
  induction cs with
  | nil => simp [before?]
  | cons c cs ih =>
      have hFirst :
          ((line word).comment? (c :: (cs ++ rest))).isSome =
            ((line word).comment? (c :: cs)).isSome :=
        isSome_comment?_append hPlain hFilled hStops
          (List.cons_ne_nil c cs)
      have hTail := (openersFilled_cons_iff.mp hFilled).2
      rw [List.cons_append, before?, before?, hFirst, ih hTail]
      cases ((line word).comment? (c :: cs)).isSome with
      | true => rfl
      | false =>
          cases (line word).before? cs with
          | none => simp [Function.comp_def]
          | some before => rfl

end Form

end Directive

end BiomeMigration
