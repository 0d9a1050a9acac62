import BiomeMigration.Directive.Strip

/-
  Anatomy of a directive comment: the part that is fixed by
  the opener and the word, the body behind it, and how much
  of the text after it a comment depends on.

  Main declarations:
    * `Form.IsLead`
    * `Form.comment?_lead`
    * `Form.exists_lead_of_comment?`
    * `Form.comment?_extend`
    * `Form.comment?_congr`
    * `Form.wholeLine?_congr`
-/

------------------------------------------------------------
-- Closing a Block
------------------------------------------------------------

namespace BiomeMigration

namespace Directive

/- A text that holds the end of a block comment. -/
def HasClose (cs : List Char) : Prop :=
  ['*', '/'] <:+: cs

theorem hasClose_cons_iff
    (c : Char)
    (cs : List Char) :
    HasClose (c :: cs) ↔
      (c = '*' ∧ cs.head? = some '/') ∨ HasClose cs := by
  unfold HasClose
  rw [List.infix_cons_iff, List.cons_prefix_cons]
  cases cs with
  | nil => simp
  | cons d cs =>
      simp only [List.cons_prefix_cons, List.nil_prefix,
        and_true, List.head?_cons, Option.some.injEq,
        eq_comm]

/- Text in front does not open a block comment again. -/
theorem HasClose.append_left
    {cs : List Char}
    (hClose : HasClose cs)
    (lead : List Char) :
    HasClose (lead ++ cs) := by
  rcases hClose with ⟨before, after, rfl⟩
  exact ⟨lead ++ before, after, by simp⟩

theorem throughClose?_isSome_iff (cs : List Char) :
    (throughClose? cs).isSome = true ↔ HasClose cs := by
  fun_induction throughClose? cs with
  | case1 rest =>
      simp [hasClose_cons_iff]
  | case2 c rest hNotClose ih =>
      rw [Option.isSome_map, ih, hasClose_cons_iff]
      constructor
      · exact Or.inr
      · rintro (⟨rfl, hHead⟩ | hRest)
        · cases rest with
          | nil => simp at hHead
          | cons d rest =>
              have hSlash : d = '/' := by
                simpa using hHead
              subst hSlash
              exact (hNotClose rest rfl rfl).elim
        · exact hRest
  | case3 => simp [HasClose]

/- The body of a block ends with the sign that closes it. -/
theorem close_suffix_of_throughClose?
    {cs body rest : List Char}
    (hBody : throughClose? cs = some (body, rest)) :
    ['*', '/'] <:+ body := by
  fun_induction throughClose? cs generalizing body rest with
  | case1 tail =>
      simp only [Option.some.injEq, Prod.mk.injEq] at hBody
      rcases hBody with ⟨rfl, _⟩
      exact List.suffix_rfl
  | case2 c tail hNotClose ih =>
      rcases Option.map_eq_some_iff.mp hBody with
        ⟨⟨inner, tail'⟩, hInner, hPair⟩
      simp only [Prod.mk.injEq] at hPair
      rw [← hPair.1]
      exact (ih hInner).trans (List.suffix_cons c inner)
  | case3 => simp at hBody

/- What closes a block does not depend on the text after it. -/
theorem throughClose?_append
    {body rest : List Char}
    (hBody : throughClose? (body ++ rest) = some (body, rest))
    (other : List Char) :
    throughClose? (body ++ other) = some (body, other) := by
  generalize hText : body ++ rest = text at hBody
  fun_induction throughClose? text generalizing body with
  | case1 tail =>
      simp only [Option.some.injEq, Prod.mk.injEq] at hBody
      rw [← hBody.1]
      simp [throughClose?]
  | case2 c tail hNotClose ih =>
      rcases Option.map_eq_some_iff.mp hBody with
        ⟨⟨inner, tail'⟩, hInner, hPair⟩
      simp only [Prod.mk.injEq] at hPair
      rcases hPair with ⟨rfl, rfl⟩
      have hTail : inner ++ tail' = tail :=
        (append_of_throughClose? hInner).symm
      have hOther := ih hTail hInner
      rw [List.cons_append, throughClose?, hOther]
      · rfl
      · intro tail'' hStar hSlash
        rcases close_suffix_of_throughClose? hInner with
          ⟨before, rfl⟩
        cases before with
        | nil => simp at hSlash
        | cons d before =>
            simp only [List.cons_append, List.cons.injEq]
              at hSlash
            rcases hSlash with ⟨rfl, _⟩
            exact hNotClose _ hStar hTail.symm
  | case3 => simp at hBody

/-
  The body of a configuration: a blank, no star, and the
  sign that closes a block.
-/
theorem blankThroughClose?_eq_some_iff
    {cs body rest : List Char} :
    blankThroughClose? cs = some (body, rest) ↔
      ∃ c inner,
        isBlank c = true ∧
          (∀ d ∈ c :: inner, (d != '*') = true) ∧
          body = c :: inner ++ ['*', '/'] ∧
          cs = body ++ rest := by
  constructor
  · intro hBody
    have hText := append_of_blankThroughClose? hBody
    unfold blankThroughClose? at hBody
    split at hBody
    · next c inner tail hRun =>
        split at hBody
        · next hBlank =>
            simp only [Option.some.injEq, Prod.mk.injEq]
              at hBody
            exact
              ⟨c, inner, hBlank, (run_eq_iff.mp hRun).2.1,
                hBody.1.symm, hText⟩
        · simp at hBody
    · simp at hBody
  · rintro ⟨c, inner, hBlank, hInner, rfl, rfl⟩
    have hRun :
        run (· != '*') (c :: inner ++ ['*', '/'] ++ rest) =
          (c :: inner, '*' :: '/' :: rest) :=
      run_eq_iff.mpr ⟨by simp, hInner, by simp⟩
    unfold blankThroughClose?
    rw [hRun]
    simp [hBlank]

end Directive

end BiomeMigration

------------------------------------------------------------
-- The Body and the Text after It
------------------------------------------------------------

namespace BiomeMigration

namespace Directive

namespace Form

/-
  Before another text the body may go on, but it never gets
  shorter and never vanishes.
-/
theorem body?_extend
    {form : Form}
    {body rest : List Char}
    (hBody : form.body? (body ++ rest) = some (body, rest))
    (other : List Char) :
    ∃ more tail,
      other = more ++ tail ∧
        form.body? (body ++ other) =
          some (body ++ more, tail) := by
  cases form with
  | block word =>
      refine ⟨[], other, rfl, ?_⟩
      rw [List.append_nil]
      exact throughClose?_append hBody other
  | configuration =>
      refine ⟨[], other, rfl, ?_⟩
      rw [List.append_nil]
      rcases blankThroughClose?_eq_some_iff.mp hBody with
        ⟨c, inner, hBlank, hInner, hEq, _⟩
      exact blankThroughClose?_eq_some_iff.mpr
        ⟨c, inner, hBlank, hInner, hEq, rfl⟩
  | line word =>
      have hRun := run_eq_iff.mp (Option.some.inj hBody)
      refine ⟨(run (!isLineEnd ·) other).1,
        (run (!isLineEnd ·) other).2,
        (run_append _ other).symm, ?_⟩
      exact congrArg some (run_append_of_forall hRun.2.1)

/- The body depends on the next character only. -/
theorem body?_congr
    {form : Form}
    {body rest other : List Char}
    (hBody : form.body? (body ++ rest) = some (body, rest))
    (hHead : other.head? = rest.head?) :
    form.body? (body ++ other) = some (body, other) := by
  cases form with
  | block word => exact throughClose?_append hBody other
  | configuration =>
      rcases blankThroughClose?_eq_some_iff.mp hBody with
        ⟨c, inner, hBlank, hInner, hEq, _⟩
      exact blankThroughClose?_eq_some_iff.mpr
        ⟨c, inner, hBlank, hInner, hEq, rfl⟩
  | line word =>
      have hRun := run_eq_iff.mp (Option.some.inj hBody)
      apply congrArg some
      apply run_eq_iff.mpr
      refine ⟨rfl, hRun.2.1, ?_⟩
      rw [hHead]
      exact hRun.2.2

end Form

end Directive

end BiomeMigration

------------------------------------------------------------
-- The Lead of a Comment
------------------------------------------------------------

namespace BiomeMigration

namespace Directive

namespace Form

/-
  The part of a comment that its form fixes: the opener,
  blanks and the word.
-/
def IsLead
    (form : Form)
    (lead : List Char) : Prop :=
  ∃ blanks,
    (∀ c ∈ blanks, isBlank c = true) ∧
      lead = form.opener ++ blanks ++ form.word

/- A form whose word can be told from the blanks before it. -/
def Worded (form : Form) : Prop :=
  form.word.head?.any (!isBlank ·) = true

instance (form : Form) : Decidable form.Worded :=
  inferInstanceAs
    (Decidable (form.word.head?.any (!isBlank ·) = true))

theorem worded_of_mem_standard :
    ∀ rule ∈ Rule.standard, rule.form.Worded := by
  decide

/- Every form opens with a slash. -/
theorem opener_eq (form : Form) :
    ∃ c, form.opener = ['/', c] := by
  cases form with
  | block word => exact ⟨'*', rfl⟩
  | configuration => exact ⟨'*', rfl⟩
  | line word => exact ⟨'/', rfl⟩

theorem IsLead.head?_eq
    {form : Form}
    {lead : List Char}
    (hLead : form.IsLead lead) :
    lead.head? = some '/' := by
  rcases hLead with ⟨blanks, _, rfl⟩
  rcases form.opener_eq with ⟨c, hOpener⟩
  rw [hOpener]
  rfl

end Form

theorem after?_append
    (lead rest : List Char) :
    after? lead (lead ++ rest) = some rest := by
  induction lead with
  | nil => rfl
  | cons c lead ih => simp [after?, ih]

namespace Form

/- Behind a lead only the body decides. -/
theorem comment?_lead
    {form : Form}
    (hWorded : form.Worded)
    {lead : List Char}
    (hLead : form.IsLead lead)
    (after : List Char) :
    form.comment? (lead ++ after) =
      (form.body? after).map fun (body, rest) =>
        (lead ++ body, rest) := by
  rcases hLead with ⟨blanks, hBlanks, rfl⟩
  have hRun :
      run isBlank (blanks ++ (form.word ++ after)) =
        (blanks, form.word ++ after) := by
    apply run_eq_iff.mpr
    refine ⟨rfl, hBlanks, ?_⟩
    intro c hc
    unfold Worded at hWorded
    cases hWord : form.word with
    | nil => simp [hWord] at hWorded
    | cons d word =>
        rw [hWord] at hc hWorded
        simp only [List.cons_append, List.head?_cons,
          Option.mem_some_iff] at hc
        rw [← hc]
        simpa using hWorded
  unfold comment?
  rw [List.append_assoc, List.append_assoc, after?_append]
  simp only [Option.bind_eq_bind, Option.bind_some, hRun,
    after?_append]
  cases hBody : form.body? after with
  | none => rfl
  | some result => rfl

/- A comment is a lead and a body. -/
theorem exists_lead_of_comment?
    {form : Form}
    {cs comment rest : List Char}
    (hComment : form.comment? cs = some (comment, rest)) :
    ∃ lead body,
      form.IsLead lead ∧
        comment = lead ++ body ∧
        form.body? (body ++ rest) = some (body, rest) := by
  simp only [comment?, Option.bind_eq_bind,
    Option.bind_eq_some_iff, Option.pure_def,
    Option.some.injEq, Prod.mk.injEq, Prod.exists]
    at hComment
  rcases hComment with
    ⟨inside, _, after, _, body, rest', hBody, rfl, rfl⟩
  refine ⟨form.opener ++ (run isBlank inside).1 ++ form.word,
    body, ⟨(run isBlank inside).1, ?_, rfl⟩, rfl, ?_⟩
  · intro c hc
    exact of_mem_run hc
  · rw [← append_of_body? hBody]
    exact hBody

/-
  A comment is still found when other text follows it; then
  it may take the beginning of that text along.
-/
theorem comment?_extend
    {form : Form}
    (hWorded : form.Worded)
    {comment rest : List Char}
    (hComment :
      form.comment? (comment ++ rest) = some (comment, rest))
    (other : List Char) :
    ∃ more tail,
      other = more ++ tail ∧
        form.comment? (comment ++ other) =
          some (comment ++ more, tail) := by
  rcases exists_lead_of_comment? hComment with
    ⟨lead, body, hLead, rfl, hBody⟩
  rcases body?_extend hBody other with
    ⟨more, tail, hOther, hMore⟩
  refine ⟨more, tail, hOther, ?_⟩
  rw [List.append_assoc, comment?_lead hWorded hLead, hMore]
  simp

/- The comment depends on the next character only. -/
theorem comment?_congr
    {form : Form}
    (hWorded : form.Worded)
    {comment rest other : List Char}
    (hComment :
      form.comment? (comment ++ rest) = some (comment, rest))
    (hHead : other.head? = rest.head?) :
    form.comment? (comment ++ other) =
      some (comment, other) := by
  rcases exists_lead_of_comment? hComment with
    ⟨lead, body, hLead, rfl, hBody⟩
  rw [List.append_assoc, comment?_lead hWorded hLead,
    body?_congr hBody hHead]
  rfl

/- A comment starts with a slash. -/
theorem head?_of_comment?
    {form : Form}
    {cs comment rest : List Char}
    (hComment : form.comment? cs = some (comment, rest)) :
    comment.head? = some '/' := by
  rcases exists_lead_of_comment? hComment with
    ⟨lead, body, hLead, rfl, _⟩
  rw [List.head?_append, hLead.head?_eq]
  rfl

end Form

end Directive

end BiomeMigration

------------------------------------------------------------
-- Whole Lines
------------------------------------------------------------

namespace BiomeMigration

namespace Directive

theorem append_of_lineBreak?
    {cs ending rest : List Char}
    (hEnding : lineBreak? cs = some (ending, rest)) :
    cs = ending ++ rest := by
  unfold lineBreak? at hEnding
  split at hEnding
  · simp only [Option.some.injEq, Prod.mk.injEq] at hEnding
    rw [← hEnding.1, ← hEnding.2]
    rfl
  · simp only [Option.some.injEq, Prod.mk.injEq] at hEnding
    rw [← hEnding.1, ← hEnding.2]
    rfl
  · simp only [Option.some.injEq, Prod.mk.injEq] at hEnding
    rw [← hEnding.1, ← hEnding.2]
    rfl
  · simp only [Option.some.injEq, Prod.mk.injEq] at hEnding
    rw [← hEnding.1, ← hEnding.2]
    rfl
  · simp at hEnding

/- A line break depends on the next character only. -/
theorem lineBreak?_congr
    {ending rest other : List Char}
    (hEnding :
      lineBreak? (ending ++ rest) = some (ending, rest))
    (hHead : other.head? = rest.head?) :
    lineBreak? (ending ++ other) = some (ending, other) := by
  generalize hText : ending ++ rest = text at hEnding
  unfold lineBreak? at hEnding
  split at hEnding
  · simp only [Option.some.injEq, Prod.mk.injEq] at hEnding
    rw [← hEnding.1]
    rfl
  · simp only [Option.some.injEq, Prod.mk.injEq] at hEnding
    rw [← hEnding.1]
    rfl
  · next tail hNotFeed =>
      simp only [Option.some.injEq, Prod.mk.injEq] at hEnding
      rcases hEnding with ⟨rfl, rfl⟩
      cases other with
      | nil => rfl
      | cons c other =>
          have hc : c ≠ '\n' := by
            intro hc
            subst hc
            rcases List.head?_eq_some_iff.mp hHead.symm with
              ⟨tail', rfl⟩
            exact hNotFeed tail' rfl
          simp [lineBreak?, hc]
  · simp only [Option.some.injEq, Prod.mk.injEq] at hEnding
    rcases hEnding with ⟨rfl, rfl⟩
    have hOther : other = [] := by
      simpa using hHead
    rw [hOther]
    rfl
  · simp at hEnding

/- No indentation starts with a line break. -/
theorem not_isIndent_head_of_lineBreak?
    {cs ending rest : List Char}
    (hEnding : lineBreak? cs = some (ending, rest)) :
    ∀ c ∈ cs.head?, isIndent c = false := by
  unfold lineBreak? at hEnding
  split at hEnding <;> simp_all <;> decide

namespace Form

/-
  The parts of a comment that is alone on its line: the
  indentation, the comment, the blanks behind it and the
  line break, before the rest of the text.
-/
structure WholeLine
    (form : Form)
    (indent comment trail ending rest : List Char) :
    Prop where
  indent_blank : ∀ c ∈ indent, isIndent c = true
  comment_found :
    form.comment? (comment ++ (trail ++ ending ++ rest)) =
      some (comment, trail ++ ending ++ rest)
  trail_blank : ∀ c ∈ trail, isIndent c = true
  ending_found :
    lineBreak? (ending ++ rest) = some (ending, rest)

theorem wholeLine?_eq_some_iff
    {form : Form}
    {cs piece rest : List Char} :
    form.wholeLine? cs = some (piece, rest) ↔
      ∃ indent comment trail ending,
        form.WholeLine indent comment trail ending rest ∧
          piece = indent ++ comment ++ trail ++ ending ∧
          cs = piece ++ rest := by
  simp only [wholeLine?, Option.bind_eq_bind,
    Option.bind_eq_some_iff, Option.pure_def,
    Option.some.injEq, Prod.mk.injEq, Prod.exists]
  constructor
  · rintro ⟨comment, tail, hComment, ending, rest', hEnding,
      rfl, rfl⟩
    have hTail := append_of_comment? hComment
    have hRest := append_of_lineBreak? hEnding
    have hIndent := run_append isIndent cs
    have hTrail := run_append isIndent tail
    rw [hRest, ← List.append_assoc] at hTrail
    refine ⟨(run isIndent cs).1, comment,
      (run isIndent tail).1, ending, ⟨?_, ?_, ?_, ?_⟩, rfl, ?_⟩
    · exact fun c hc => of_mem_run hc
    · rw [hTrail, ← hTail]
      exact hComment
    · exact fun c hc => of_mem_run hc
    · rw [← hRest]
      exact hEnding
    · rw [hTail] at hIndent
      rw [List.append_assoc, List.append_assoc,
        List.append_assoc, ← List.append_assoc _ ending,
        hTrail, hIndent]
  · rintro ⟨indent, comment, trail, ending, hLine, rfl, rfl⟩
    have hIndent :
        run isIndent
            (indent ++ comment ++ trail ++ ending ++ rest) =
          (indent, comment ++ (trail ++ ending ++ rest)) := by
      apply run_eq_iff.mpr
      refine ⟨by simp, hLine.indent_blank, ?_⟩
      rw [List.head?_append,
        head?_of_comment? hLine.comment_found]
      intro c hc
      have hSlash : '/' = c := by simpa using hc
      rw [← hSlash]
      decide
    have hTrail :
        run isIndent (trail ++ ending ++ rest) =
          (trail, ending ++ rest) := by
      apply run_eq_iff.mpr
      exact ⟨by simp, hLine.trail_blank,
        not_isIndent_head_of_lineBreak? hLine.ending_found⟩
    refine ⟨comment, trail ++ ending ++ rest, ?_,
      ending, rest, ?_, ?_, rfl⟩
    · rw [hIndent]
      exact hLine.comment_found
    · rw [hTrail]
      exact hLine.ending_found
    · rw [hIndent, hTrail]

/- A whole line depends on the next character only. -/
theorem WholeLine.congr
    {form : Form}
    (hWorded : form.Worded)
    {indent comment trail ending rest other : List Char}
    (hLine :
      form.WholeLine indent comment trail ending rest)
    (hHead : other.head? = rest.head?) :
    form.WholeLine indent comment trail ending other where
  indent_blank := hLine.indent_blank
  comment_found := by
    apply comment?_congr hWorded hLine.comment_found
    simp [List.head?_append, hHead]
  trail_blank := hLine.trail_blank
  ending_found :=
    lineBreak?_congr hLine.ending_found hHead

theorem wholeLine?_congr
    {form : Form}
    (hWorded : form.Worded)
    {piece rest other : List Char}
    (hPiece :
      form.wholeLine? (piece ++ rest) = some (piece, rest))
    (hHead : other.head? = rest.head?) :
    form.wholeLine? (piece ++ other) =
      some (piece, other) := by
  rcases wholeLine?_eq_some_iff.mp hPiece with
    ⟨indent, comment, trail, ending, hLine, hEq, _⟩
  exact wholeLine?_eq_some_iff.mpr
    ⟨indent, comment, trail, ending,
      hLine.congr hWorded hHead, hEq, rfl⟩

------------------------------------------------------------
-- Pieces
------------------------------------------------------------

/- Away from a line start a piece is a bare comment. -/
theorem piece?_false
    (form : Form)
    (cs : List Char) :
    form.piece? false cs = form.comment? cs := by
  simp [piece?]

/- A piece is a whole line or a bare comment. -/
theorem piece?_eq_some
    {form : Form}
    {lineStart : Bool}
    {cs : List Char}
    {result : List Char × List Char}
    (hPiece : form.piece? lineStart cs = some result) :
    (lineStart = true ∧ form.wholeLine? cs = some result) ∨
      form.comment? cs = some result := by
  unfold piece? at hPiece
  cases lineStart with
  | false => exact Or.inr (by simpa using hPiece)
  | true =>
      rcases Option.or_eq_some_iff.mp hPiece with
        hWhole | ⟨_, hComment⟩
      · exact Or.inl ⟨rfl, hWhole⟩
      · exact Or.inr hComment

/- Where no piece starts there is no comment. -/
theorem comment?_eq_none_of_piece?
    {form : Form}
    {lineStart : Bool}
    {cs : List Char}
    (hPiece : form.piece? lineStart cs = none) :
    form.comment? cs = none := by
  unfold piece? at hPiece
  exact (Option.or_eq_none_iff.mp hPiece).2

theorem append_of_piece?
    {form : Form}
    {lineStart : Bool}
    {cs piece rest : List Char}
    (hPiece : form.piece? lineStart cs = some (piece, rest)) :
    cs = piece ++ rest := by
  rcases piece?_eq_some hPiece with ⟨_, hWhole⟩ | hComment
  · rcases wholeLine?_eq_some_iff.mp hWhole with
      ⟨_, _, _, _, _, _, hText⟩
    exact hText
  · exact append_of_comment? hComment

/- A piece is never empty. -/
theorem ne_nil_of_piece?
    {form : Form}
    {lineStart : Bool}
    {cs piece rest : List Char}
    (hPiece : form.piece? lineStart cs = some (piece, rest)) :
    piece ≠ [] := by
  rcases piece?_eq_some hPiece with ⟨_, hWhole⟩ | hComment
  · rcases wholeLine?_eq_some_iff.mp hWhole with
      ⟨indent, comment, trail, ending, hLine, rfl, _⟩
    have hHead := head?_of_comment? hLine.comment_found
    intro hEmpty
    simp only [List.append_eq_nil_iff] at hEmpty
    simp [hEmpty.1.1.2] at hHead
  · intro hEmpty
    have hHead := head?_of_comment? hComment
    simp [hEmpty] at hHead

end Form

end Directive

end BiomeMigration
