import BiomeMigration.Proofs.Directive.Script

/-
  Where the forms find comments in a well-delimited text: at
  the start of a comment that they match in full, which they
  take as it stands, and nowhere else.

  Main declarations:
    * `Form.Plain`
    * `Form.comment?_text`
    * `Form.marksFrom_run`
    * `Form.marksFrom_comment`
-/

------------------------------------------------------------
-- Comments in Full
------------------------------------------------------------

namespace BiomeMigration

namespace Directive

namespace Form

/- The word of a form holds no blank, star or slash. -/
def Plain (form : Form) : Prop :=
  form.word ≠ [] ∧
    ∀ c ∈ form.word,
      isBlank c = false ∧ c ≠ '*' ∧ c ≠ '/'

/- Only the characters of the word are looked at. -/
instance (form : Form) : Decidable form.Plain :=
  have := List.decidableBAll
    (fun c => isBlank c = false ∧ c ≠ '*' ∧ c ≠ '/')
    form.word
  inferInstanceAs
    (Decidable
      (form.word ≠ [] ∧
        ∀ c ∈ form.word,
          isBlank c = false ∧ c ≠ '*' ∧ c ≠ '/'))

theorem plain_of_mem_standard :
    ∀ rule ∈ Rule.standard, rule.form.Plain := by
  decide

theorem Plain.worded
    {form : Form}
    (hPlain : form.Plain) :
    form.Worded := by
  unfold Worded
  cases hWord : form.word with
  | nil => exact (hPlain.1 hWord).elim
  | cons c word =>
      have hc := hPlain.2 c (by rw [hWord]; simp)
      simpa using hc.1

/- A comment is found at its own start without a text behind. -/
theorem comment?_self
    {form : Form}
    (hPlain : form.Plain)
    {comment rest : List Char}
    (hComment :
      form.comment? (comment ++ rest) = some (comment, rest)) :
    form.comment? comment = some (comment, []) := by
  rcases comment?_extend hPlain.worded hComment [] with
    ⟨more, tail, hNil, hFound⟩
  rcases List.append_eq_nil_iff.mp hNil.symm with ⟨rfl, rfl⟩
  simpa using hFound

end Form

/- A run that holds a sign ends before the sign behind it. -/
theorem exists_eq_append_of_not_mem
    {as bs cs ds : List Char}
    (hText : as ++ bs = cs ++ ds)
    (hSign : ∀ c ∈ bs.head?, c ∉ cs) :
    ∃ more, as = cs ++ more ∧ ds = more ++ bs := by
  rcases List.append_eq_append_iff.mp hText with
    ⟨beyond, hCs, hBs⟩ | ⟨more, hAs, hDs⟩
  · cases beyond with
    | nil =>
        refine ⟨[], ?_, ?_⟩
        · simpa using hCs.symm
        · simpa using hBs.symm
    | cons c beyond =>
        have hHead : c ∈ bs.head? := by
          rw [hBs]
          simp
        exfalso
        apply hSign c hHead
        rw [hCs]
        simp
  · exact ⟨more, hAs, hDs⟩

/- A block whose body is not closed before is closed here. -/
theorem throughClose?_of_not_hasClose
    {body : List Char}
    (hBody : ¬ HasClose body)
    (after : List Char) :
    throughClose? (body ++ '*' :: '/' :: after) =
      some (body ++ ['*', '/'], after) := by
  induction body with
  | nil => rfl
  | cons c body ih =>
      rw [hasClose_cons_iff, not_or] at hBody
      rw [List.cons_append, throughClose?, ih hBody.2]
      · rfl
      · intro rest hStar hRest
        cases body with
        | nil => simp at hRest
        | cons d body =>
            apply hBody.1
            refine ⟨hStar, ?_⟩
            rw [List.head?_cons,
              (List.cons.inj (hRest : d :: _ = _)).1]

/- A block whose body holds no slash is closed by its end. -/
theorem throughClose?_of_not_mem
    {body : List Char}
    (hBody : '/' ∉ body)
    (after : List Char) :
    throughClose? (body ++ '*' :: '/' :: after) =
      some (body ++ ['*', '/'], after) := by
  apply throughClose?_of_not_hasClose
  intro hClose
  exact hBody (hClose.subset (by simp))

/- A configuration whose body holds no slash, likewise. -/
theorem eq_of_blankThroughClose?
    {body inner after rest : List Char}
    (hBody : '/' ∉ body)
    (hFound :
      blankThroughClose? (body ++ '*' :: '/' :: after) =
        some (inner, rest)) :
    inner = body ++ ['*', '/'] := by
  rcases blankThroughClose?_eq_some_iff.mp hFound with
    ⟨c, free, _, hFree, rfl, hText⟩
  have hNoStar : '*' ∉ c :: free := by
    intro hStar
    have hFalse := hFree '*' hStar
    simp at hFalse
  have hText' :
      body ++ '*' :: '/' :: after =
        (c :: free) ++ '*' :: '/' :: rest := by
    rw [hText]
    simp
  rcases exists_eq_append_of_not_mem hText' (by simpa using hNoStar)
    with ⟨more, rfl, hMore⟩
  cases more with
  | nil => simp
  | cons d more =>
      cases more with
      | nil => simp at hMore
      | cons e more =>
          simp only [List.cons_append, List.cons.injEq]
            at hMore
          exfalso
          apply hBody
          rw [← hMore.2.1]
          simp

/- What ends a line is blank. -/
theorem isBlank_of_endsLine
    {after : List Char}
    (hEnds : EndsLine after) :
    ∀ c ∈ after.head?,
      isLineEnd c = true ∧ isBlank c = true := by
  intro c hc
  unfold EndsLine at hEnds
  split at hEnds
  · simp at hc
  · have hEq : '\n' = c := by simpa using hc
    rw [← hEq]
    decide
  · have hEq : '\r' = c := by simpa using hc
    rw [← hEq]
    decide
  · exact hEnds.elim

namespace Form

/- A form opens with a star, or it is one of lines. -/
theorem opener_cases (form : Form) :
    form.opener = ['/', '*'] ∨ ∃ word, form = .line word := by
  cases form with
  | block word => exact Or.inl rfl
  | configuration => exact Or.inl rfl
  | line word => exact Or.inr ⟨word, rfl⟩

/- A comment that opens with a star closes its block. -/
theorem exists_close_of_comment?
    {form : Form}
    (hOpener : form.opener = ['/', '*'])
    {cs comment rest : List Char}
    (hComment : form.comment? cs = some (comment, rest)) :
    ∃ inner, comment = '/' :: '*' :: (inner ++ ['*', '/']) := by
  rcases exists_lead_of_comment? hComment with
    ⟨lead, body, ⟨blanks, _, rfl⟩, rfl, hBody⟩
  have hSuffix : ['*', '/'] <:+ body := by
    cases form with
    | block word => exact close_suffix_of_throughClose? hBody
    | configuration =>
        rcases blankThroughClose?_eq_some_iff.mp hBody with
          ⟨c, inner, _, _, hEq, _⟩
        exact ⟨c :: inner, hEq.symm⟩
    | line word => simp [opener] at hOpener
  rcases hSuffix with ⟨inner, rfl⟩
  refine ⟨blanks ++ form.word ++ inner, ?_⟩
  rw [hOpener]
  simp

/- Blanks and a plain word hold no star and no slash. -/
theorem Plain.not_mem_lead
    {form : Form}
    (hPlain : form.Plain)
    {blanks : List Char}
    (hBlanks : ∀ c ∈ blanks, isBlank c = true)
    {sign : Char}
    (hSign : sign = '*' ∨ sign = '/') :
    sign ∉ blanks ++ form.word := by
  intro hIn
  rcases List.mem_append.mp hIn with hBlank | hWord
  · have hTrue := hBlanks sign hBlank
    rcases hSign with rfl | rfl
    · exact absurd hTrue (by decide)
    · exact absurd hTrue (by decide)
  · rcases hPlain.2 sign hWord with ⟨_, hNotStar, hNotSlash⟩
    rcases hSign with hEq | hEq
    · exact hNotStar hEq
    · exact hNotSlash hEq

/- The rest of a line is all of it. -/
theorem run_line
    {tail after : List Char}
    (hFeed : '\n' ∉ tail)
    (hReturn : '\r' ∉ tail)
    (hEnds : EndsLine after) :
    run (!isLineEnd ·) (tail ++ after) = (tail, after) := by
  apply run_eq_iff.mpr
  refine ⟨rfl, ?_, ?_⟩
  · intro c hc
    have hNotFeed : c ≠ '\n' := by
      rintro rfl
      exact hFeed hc
    have hNotReturn : c ≠ '\r' := by
      rintro rfl
      exact hReturn hc
    simp [isLineEnd, hNotFeed, hNotReturn]
  · intro c hc
    simp [(isBlank_of_endsLine hEnds c hc).1]

/- What a form finds at a delimited line is all of the line. -/
theorem eq_text_of_line
    {form : Form}
    (hPlain : form.Plain)
    {b after comment rest : List Char}
    (hDelimits : (Comment.line b).Delimits after)
    (hComment :
      form.comment? ('/' :: '/' :: (b ++ after)) =
        some (comment, rest)) :
    comment = '/' :: '/' :: b := by
  have hText := append_of_comment? hComment
  rcases exists_lead_of_comment? hComment with
    ⟨lead, body, ⟨blanks, hBlanks, rfl⟩, rfl, hBody⟩
  rcases hDelimits with
    ⟨_, hFeed, hReturn, ⟨d, hd, hNotBlank⟩, _, hEnds⟩
  rcases form.opener_cases with hOpener | ⟨word, rfl⟩
  · simp [hOpener] at hText
  · simp only [opener, Form.word, List.cons_append,
      List.nil_append, List.append_assoc, List.cons.injEq,
      true_and] at hText ⊢
    -- The body has a character that is not blank, so the
    -- blanks in front of the word end inside of it.
    have hInside : ∃ more, b = blanks ++ more := by
      rcases List.append_eq_append_iff.mp hText with
        ⟨beyond, hOver, _⟩ | ⟨more, hMore, _⟩
      · have hTrue := hBlanks d (by rw [hOver]; simp [hd])
        rw [hNotBlank] at hTrue
        simp at hTrue
      · exact ⟨more, hMore⟩
    rcases hInside with ⟨more, rfl⟩
    rw [List.append_assoc, List.append_cancel_left_eq]
      at hText
    have hWord : ∀ c ∈ after.head?, c ∉ word := by
      intro c hc hIn
      have hBlank := (isBlank_of_endsLine hEnds c hc).2
      have hPlainChar := hPlain.2 c hIn
      rw [hPlainChar.1] at hBlank
      simp at hBlank
    rcases exists_eq_append_of_not_mem hText hWord with
      ⟨tail, rfl, hTail⟩
    have hRun :
        run (!isLineEnd ·) (tail ++ after) = (tail, after) := by
      apply run_line
      · exact fun hIn => hFeed (by simp [hIn])
      · exact fun hIn => hReturn (by simp [hIn])
      · exact hEnds
    have hPair := Option.some.inj hBody
    rw [hTail, hRun] at hPair
    rw [(Prod.mk.inj hPair).1]

/- What is found at a delimited block is all of the block. -/
theorem eq_text_of_block
    {form : Form}
    (hPlain : form.Plain)
    {b after comment rest : List Char}
    (hSlash : '/' ∉ b)
    (hComment :
      form.comment? ('/' :: '*' :: (b ++ '*' :: '/' :: after)) =
        some (comment, rest)) :
    comment = '/' :: '*' :: (b ++ ['*', '/']) := by
  have hText := append_of_comment? hComment
  rcases exists_lead_of_comment? hComment with
    ⟨lead, body, ⟨blanks, hBlanks, rfl⟩, rfl, hBody⟩
  rcases form.opener_cases with hOpener | ⟨word, rfl⟩
  · rw [hOpener] at hText ⊢
    simp only [List.cons_append, List.nil_append,
      List.append_assoc, List.cons.injEq, true_and]
      at hText ⊢
    have hStar : '*' ∉ blanks ++ form.word :=
      hPlain.not_mem_lead hBlanks (Or.inl rfl)
    rw [← List.append_assoc] at hText
    rcases exists_eq_append_of_not_mem hText
        (by simpa using hStar) with
      ⟨tail, rfl, hTail⟩
    have hNoSlash : '/' ∉ tail := by
      intro hIn
      exact hSlash (by simp [hIn])
    rw [hTail] at hBody
    have hEq : body = tail ++ ['*', '/'] := by
      cases form with
      | block word =>
          have hClose := throughClose?_of_not_mem hNoSlash after
          have hPair :=
            Option.some.inj (hClose.symm.trans hBody)
          exact (Prod.mk.inj hPair).1.symm
      | configuration =>
          exact eq_of_blankThroughClose? hNoSlash hBody
      | line word => simp [opener] at hOpener
    rw [hEq]
    simp
  · simp [opener] at hText

/-
  A comment that a form finds at the start of a delimited
  comment is that comment.
-/
theorem eq_text_of_comment?
    {form : Form}
    (hPlain : form.Plain)
    {c : Comment}
    {after comment rest : List Char}
    (hDelimits : c.Delimits after)
    (hComment :
      form.comment? (c.text ++ after) = some (comment, rest)) :
    comment = c.text := by
  cases c with
  | line b => exact eq_text_of_line hPlain hDelimits hComment
  | block b =>
      apply eq_text_of_block hPlain hDelimits.1
      simpa [Comment.text] using hComment

/-
  At the start of a delimited comment a form finds the
  comment if it matches it in full, else nothing.
-/
theorem comment?_text
    {form : Form}
    (hPlain : form.Plain)
    {c : Comment}
    {after : List Char}
    (hDelimits : c.Delimits after) :
    form.comment? (c.text ++ after) =
      if form.matchesComment c then some (c.text, after)
      else none := by
  cases hFound : form.comment? (c.text ++ after) with
  | none =>
      have hNot : form.matchesComment c = false := by
        cases hMatches : form.matchesComment c with
        | false => rfl
        | true =>
            have hSelf :
                form.comment? (c.text ++ []) =
                  some (c.text, []) := by
              rw [List.append_nil]
              exact eq_of_beq hMatches
            rcases comment?_extend hPlain.worded hSelf after
              with ⟨more, tail, _, hSome⟩
            rw [hFound] at hSome
            simp at hSome
      rw [hNot]
      rfl
  | some result =>
      rcases result with ⟨comment, rest⟩
      have hEq := eq_text_of_comment? hPlain hDelimits hFound
      have hText := append_of_comment? hFound
      subst hEq
      rw [List.append_cancel_left_eq] at hText
      subst hText
      have hMatches : form.matchesComment c = true := by
        unfold matchesComment
        rw [comment?_self hPlain hFound]
        simp
      rw [hMatches]
      rfl

end Form

end Directive

end BiomeMigration

------------------------------------------------------------
-- Places without a Comment
------------------------------------------------------------

namespace BiomeMigration

namespace Directive

namespace Form

/- No comment starts without a slash. -/
theorem comment?_eq_none_of_head
    {form : Form}
    {cs : List Char}
    (hHead : cs.head? ≠ some '/') :
    form.comment? cs = none := by
  cases hFound : form.comment? cs with
  | none => rfl
  | some result =>
      rcases result with ⟨comment, rest⟩
      exfalso
      apply hHead
      rw [append_of_comment? hFound, List.head?_append,
        head?_of_comment? hFound]
      rfl

theorem wholeLine?_eq_none
    {form : Form}
    {cs : List Char}
    (hComment : form.comment? (run isIndent cs).2 = none) :
    form.wholeLine? cs = none := by
  simp [wholeLine?, hComment]

theorem piece?_eq_none
    {form : Form}
    {lineStart : Bool}
    {cs : List Char}
    (hComment : form.comment? cs = none)
    (hLine :
      lineStart = true → form.wholeLine? cs = none) :
    form.piece? lineStart cs = none := by
  unfold piece?
  rw [hComment, Option.or_none]
  cases lineStart with
  | false => rfl
  | true => exact hLine rfl

/-
  The slash that closes a block starts no comment, if the
  text behind it has no star, and no slash but one that
  starts a comment.
-/
theorem comment?_slash
    {form : Form}
    (hPlain : form.Plain)
    {after : List Char}
    (hStar : after.head? ≠ some '*')
    (hSlash :
      ∀ tail, after = '/' :: tail →
        tail.head? = some '/' ∨ tail.head? = some '*') :
    form.comment? ('/' :: after) = none := by
  cases hFound : form.comment? ('/' :: after) with
  | none => rfl
  | some result =>
      exfalso
      rcases result with ⟨comment, rest⟩
      have hText := append_of_comment? hFound
      rcases exists_lead_of_comment? hFound with
        ⟨lead, body, ⟨blanks, hBlanks, rfl⟩, rfl, _⟩
      rcases form.opener_cases with hOpener | ⟨word, rfl⟩
      · rw [hOpener] at hText
        simp only [List.cons_append, List.cons.injEq,
          true_and] at hText
        exact hStar (by rw [hText]; rfl)
      · simp only [opener, List.cons_append, List.nil_append,
          List.append_assoc, List.cons.injEq, true_and]
          at hText
        have hSign := hSlash _ hText
        rw [← List.append_assoc] at hSign
        -- The sign would be a blank, or one of the word.
        cases hLead : blanks ++ Form.word (.line word) with
        | nil =>
            exact hPlain.1 (List.append_eq_nil_iff.mp hLead).2
        | cons d tail =>
            have hd : d ∈ blanks ++ Form.word (.line word) := by
              rw [hLead]
              simp
            rw [hLead] at hSign
            simp only [List.cons_append, List.head?_cons,
              Option.some.injEq] at hSign
            exact hPlain.not_mem_lead hBlanks hSign.symm hd

/- Marks of characters at which no piece starts. -/
theorem marksFrom_run
    {form : Form}
    {lineStart : Bool}
    {part after : List Char}
    (hNone :
      ∀ front c back,
        part = front ++ c :: back →
          form.piece? (startsLine lineStart front)
            (c :: (back ++ after)) = none) :
    form.marksFrom lineStart 0 (part ++ after) =
      List.replicate part.length .stays ++
        form.marksFrom (startsLine lineStart part) 0
          after := by
  induction part generalizing lineStart with
  | nil => rfl
  | cons c part ih =>
      have hHead :
          form.piece? lineStart (c :: (part ++ after)) = none :=
        hNone [] c part rfl
      rw [List.cons_append, marksFrom_stays hHead, ih]
      · rfl
      · intro front d back hPart
        exact hNone (c :: front) d back (by rw [hPart]; rfl)

end Form

end Directive

end BiomeMigration

------------------------------------------------------------
-- Inside of a Comment
------------------------------------------------------------

namespace BiomeMigration

namespace Directive

/- No line starts behind characters without a line feed. -/
theorem startsLine_of_not_mem
    {cs : List Char}
    (hFeed : '\n' ∉ cs) :
    startsLine false cs = false := by
  induction cs with
  | nil => rfl
  | cons c cs ih =>
      simp only [List.mem_cons, not_or] at hFeed
      have hc : (c == '\n') = false := by
        simpa using Ne.symm hFeed.1
      rw [startsLine, hc]
      exact ih hFeed.2

/- No line starts behind a comment. -/
theorem Comment.startsLine_text
    {c : Comment}
    {after : List Char}
    (hDelimits : c.Delimits after)
    (lineStart : Bool) :
    startsLine lineStart c.text = false := by
  cases c with
  | line body =>
      rcases hDelimits with ⟨_, hFeed, _⟩
      apply startsLine_of_not_mem
      simpa using hFeed
  | block body =>
      simp only [Comment.text, startsLine, startsLine_append]
      decide

/-
  A text behind a comment that goes on with a slash goes on
  with a comment.
-/
def SlashOpens (after : List Char) : Prop :=
  ∀ tail, after = '/' :: tail →
    tail.head? = some '/' ∨ tail.head? = some '*'

namespace Form

private theorem piece?_inside_line
    {form : Form}
    {body after : List Char}
    (hDelimits : (Comment.line body).Delimits after)
    {front back : List Char}
    {c : Char}
    (lineStart : Bool)
    (hPart : '/' :: body = front ++ c :: back) :
    form.piece? (startsLine lineStart ('/' :: front))
      (c :: (back ++ after)) = none := by
  rcases hDelimits with
    ⟨hSlash, hFeed, _, ⟨d, hd, _⟩, hStar, _⟩
  have hNoLine : startsLine lineStart ('/' :: front) = false := by
    apply startsLine_of_not_mem
    intro hIn
    have hBody : '\n' ∈ '/' :: body := by
      rw [hPart]
      simp [hIn]
    simp at hBody
    exact hFeed hBody
  rw [hNoLine, piece?_false]
  cases front with
  | nil =>
      rcases List.cons.inj hPart with ⟨rfl, rfl⟩
      cases body with
      | nil => simp at hd
      | cons e body =>
          cases hFound :
              form.comment? ('/' :: (e :: body ++ after)) with
          | none => rfl
          | some result =>
              exfalso
              rcases result with ⟨comment, rest⟩
              have hText := append_of_comment? hFound
              rcases exists_lead_of_comment? hFound with
                ⟨lead, inner, ⟨blanks, _, rfl⟩, rfl, _⟩
              simp only [List.mem_cons, not_or] at hSlash
              rcases form.opener_cases with
                hOpener | ⟨word, rfl⟩
              · simp [hOpener] at hText
                exact hStar (by simp [hText.1])
              · simp [opener] at hText
                exact hSlash.1 hText.1.symm
  | cons e front =>
      rcases List.cons.inj hPart with ⟨_, hBody⟩
      apply comment?_eq_none_of_head
      intro hHead
      have hc : c = '/' := by simpa using hHead
      apply hSlash
      rw [hBody, hc]
      simp

/- No piece starts in a text without slashes before a star. -/
theorem piece?_eq_none_of_star
    {form : Form}
    {part : List Char}
    (hPart : '/' ∉ part)
    (after : List Char)
    (lineStart : Bool) :
    form.piece? lineStart (part ++ '*' :: after) = none := by
  have hHead :
      ∀ {cs : List Char}, cs ⊆ part →
        (cs ++ '*' :: after).head? ≠ some '/' := by
    intro cs hSubset hHead
    cases cs with
    | nil => simp at hHead
    | cons c cs =>
        simp only [List.cons_append, List.head?_cons,
          Option.some.injEq] at hHead
        exact hPart (hHead ▸ hSubset (by simp))
  apply piece?_eq_none
  · exact comment?_eq_none_of_head (hHead (List.Subset.refl _))
  · intro _
    apply wholeLine?_eq_none
    apply comment?_eq_none_of_head
    rw [run_append_right (by simp [isIndent])]
    exact hHead (List.dropWhile_sublist _).subset

private theorem piece?_inside_block
    {form : Form}
    (hPlain : form.Plain)
    {body after : List Char}
    (hDelimits : (Comment.block body).Delimits after)
    (hAfter : SlashOpens after)
    {front back : List Char}
    {c : Char}
    (lineStart : Bool)
    (hPart :
      '*' :: (body ++ ['*', '/']) = front ++ c :: back) :
    form.piece? (startsLine lineStart ('/' :: front))
      (c :: (back ++ after)) = none := by
  rcases hDelimits with ⟨hSlash, hStar⟩
  have hPart' :
      ('*' :: body) ++ ['*', '/'] = front ++ c :: back := by
    simpa using hPart
  rcases List.append_eq_append_iff.mp hPart' with
    ⟨beyond, hFront, hOver⟩ | ⟨beyond, hBody, hBack⟩
  · cases beyond with
    | nil =>
        simp only [List.nil_append, List.cons.injEq] at hOver
        rcases hOver with ⟨rfl, rfl⟩
        exact piece?_eq_none_of_star List.not_mem_nil _ _
    | cons d beyond =>
        cases beyond with
        | nil =>
            simp only [List.cons_append, List.nil_append,
              List.cons.injEq] at hOver
            rcases hOver with ⟨rfl, rfl, rfl⟩
            have hNoLine :
                startsLine lineStart ('/' :: front) =
                  false := by
              rw [hFront]
              simp [startsLine]
            rw [hNoLine, piece?_false]
            exact comment?_slash hPlain hStar hAfter
        | cons e beyond => simp at hOver
  · have hNotSlash : '/' ∉ beyond := by
      intro hIn
      have hOpened : '/' ∈ '*' :: body := by
        rw [hBody]
        simp [hIn]
      simp at hOpened
      exact hSlash hOpened
    have hText :
        c :: (back ++ after) =
          beyond ++ '*' :: '/' :: after := by
      rw [← List.cons_append, hBack]
      simp
    rw [hText]
    exact piece?_eq_none_of_star hNotSlash _ _

/-
  If no piece starts where a comment starts, all its
  characters stay.
-/
theorem marksFrom_comment
    {form : Form}
    (hPlain : form.Plain)
    {c : Comment}
    {after : List Char}
    (hDelimits : c.Delimits after)
    (hAfter : SlashOpens after)
    {lineStart : Bool}
    (hFirst :
      form.piece? lineStart (c.text ++ after) = none) :
    form.marksFrom lineStart 0 (c.text ++ after) =
      List.replicate c.text.length .stays ++
        form.marksFrom false 0 after := by
  rw [marksFrom_run, Comment.startsLine_text hDelimits]
  intro front d back hPart
  cases c with
  | line body =>
      cases front with
      | nil =>
          rw [hPart] at hFirst
          exact hFirst
      | cons e front =>
          rcases List.cons.inj hPart with ⟨rfl, hTail⟩
          exact piece?_inside_line hDelimits lineStart hTail
  | block body =>
      cases front with
      | nil =>
          rw [hPart] at hFirst
          exact hFirst
      | cons e front =>
          rcases List.cons.inj hPart with ⟨rfl, hTail⟩
          exact piece?_inside_block hPlain hDelimits hAfter
            lineStart hTail

end Form

end Directive

end BiomeMigration
