import BiomeMigration.Proofs.Directive.Single

/-
  One block comment in a text without other slashes. Whole
  comments go whatever their body is, except that a rule
  configuration stays if there is a star in its body.

  Main declarations:
    * `Form.Scan.exists_first_piece`
    * `strip_eq_or_not_hasClose`
    * `Comment.configuration`
    * `cut_or_opened`
-/

------------------------------------------------------------
-- The End of a Block
------------------------------------------------------------

namespace BiomeMigration

namespace Directive

/- A close in a first part is found before the second one. -/
theorem exists_of_hasClose
    {cs body rest : List Char}
    (hClose : HasClose cs)
    (after : List Char)
    (hFound : throughClose? (cs ++ after) = some (body, rest)) :
    ∃ tail, rest = tail ++ after := by
  rcases Option.isSome_iff_exists.mp
      ((throughClose?_isSome_iff cs).mpr hClose) with
    ⟨⟨inner, tail⟩, hInner⟩
  have hText := append_of_throughClose? hInner
  rw [hText] at hInner
  have hLonger := throughClose?_append hInner (tail ++ after)
  rw [← List.append_assoc, ← hText, hFound] at hLonger
  exact ⟨tail, (Prod.mk.inj (Option.some.inj hLonger)).2⟩

/- Text without a star opens no close. -/
theorem HasClose.of_append_left
    {as bs : List Char}
    (hClose : HasClose (as ++ bs))
    (hStar : '*' ∉ as) :
    HasClose bs := by
  induction as with
  | nil => exact hClose
  | cons a as ih =>
      simp only [List.mem_cons, not_or] at hStar
      rw [List.cons_append, hasClose_cons_iff] at hClose
      rcases hClose with ⟨hHead, _⟩ | hRest
      · exact (hStar.1 hHead.symm).elim
      · exact ih hRest hStar.2

/- Text without a slash ends no close. -/
theorem HasClose.of_append_right
    {as bs : List Char}
    (hClose : HasClose (as ++ bs))
    (hSlash : '/' ∉ bs) :
    HasClose as := by
  rcases hClose with ⟨front, back, hText⟩
  have hSplit :
      as ++ bs = (front ++ ['*', '/']) ++ back := hText.symm
  rcases List.append_eq_append_iff.mp hSplit with
    ⟨beyond, hFront, hBs⟩ | ⟨beyond, hAs, _⟩
  · rcases List.eq_nil_or_concat beyond with
      rfl | ⟨beyond, c, rfl⟩
    · rw [List.append_nil] at hFront
      exact ⟨front, [], by rw [← hFront]; simp⟩
    · have hLast : '/' = c := by
        have hEnds := congrArg List.getLast? hFront
        simpa using hEnds
      exact (hSlash (by rw [hBs, hLast]; simp)).elim
  · exact ⟨front, beyond, hAs.symm⟩

/- What closes a configuration closes a block. -/
theorem hasClose_of_blankThroughClose?
    {cs : List Char}
    {result : List Char × List Char}
    (hFound : blankThroughClose? cs = some result) :
    HasClose cs := by
  rcases blankThroughClose?_eq_some_iff.mp hFound with
    ⟨c, inner, _, _, hBody, hText⟩
  exact ⟨c :: inner, result.2, by rw [hText, hBody]⟩

/- A star in front of its end keeps a configuration open. -/
theorem blankThroughClose?_eq_none
    {body : List Char}
    (hBody : ¬ HasClose body)
    (hStar : '*' ∈ body)
    (after : List Char) :
    blankThroughClose? (body ++ '*' :: '/' :: after) = none := by
  cases hFound :
      blankThroughClose? (body ++ '*' :: '/' :: after) with
  | none => rfl
  | some result =>
      exfalso
      rcases blankThroughClose?_eq_some_iff.mp hFound with
        ⟨c, inner, _, hInner, hEq, hText⟩
      have hFree : '*' ∉ c :: inner := by
        intro hIn
        simpa using hInner '*' hIn
      rw [hEq, List.append_assoc] at hText
      rcases List.append_eq_append_iff.mp hText with
        ⟨beyond, hOver, _⟩ | ⟨beyond, hOver, hRest⟩
      · apply hFree
        rw [hOver]
        exact List.mem_append_left _ hStar
      · cases beyond with
        | nil =>
            rw [hOver, List.append_nil] at hStar
            exact hFree hStar
        | cons d beyond =>
            cases beyond with
            | nil => simp at hRest
            | cons e beyond =>
                simp only [List.cons_append, List.nil_append,
                  List.cons.injEq] at hRest
                rcases hRest with ⟨rfl, rfl, _⟩
                exact hBody ⟨c :: inner, beyond,
                  by rw [hOver]; simp⟩

end Directive

end BiomeMigration

------------------------------------------------------------
-- The First Piece
------------------------------------------------------------

namespace BiomeMigration

namespace Directive

namespace Form

/- A scan cuts nothing, or it has a first piece. -/
theorem Scan.exists_first_piece
    {α : Type}
    {form : Form}
    {lineStart : Bool}
    {xs kept : List (Char × α)}
    {cut : List (List (Char × α))}
    (hScan : form.Scan lineStart xs kept cut) :
    kept = xs ∨
      ∃ before piece after rest,
        xs = before ++ piece ++ after ∧
          kept = before ++ rest ∧
          rest.Sublist after ∧
          form.piece? (startsLine lineStart (chars before))
              (chars (piece ++ after)) =
            some (chars piece, chars after) := by
  induction hScan with
  | done lineStart => exact Or.inl rfl
  | @stays lineStart x xs kept cut hPiece hRest ih =>
      rcases ih with
        rfl | ⟨before, piece, after, rest, rfl, rfl, hFound⟩
      · exact Or.inl rfl
      · exact Or.inr
          ⟨x :: before, piece, after, rest, rfl, rfl, hFound⟩
  | @cuts lineStart piece xs kept cut hPiece hRest ih =>
      exact Or.inr
        ⟨[], piece, xs, kept, rfl, rfl, hRest.sublist, hPiece⟩

/- The same for a text and its marks. -/
theorem exists_first_piece
    (form : Form)
    (cs : List Char) :
    keep (form.marks cs) cs = cs ∨
      ∃ before piece after rest,
        cs = before ++ piece ++ after ∧
          keep (form.marks cs) cs = before ++ rest ∧
          rest ⊆ after ∧
          form.piece? (startsLine true before)
              (piece ++ after) =
            some (piece, after) := by
  rcases form.exists_scan_marks cs with
    ⟨xs, kept, cut, hText, hKept, _, hScan⟩
  rcases hScan.exists_first_piece with
    rfl | ⟨before, piece, after, rest, rfl, rfl, hRest, hFound⟩
  · exact Or.inl (hKept.symm.trans hText)
  · refine Or.inr ⟨chars before, chars piece, chars after,
      chars rest, ?_, ?_, ?_, ?_⟩
    · rw [← hText]
      simp
    · rw [← hKept]
      simp
    · exact (hRest.map Prod.fst).subset
    · simpa using hFound

/- A close in what a pass leaves was in the text before. -/
theorem hasClose_of_keep
    {form : Form}
    {cs : List Char}
    (hClose : HasClose (keep (form.marks cs) cs)) :
    HasClose cs := by
  rcases form.exists_scan_marks cs with
    ⟨xs, kept, cut, rfl, hKept, _, hScan⟩
  rw [← hKept] at hClose
  exact hScan.hasClose hClose

/- A piece of a block holds the end of a block. -/
theorem hasClose_of_piece?
    {form : Form}
    (hOpener : form.opener = ['/', '*'])
    {lineStart : Bool}
    {text piece rest : List Char}
    (hPiece : form.piece? lineStart text = some (piece, rest)) :
    HasClose piece := by
  rcases piece?_eq_some hPiece with ⟨_, hWhole⟩ | hComment
  · rcases wholeLine?_eq_some_iff.mp hWhole with
      ⟨indent, comment, trail, ending, hLine, rfl, _⟩
    rcases exists_close_of_comment? hOpener hLine.comment_found
      with ⟨inner, rfl⟩
    exact ⟨indent ++ '/' :: '*' :: inner, trail ++ ending,
      by simp⟩
  · rcases exists_close_of_comment? hOpener hComment with
      ⟨inner, rfl⟩
    exact ⟨'/' :: '*' :: inner, [], by simp⟩

/-
  With one close only, a block that is cut takes it along:
  its form leaves all of the text, or no close in it.
-/
theorem keep_eq_or_not_hasClose
    {form : Form}
    (hOpener : form.opener = ['/', '*'])
    {cs body back : List Char}
    (hFound : throughClose? cs = some (body, back))
    (hBack : '/' ∉ back) :
    keep (form.marks cs) cs = cs ∨
      ¬ HasClose (keep (form.marks cs) cs) := by
  rcases form.exists_first_piece cs with
    hSame | ⟨before, piece, after, rest, hText, hKept, hRest,
      hPiece⟩
  · exact Or.inl hSame
  · right
    rw [hKept]
    intro hClose
    have hEnd := hasClose_of_piece? hOpener hPiece
    have hAfter : '/' ∉ after := by
      rw [hText] at hFound
      rcases exists_of_hasClose (hEnd.append_left before) after
        hFound with ⟨tail, rfl⟩
      exact fun hIn => hBack (List.mem_append_right _ hIn)
    have hBefore : HasClose before :=
      hClose.of_append_right fun hIn => hAfter (hRest hIn)
    rw [hText, List.append_assoc] at hFound
    rcases exists_of_hasClose hBefore _ hFound with
      ⟨tail, rfl⟩
    apply hBack
    have hSlash : '/' ∈ piece := hEnd.subset (by simp)
    simp [hSlash]

end Form

/- All rules for blocks leave all of it, or no close. -/
theorem strip_eq_or_not_hasClose
    {rules : List Rule}
    (hRules : ∀ rule ∈ rules, rule.form.opener = ['/', '*'])
    {cs text body back : List Char}
    (hFound : throughClose? cs = some (body, back))
    (hBack : '/' ∉ back)
    (hText : text = cs ∨ ¬ HasClose text) :
    (strip rules text).text = cs ∨
      ¬ HasClose (strip rules text).text := by
  induction rules generalizing text with
  | nil => exact hText
  | cons rule rules ih =>
      apply ih
      · exact fun other hOther =>
          hRules other (List.mem_cons_of_mem rule hOther)
      · rcases hText with rfl | hNone
        · exact Form.keep_eq_or_not_hasClose
            (hRules rule List.mem_cons_self) hFound hBack
        · exact Or.inr fun hClose =>
            hNone (Form.hasClose_of_keep hClose)

end Directive

end BiomeMigration

------------------------------------------------------------
-- A Comment That Is Not Matched
------------------------------------------------------------

namespace BiomeMigration

namespace Directive

/- The start of a configuration, up to the blank. -/
def opened (blanks : List Char) (b : Char) : List Char :=
  '/' :: '*' :: (blanks ++ "eslint".toList ++ [b])

namespace Form

/-
  The start of a comment stays, where its form finds none,
  as does the text without a slash in front of it.
-/
theorem marks_opened
    {form : Form}
    {front blanks rest : List Char}
    {b : Char}
    (hFront : '/' ∉ front)
    (hBlanks : ∀ c ∈ blanks, isBlank c = true)
    (hBlank : isBlank b = true)
    (hComment : form.comment? (opened blanks b ++ rest) = none) :
    form.marks (front ++ opened blanks b ++ rest) =
      List.replicate (front ++ opened blanks b).length .stays ++
        form.marksFrom (b == '\n') 0 rest := by
  have hText :
      opened blanks b ++ rest =
        '/' :: (('*' :: (blanks ++ "eslin".toList)) ++
          't' :: b :: rest) := by
    simp [opened]
  have hInside : '/' ∉ '*' :: (blanks ++ "eslin".toList) := by
    intro hIn
    simp only [List.mem_cons, List.mem_append] at hIn
    rcases hIn with hStar | hIn | hWord
    · cases hStar
    · exact absurd (hBlanks '/' hIn) (by decide)
    · exact absurd hWord (by decide)
  have hSlash : b ≠ '/' := by
    rintro rfl
    cases hBlank
  have hOpen :
      form.piece? (startsLine true front)
          (opened blanks b ++ rest) =
        none := by
    apply piece?_eq_none hComment
    intro _
    exact wholeLine?_eq_none_of_head
      (by simp [opened, isIndent]) hComment
  have hWord :
      ∀ lineStart,
        form.piece? lineStart ('t' :: b :: rest) = none := by
    intro lineStart
    have hNone : form.comment? ('t' :: b :: rest) = none :=
      comment?_eq_none_of_head (by simp)
    apply piece?_eq_none hNone
    intro _
    exact wholeLine?_eq_none_of_head (by simp [isIndent]) hNone
  have hLast : form.piece? false (b :: rest) = none := by
    rw [piece?_false]
    exact comment?_eq_none_of_head (by simpa using hSlash)
  unfold marks
  rw [List.append_assoc,
    marksFrom_before_of_none hFront (by simp [opened, isIndent])
      hComment,
    hText, marksFrom_stays (by rw [← hText]; exact hOpen),
    marksFrom_before_of_none hInside (by simp [isIndent])
      (comment?_eq_none_of_head (by simp)),
    marksFrom_stays (hWord _)]
  have hNoLine : ('t' == '\n') = false := rfl
  have hLength :
      (front ++ opened blanks b).length =
        front.length +
          (1 + (('*' :: (blanks ++ "eslin".toList)).length +
            2)) := by
    simp [opened]
    omega
  rw [hNoLine, marksFrom_stays hLast, hLength,
    List.replicate_add, List.replicate_add, List.replicate_add]
  simp only [List.append_assoc]
  rfl

/- What begins like a configuration has another word. -/
theorem comment?_opened_eq_none
    {form : Form}
    (hWord : "eslint-".toList <+: form.word)
    {blanks : List Char}
    {b : Char}
    (hBlanks : ∀ c ∈ blanks, isBlank c = true)
    (hBlank : isBlank b = true)
    (rest : List Char) :
    form.comment? (opened blanks b ++ rest) = none := by
  rcases hWord with ⟨more, hWord⟩
  have hRun :
      run isBlank (blanks ++ ("eslint".toList ++ b :: rest)) =
        (blanks, "eslint".toList ++ b :: rest) := by
    apply run_eq_iff.mpr
    refine ⟨rfl, hBlanks, ?_⟩
    intro c hc
    have hFirst : 'e' = c := by simpa using hc
    rw [← hFirst]
    rfl
  have hOther : b ≠ '-' := by
    rintro rfl
    cases hBlank
  have hNone :
      after? form.word ("eslint".toList ++ b :: rest) = none := by
    rw [← hWord]
    simp [after?, hOther.symm]
  have hText :
      opened blanks b ++ rest =
        '/' :: '*' ::
          (blanks ++ ("eslint".toList ++ b :: rest)) := by
    simp [opened]
  rw [hText]
  unfold comment?
  rcases form.opener_cases with hOpener | ⟨word, rfl⟩
  · rw [hOpener]
    simp only [after?, if_true, Option.bind_eq_bind,
      Option.bind_some, hRun, hNone, Option.bind_none]
  · rfl

/- A configuration is found behind its start, or it is not. -/
theorem configuration_comment?_opened
    {blanks : List Char}
    {b : Char}
    (hBlanks : ∀ c ∈ blanks, isBlank c = true)
    (rest : List Char) :
    configuration.comment? (opened blanks b ++ rest) =
      (blankThroughClose? (b :: rest)).map
        fun (body, after) =>
          ('/' :: '*' :: (blanks ++ "eslint".toList ++ body),
            after) := by
  have hLead :
      configuration.IsLead
        ('/' :: '*' :: (blanks ++ "eslint".toList)) :=
    ⟨blanks, hBlanks, rfl⟩
  have hText :
      opened blanks b ++ rest =
        '/' :: '*' :: (blanks ++ "eslint".toList) ++
          b :: rest := by
    simp [opened]
  rw [hText, comment?_lead (by decide) hLead]
  rfl

end Form

end Directive

end BiomeMigration

------------------------------------------------------------
-- Configurations
------------------------------------------------------------

namespace BiomeMigration

namespace Directive

/- A rule configuration: blanks, the word, a blank, a body. -/
def Comment.configuration
    (blanks : List Char)
    (b : Char)
    (body : List Char) : Comment :=
  .block (blanks ++ "eslint".toList ++ b :: body)

/- The text of a configuration between two others. -/
theorem configuration_text_eq
    (front blanks body back : List Char)
    (b : Char) :
    front ++ ((Comment.configuration blanks b body).text ++
        back) =
      front ++ opened blanks b ++
        (body ++ '*' :: '/' :: back) := by
  simp [Comment.configuration, Comment.text, opened]

section Start

variable {front blanks text : List Char} {b : Char}

/- The start of a configuration stays in a pass. -/
theorem Form.prefix_keep
    {form : Form}
    {rest : List Char}
    (hFront : '/' ∉ front)
    (hBlanks : ∀ c ∈ blanks, isBlank c = true)
    (hBlank : isBlank b = true)
    (hComment : form.comment? (opened blanks b ++ rest) = none) :
    front ++ opened blanks b <+:
      keep (form.marks (front ++ opened blanks b ++ rest))
        (front ++ opened blanks b ++ rest) := by
  rw [marks_opened hFront hBlanks hBlank hComment,
    keep_replicate_stays]
  exact List.prefix_append _ _

/- It stays in all passes of rules with other words. -/
theorem prefix_strip
    {rules : List Rule}
    (hRules :
      ∀ rule ∈ rules, "eslint-".toList <+: rule.form.word)
    (hFront : '/' ∉ front)
    (hBlanks : ∀ c ∈ blanks, isBlank c = true)
    (hBlank : isBlank b = true)
    (hText : front ++ opened blanks b <+: text) :
    front ++ opened blanks b <+: (strip rules text).text := by
  induction rules generalizing text with
  | nil => exact hText
  | cons rule rules ih =>
      rcases hText with ⟨rest, rfl⟩
      apply ih
      · exact fun other hOther =>
          hRules other (List.mem_cons_of_mem rule hOther)
      · exact Form.prefix_keep hFront hBlanks hBlank
          (Form.comment?_opened_eq_none
            (hRules rule List.mem_cons_self) hBlanks hBlank
            rest)

end Start

/- No block fits into a text with less than two stars. -/
theorem Form.marksFrom_of_count
    {form : Form}
    (hOpener : form.opener = ['/', '*'])
    {cs : List Char}
    (hStars : cs.count '*' < 2)
    (lineStart : Bool) :
    form.marksFrom lineStart 0 cs =
      List.replicate cs.length .stays := by
  have hNone :
      ∀ {part : List Char}, part <:+ cs →
        form.comment? part = none := by
    intro part hSuffix
    cases hFound : form.comment? part with
    | none => rfl
    | some result =>
        rcases result with ⟨comment, rest⟩
        exfalso
        have hText := append_of_comment? hFound
        rcases exists_close_of_comment? hOpener hFound with
          ⟨inner, rfl⟩
        have hLess := hSuffix.sublist.count_le '*'
        rw [hText] at hLess
        simp only [List.count_append, List.count_cons]
          at hLess
        simp at hLess
        omega
  have hMarks :
      form.marksFrom lineStart 0 (cs ++ []) =
        List.replicate cs.length .stays ++
          form.marksFrom (startsLine lineStart cs) 0 [] := by
    apply marksFrom_run
    intro front c back hPart
    rw [List.append_nil]
    have hSuffix : c :: back <:+ cs := ⟨front, hPart.symm⟩
    apply piece?_eq_none (hNone hSuffix)
    intro _
    apply wholeLine?_eq_none
    exact hNone ((List.dropWhile_suffix _).trans hSuffix)
  simpa [marksFrom] using hMarks

section Configuration

variable {front back blanks body : List Char} {b : Char}

/- The rule for configurations has its pass as the fourth. -/
theorem standard_eq :
    Rule.standard =
      Rule.standard.take 3 ++
        (⟨"block-rules", .configuration⟩ ::
          Rule.standard.drop 4) :=
  rfl

/- The rules before it are for blocks with other words. -/
theorem earlier_words :
    ∀ rule ∈ Rule.standard.take 3,
      rule.form.opener = ['/', '*'] ∧
        "eslint-".toList <+: rule.form.word := by
  decide

theorem later_words :
    ∀ rule ∈ Rule.standard.drop 4,
      "eslint-".toList <+: rule.form.word := by
  decide

/- A configuration without a star in its body is found. -/
theorem configuration_comment?_text
    (hBlanks : ∀ c ∈ blanks, isBlank c = true)
    (hBlank : isBlank b = true)
    (hBody : '*' ∉ body)
    (back : List Char) :
    Form.configuration.comment?
        ((Comment.configuration blanks b body).text ++ back) =
      some ((Comment.configuration blanks b body).text,
        back) := by
  have hFound :
      blankThroughClose? (b :: (body ++ '*' :: '/' :: back)) =
        some (b :: body ++ ['*', '/'], back) := by
    apply blankThroughClose?_eq_some_iff.mpr
    refine ⟨b, body, hBlank, ?_, rfl, by simp⟩
    intro c hc
    have hNotStar : c ≠ '*' := by
      rintro rfl
      rcases List.mem_cons.mp hc with rfl | hIn
      · cases hBlank
      · exact hBody hIn
    simpa using hNotStar
  have hText := configuration_text_eq [] blanks body back b
  rw [List.nil_append, List.nil_append] at hText
  rw [hText, Form.configuration_comment?_opened hBlanks, hFound]
  simp [Comment.configuration, Comment.text]

/- The rules for other blocks find nothing around it. -/
theorem marks_configuration
    {form : Form}
    (hOpener : form.opener = ['/', '*'])
    (hWord : "eslint-".toList <+: form.word)
    (hFront : '/' ∉ front)
    (hNoStar : '*' ∉ back)
    (hBlanks : ∀ c ∈ blanks, isBlank c = true)
    (hBlank : isBlank b = true)
    (hBody : '*' ∉ body) :
    form.marks
        (front ++
          ((Comment.configuration blanks b body).text ++
            back)) =
      List.replicate
        (front ++
          ((Comment.configuration blanks b body).text ++
            back)).length .stays := by
  have hStars : (body ++ '*' :: '/' :: back).count '*' < 2 := by
    simp [List.count_append,
      List.count_eq_zero_of_not_mem hBody,
      List.count_eq_zero_of_not_mem hNoStar]
  rw [configuration_text_eq,
    Form.marks_opened hFront hBlanks hBlank
      (Form.comment?_opened_eq_none hWord hBlanks hBlank _),
    Form.marksFrom_of_count hOpener hStars,
    ← List.replicate_add, ← List.length_append]

/- Without a star in its body a configuration goes. -/
theorem strip_configuration_of_not_mem
    (hFront : '/' ∉ front)
    (hBack : '/' ∉ back)
    (hNoStar : '*' ∉ back)
    (hBlanks : ∀ c ∈ blanks, isBlank c = true)
    (hBlank : isBlank b = true)
    (hBody : '*' ∉ body) :
    strip Rule.standard
        (front ++
          ((Comment.configuration blanks b body).text ++
            back)) =
      ⟨withoutMargins front back, [0, 0, 0, 1, 0, 0, 0, 0]⟩ := by
  have hEarlier :=
    strip_of_stays fun rule hRule =>
      marks_configuration (earlier_words rule hRule).1
        (earlier_words rule hRule).2 hFront hNoStar hBlanks
        hBlank hBody
  rcases Form.marks_single hFront hBack
      (configuration_comment?_text hBlanks hBlank hBody back)
    with ⟨hKept, hCount⟩
  rw [standard_eq, strip_append, hEarlier]
  simp only [strip, hKept, hCount,
    strip_of_not_mem (not_mem_withoutMargins hFront hBack)]
  rfl

/- A configuration that is opened is not closed at once. -/
theorem not_hasClose_opened
    (hFront : '*' ∉ front)
    (hBlanks : ∀ c ∈ blanks, isBlank c = true)
    (hBlank : isBlank b = true)
    (hBody : ¬ HasClose body) :
    ¬ HasClose (front ++ opened blanks b ++ body) := by
  intro hClose
  rw [List.append_assoc] at hClose
  have hOpened := hClose.of_append_left hFront
  have hText :
      opened blanks b ++ body =
        '/' :: '*' ::
          ((blanks ++ "eslint".toList ++ [b]) ++ body) := by
    simp [opened]
  have hFree :
      ∀ c ∈ blanks ++ "eslint".toList ++ [b],
        c ≠ '*' ∧ c ≠ '/' := by
    intro c hc
    simp only [List.mem_append, List.mem_singleton] at hc
    rcases hc with (hc | hc) | rfl
    · constructor
      all_goals
        rintro rfl
        cases hBlanks _ hc
    · have hWord :
          '*' ∉ "eslint".toList ∧ '/' ∉ "eslint".toList := by
        decide
      exact ⟨fun hEq => hWord.1 (hEq ▸ hc),
        fun hEq => hWord.2 (hEq ▸ hc)⟩
    · constructor
      all_goals
        rintro rfl
        cases hBlank
  have hStar : '*' ∉ blanks ++ "eslint".toList ++ [b] :=
    fun hIn => (hFree _ hIn).1 rfl
  rw [hText, hasClose_cons_iff, hasClose_cons_iff] at hOpened
  rcases hOpened with ⟨hEq, _⟩ | ⟨_, hHead⟩ | hClose
  · cases hEq
  · rw [List.head?_append] at hHead
    cases hFirst :
        (blanks ++ "eslint".toList ++ [b]).head? with
    | none => simp at hFirst
    | some c =>
        rw [hFirst] at hHead
        have hSlash : c = '/' := by simpa using hHead
        exact (hFree c (List.mem_of_head? hFirst)).2 hSlash
  · exact hBody (hClose.of_append_left hStar)

/-
  No configuration is found at its start before its body
  with a star, or before a text without a close.
-/
theorem configuration_comment?_eq_none
    {rest : List Char}
    (hBlanks : ∀ c ∈ blanks, isBlank c = true)
    (hBlank : isBlank b = true)
    (hBody : ¬ HasClose body)
    (hStar : '*' ∈ body)
    (hRest :
      rest = body ++ '*' :: '/' :: back ∨ ¬ HasClose rest) :
    Form.configuration.comment? (opened blanks b ++ rest) =
      none := by
  have hBegin :
      ∀ {cs : List Char}, HasClose (b :: cs) → HasClose cs := by
    intro cs hClose
    rcases (hasClose_cons_iff b cs).mp hClose with
      ⟨rfl, _⟩ | hClose
    · cases hBlank
    · exact hClose
  have hNone : blankThroughClose? (b :: rest) = none := by
    rcases hRest with rfl | hOpen
    · exact blankThroughClose?_eq_none
        (fun hClose => hBody (hBegin hClose))
        (List.mem_cons_of_mem b hStar) back
    · cases hFound : blankThroughClose? (b :: rest) with
      | none => rfl
      | some result =>
          have hClose := hasClose_of_blankThroughClose? hFound
          exact (hOpen (hBegin hClose)).elim
  rw [Form.configuration_comment?_opened hBlanks, hNone]
  rfl

/- With a star in its body its start stays. -/
theorem prefix_strip_configuration
    (hFront : '/' ∉ front)
    (hNoStar : '*' ∉ front)
    (hBack : '/' ∉ back)
    (hBlanks : ∀ c ∈ blanks, isBlank c = true)
    (hBlank : isBlank b = true)
    (hBody : ¬ HasClose body)
    (hStar : '*' ∈ body) :
    front ++ opened blanks b <+:
      (strip Rule.standard
        (front ++
          ((Comment.configuration blanks b body).text ++
            back))).text := by
  rw [configuration_text_eq]
  generalize hText :
    front ++ opened blanks b ++ (body ++ '*' :: '/' :: back) =
      cs
  have hFound :
      throughClose? cs =
        some (front ++ opened blanks b ++ body ++ ['*', '/'],
          back) := by
    rw [← hText, ← List.append_assoc]
    exact throughClose?_of_not_hasClose
      (not_hasClose_opened hNoStar hBlanks hBlank hBody) back
  have hKept :=
    prefix_strip
      (fun rule hRule => (earlier_words rule hRule).2)
      hFront hBlanks hBlank
      ⟨body ++ '*' :: '/' :: back, hText⟩
  have hState :=
    strip_eq_or_not_hasClose
      (fun rule hRule => (earlier_words rule hRule).1)
      hFound hBack (Or.inl rfl)
  rw [standard_eq, strip_append]
  -- Before the fourth pass the text is the start and a rest,
  -- which is that of the source or has no close.
  rcases hKept with ⟨rest, hRest⟩
  rw [← hRest] at hState ⊢
  have hTail :
      rest = body ++ '*' :: '/' :: back ∨ ¬ HasClose rest := by
    rcases hState with hSame | hOpen
    · rw [← hText] at hSame
      exact Or.inl (List.append_cancel_left hSame)
    · exact Or.inr fun hClose =>
        hOpen (hClose.append_left _)
  rw [text_strip_cons]
  apply prefix_strip later_words hFront hBlanks hBlank
  apply Form.prefix_keep hFront hBlanks hBlank
  exact configuration_comment?_eq_none hBlanks hBlank hBody
    hStar hTail

/- A block of a word goes whatever its body is. -/
theorem strip_block
    {rule : Rule}
    {word : List Char}
    (hWorded : rule.form.Worded)
    (hForm : rule.form = .block word)
    (hFront : '/' ∉ front)
    (hBack : '/' ∉ back)
    (hBlanks : ∀ c ∈ blanks, isBlank c = true)
    (hBody : ¬ HasClose body) :
    strip [rule]
        (front ++
          ((Comment.block (blanks ++ word ++ body)).text ++
            back)) =
      ⟨withoutMargins front back, [1]⟩ := by
  have hLead :
      rule.form.IsLead ('/' :: '*' :: (blanks ++ word)) :=
    ⟨blanks, hBlanks, by rw [hForm]; rfl⟩
  have hText :
      (Comment.block (blanks ++ word ++ body)).text ++ back =
        '/' :: '*' :: (blanks ++ word) ++
          (body ++ '*' :: '/' :: back) := by
    simp [Comment.text]
  have hComment :
      rule.form.comment?
          ((Comment.block (blanks ++ word ++ body)).text ++
            back) =
        some ((Comment.block (blanks ++ word ++ body)).text,
          back) := by
    rw [hText, Form.comment?_lead hWorded hLead, hForm]
    simp only [Form.body?,
      throughClose?_of_not_hasClose hBody back]
    simp [Comment.text]
  rcases Form.marks_single hFront hBack hComment with
    ⟨hKept, hCount⟩
  simp only [strip, hKept, hCount]

/-
  One configuration in a text without other slashes and
  stars. It goes with its margins and is counted if there is
  no star in its body, and else its start stays. The blocks
  of the other words go whatever their body is.
-/
theorem cut_or_opened
    (hFront : '/' ∉ front ∧ '*' ∉ front)
    (hBack : '/' ∉ back ∧ '*' ∉ back)
    (hBlanks : ∀ c ∈ blanks, isBlank c = true)
    (hBlank : isBlank b = true)
    (hBody : ¬ HasClose body) :
    ('*' ∉ body →
        strip Rule.standard
            (front ++
              ((Comment.configuration blanks b body).text ++
                back)) =
          ⟨withoutMargins front back,
            [0, 0, 0, 1, 0, 0, 0, 0]⟩) ∧
      ('*' ∈ body →
        front ++ opened blanks b <+:
          (strip Rule.standard
            (front ++
              ((Comment.configuration blanks b body).text ++
                back))).text) ∧
      ∀ rule ∈ Rule.standard, ∀ word,
        rule.form = .block word →
          strip [rule]
              (front ++
                ((Comment.block (blanks ++ word ++ body)).text ++
                  back)) =
            ⟨withoutMargins front back, [1]⟩ := by
  refine ⟨?_, ?_, ?_⟩
  · exact strip_configuration_of_not_mem hFront.1 hBack.1
      hBack.2 hBlanks hBlank
  · exact prefix_strip_configuration hFront.1 hFront.2 hBack.1
      hBlanks hBlank hBody
  · intro rule hRule word hForm
    exact strip_block (Form.worded_of_mem_standard rule hRule)
      hForm hFront.1 hBack.1 hBlanks hBody

/- A text with a configuration on a line of its own. -/
def configurationText : List Char :=
  "a();\n\t/* eslint semi: [2, 'always'] */ \r\nb();".toList

/- The configuration goes with the line. -/
theorem strip_configurationText :
    ¬ HasClose "semi: [2, 'always'] ".toList ∧
      strip Rule.standard configurationText =
        ⟨"a();\nb();".toList, [0, 0, 0, 1, 0, 0, 0, 0]⟩ := by
  have hBody : ¬ HasClose "semi: [2, 'always'] ".toList := by
    rw [← throughClose?_isSome_iff]
    decide +kernel
  have hFront :
      '/' ∉ "a();\n\t".toList ∧ '*' ∉ "a();\n\t".toList := by
    decide +kernel
  have hBack :
      '/' ∉ " \r\nb();".toList ∧
        '*' ∉ " \r\nb();".toList := by
    decide +kernel
  have hBlank : isBlank ' ' = true := rfl
  have hBlanks : ∀ c ∈ [' '], isBlank c = true := by
    simpa using hBlank
  have hCut :=
    (cut_or_opened hFront hBack hBlanks hBlank hBody).1
      (by decide +kernel)
  have hText :
      "a();\n\t".toList ++
          ((Comment.configuration [' '] ' '
              "semi: [2, 'always'] ".toList).text ++
            " \r\nb();".toList) =
        configurationText := by
    decide +kernel
  have hRest :
      withoutMargins "a();\n\t".toList " \r\nb();".toList =
        "a();\nb();".toList := by
    decide +kernel
  rw [hText, hRest] at hCut
  exact ⟨hBody, hCut⟩

/- A text with a star in a string of its configuration. -/
def starredText : List Char :=
  "/* eslint a: \"*\" */\nf();\n".toList

/- It is not true that every configuration goes. -/
theorem not_cut_starredText :
    ¬ ∀ front back blanks body : List Char, ∀ b : Char,
        '/' ∉ front ∧ '*' ∉ front →
        '/' ∉ back ∧ '*' ∉ back →
        (∀ c ∈ blanks, isBlank c = true) →
        isBlank b = true →
        ¬ HasClose body →
          (strip Rule.standard
              (front ++
                ((Comment.configuration blanks b body).text ++
                  back))).text =
            withoutMargins front back := by
  intro hAll
  have hBody : ¬ HasClose "a: \"*\" ".toList := by
    rw [← throughClose?_isSome_iff]
    decide +kernel
  have hBack :
      '/' ∉ "\nf();\n".toList ∧ '*' ∉ "\nf();\n".toList := by
    decide +kernel
  have hBlank : isBlank ' ' = true := rfl
  have hBlanks : ∀ c ∈ [' '], isBlank c = true := by
    simpa using hBlank
  have hCut :=
    hAll [] "\nf();\n".toList [' '] "a: \"*\" ".toList ' '
      (by simp) hBack hBlanks hBlank hBody
  have hText :
      [] ++
          ((Comment.configuration [' '] ' '
              "a: \"*\" ".toList).text ++
            "\nf();\n".toList) =
        starredText := by
    decide +kernel
  have hKept :
      (strip Rule.standard starredText).text = starredText := by
    decide +kernel
  have hRest :
      withoutMargins [] "\nf();\n".toList ≠ starredText := by
    decide +kernel
  rw [hText, hKept] at hCut
  exact hRest hCut.symm

end Configuration

end Directive

end BiomeMigration
