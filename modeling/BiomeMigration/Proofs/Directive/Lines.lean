import BiomeMigration.Proofs.Directive.Places
import BiomeMigration.Proofs.Directive.Recognition

/-
  How far the pieces of a form for lines go. The blanks
  between the opener and the word may hold line ends; all
  else of a piece stays on its line. A line without `//` is
  only touched by a comment that comes down to it through
  such blanks.

  Main declarations:
    * `OneLine`
    * `LinePiece`
    * `oneLine_iff_of_linePiece`
    * `IsLine`
    * `oneLine_or_broken_blanks`
-/

------------------------------------------------------------
-- Pieces on One Line
------------------------------------------------------------

namespace BiomeMigration

namespace Directive

/- The line breaks, and no line break. -/
def breaks : List (List Char) :=
  [[], ['\n'], ['\r', '\n'], ['\r']]

/-
  A text holds no line end but those of a line break at its
  very end.
-/
def OneLine (piece : List Char) : Prop :=
  ∃ ending ∈ breaks,
    ending <:+ piece ∧
      ∀ c ∈ piece.take (piece.length - ending.length),
        isLineEnd c = false

theorem isLineEnd_of_mem_break
    {ending : List Char}
    (hEnding : ending ∈ breaks) :
    ∀ c ∈ ending, isLineEnd c = true := by
  have hAll : ∀ cs ∈ breaks, cs.all isLineEnd = true := by
    decide
  exact List.all_eq_true.mp (hAll ending hEnding)

theorem isLineEnd_eq_false_of_mem_opener
    {c : Char}
    (hOpener : c ∈ ['/', '/']) :
    isLineEnd c = false := by
  simp only [List.mem_cons, List.not_mem_nil, or_false, or_self]
    at hOpener
  rw [hOpener]
  rfl

/- A break of two characters is a return and its feed. -/
theorem eq_of_mem_breaks
    {c d : Char}
    {cs ds : List Char}
    (hEnding : c :: (cs ++ d :: ds) ∈ breaks) :
    c = '\r' ∧ cs = [] ∧ d = '\n' := by
  cases cs with
  | nil =>
      simp only [breaks, List.nil_append, List.mem_cons,
        List.cons.injEq, reduceCtorEq, and_false,
        List.not_mem_nil, or_false, false_or] at hEnding
      exact ⟨hEnding.1, rfl, hEnding.2.1⟩
  | cons e cs =>
      simp [breaks] at hEnding

theorem mem_breaks_of_lineBreak?
    {cs ending rest : List Char}
    (hEnding : lineBreak? cs = some (ending, rest)) :
    ending ∈ breaks := by
  unfold lineBreak? at hEnding
  split at hEnding
  all_goals
    simp only [Option.some.injEq, Prod.mk.injEq, reduceCtorEq]
      at hEnding
  all_goals
    rw [← hEnding.1]
    decide

theorem isLineEnd_eq_false_of_isIndent
    {c : Char}
    (hIndent : isIndent c = true) :
    isLineEnd c = false := by
  unfold isIndent at hIndent
  rw [Bool.or_eq_true, beq_iff_eq, beq_iff_eq] at hIndent
  rcases hIndent with rfl | rfl
  · decide
  · decide

theorem isBlank_of_isLineEnd
    {c : Char}
    (hEnd : isLineEnd c = true) :
    isBlank c = true := by
  unfold isLineEnd at hEnd
  rw [Bool.or_eq_true, beq_iff_eq, beq_iff_eq] at hEnd
  rcases hEnd with rfl | rfl
  · decide
  · decide

theorem oneLine_iff
    {piece : List Char} :
    OneLine piece ↔
      ∃ content ending,
        ending ∈ breaks ∧
          piece = content ++ ending ∧
          ∀ c ∈ content, isLineEnd c = false := by
  constructor
  · rintro ⟨ending, hBreak, ⟨content, rfl⟩, hContent⟩
    refine ⟨content, ending, hBreak, rfl, ?_⟩
    simpa using hContent
  · rintro ⟨content, ending, hBreak, rfl, hContent⟩
    refine ⟨ending, hBreak, List.suffix_append _ _, ?_⟩
    simpa using hContent

------------------------------------------------------------
-- The Parts of a Piece
------------------------------------------------------------

/-
  The parts of a piece that a form for lines with a word
  cuts. A comment that goes without its line has no
  indentation and no line break.
-/
structure LinePiece
    (word piece indent blanks back ending : List Char) :
    Prop where
  parts :
    piece =
      indent ++ ['/', '/'] ++ blanks ++ word ++ back ++ ending
  indent_blank : ∀ c ∈ indent, isIndent c = true
  blanks_blank : ∀ c ∈ blanks, isBlank c = true
  back_unbroken : ∀ c ∈ back, isLineEnd c = false
  ending_break : ending ∈ breaks

namespace Form

variable {word : List Char}

/- A comment of a form for lines, before any text. -/
theorem exists_parts_of_line
    {cs comment rest : List Char}
    (hComment :
      (Form.line word).comment? cs = some (comment, rest)) :
    ∃ blanks back,
      comment = ['/', '/'] ++ blanks ++ word ++ back ∧
        (∀ c ∈ blanks, isBlank c = true) ∧
        ∀ c ∈ back, isLineEnd c = false := by
  rcases exists_lead_of_comment? hComment with
    ⟨_, back, ⟨blanks, hBlanks, rfl⟩, rfl, hBody⟩
  have hRun := run_eq_iff.mp (Option.some.inj hBody)
  refine ⟨blanks, back, rfl, hBlanks, ?_⟩
  intro c hc
  simpa using hRun.2.1 c hc

theorem exists_linePiece
    {lineStart : Bool}
    {cs piece rest : List Char}
    (hPiece :
      (Form.line word).piece? lineStart cs =
        some (piece, rest)) :
    ∃ indent blanks back ending,
      LinePiece word piece indent blanks back ending := by
  rcases piece?_eq_some hPiece with ⟨_, hWhole⟩ | hComment
  · rcases wholeLine?_eq_some_iff.mp hWhole with
      ⟨indent, comment, trail, ending, hLine, rfl, _⟩
    rcases exists_parts_of_line hLine.comment_found with
      ⟨blanks, back, rfl, hBlanks, hBack⟩
    refine ⟨indent, blanks, back ++ trail, ending, by simp,
      hLine.indent_blank, hBlanks, ?_,
      mem_breaks_of_lineBreak? hLine.ending_found⟩
    intro c hc
    rcases List.mem_append.mp hc with hIn | hIn
    · exact hBack c hIn
    · exact isLineEnd_eq_false_of_isIndent (hLine.trail_blank c hIn)
  · rcases exists_parts_of_line hComment with
      ⟨blanks, back, rfl, hBlanks, hBack⟩
    exact ⟨[], blanks, back, [], by simp, by simp, hBlanks,
      hBack, by decide⟩

/- A plain word stays on its line. -/
theorem Plain.isLineEnd_eq_false
    {form : Form}
    (hPlain : form.Plain) :
    ∀ c ∈ form.word, isLineEnd c = false := by
  intro c hc
  have hNotBlank := (hPlain.2 c hc).1
  cases hEnd : isLineEnd c with
  | false => rfl
  | true =>
      rw [isBlank_of_isLineEnd hEnd] at hNotBlank
      exact hNotBlank

end Form

namespace LinePiece

variable {word indent blanks back ending : List Char}

theorem opening_unbroken
    {piece : List Char}
    (hParts :
      LinePiece word piece indent blanks back ending) :
    ∀ c ∈ indent ++ ['/', '/'], isLineEnd c = false := by
  intro c hc
  rcases List.mem_append.mp hc with hIn | hIn
  · exact isLineEnd_eq_false_of_isIndent
      (hParts.indent_blank c hIn)
  · exact isLineEnd_eq_false_of_mem_opener hIn

theorem body_unbroken
    {piece : List Char}
    (hPlain : (Form.line word).Plain)
    (hParts :
      LinePiece word piece indent blanks back ending) :
    ∀ c ∈ word ++ back, isLineEnd c = false := by
  intro c hc
  rcases List.mem_append.mp hc with hIn | hIn
  · exact hPlain.isLineEnd_eq_false c hIn
  · exact hParts.back_unbroken c hIn

/- The parts of a piece whose characters have places. -/
theorem exists_placed
    {piece : List Placed}
    (hParts :
      LinePiece word (chars piece) indent blanks back ending) :
    ∃ opening gap body last,
      piece = opening ++ gap ++ body ++ last ∧
        chars opening = indent ++ ['/', '/'] ∧
        chars gap = blanks ∧
        chars body = word ++ back ∧
        chars last = ending := by
  have hSplit :
      chars piece =
        (indent ++ ['/', '/']) ++ blanks ++ (word ++ back) ++
          ending := by
    rw [hParts.parts]
    simp
  rcases exists_of_chars_eq_append hSplit with
    ⟨rest, last, rfl, hRest, hLast⟩
  rcases exists_of_chars_eq_append hRest with
    ⟨rest', body, rfl, hRest', hBody⟩
  rcases exists_of_chars_eq_append hRest' with
    ⟨opening, gap, rfl, hOpening, hGap⟩
  exact ⟨opening, gap, body, last, rfl, hOpening, hGap, hBody,
    hLast⟩

end LinePiece

/-
  What stands before a character that ends no line is no
  part of the line break at the end.
-/
theorem OneLine.isLineEnd_eq_false
    {piece front back : List Char}
    {c : Char}
    (hLine : OneLine piece)
    (hPiece : piece = front ++ c :: back)
    (hInside : isLineEnd c = false) :
    ∀ d ∈ front, isLineEnd d = false := by
  rcases oneLine_iff.mp hLine with
    ⟨content, ending, hBreak, hParts, hContent⟩
  rcases List.append_eq_append_iff.mp (hPiece.symm.trans hParts)
    with ⟨more, rfl, _⟩ | ⟨more, _, rfl⟩
  · intro d hd
    exact hContent d (List.mem_append_left more hd)
  · have hEnd :=
      isLineEnd_of_mem_break hBreak c (by simp)
    rw [hInside] at hEnd
    cases hEnd

/-
  A piece stays on its line just if the blanks between the
  opener and the word do.
-/
theorem oneLine_iff_of_linePiece
    {word piece indent blanks back ending : List Char}
    (hPlain : (Form.line word).Plain)
    (hParts :
      LinePiece word piece indent blanks back ending) :
    OneLine piece ↔ ∀ c ∈ blanks, isLineEnd c = false := by
  have hWord : ∀ c ∈ word, isLineEnd c = false :=
    hPlain.isLineEnd_eq_false
  constructor
  · intro hLine c hc
    rcases List.exists_cons_of_ne_nil hPlain.1 with
      ⟨d, tail, hEq⟩
    have hEq : word = d :: tail := hEq
    have hPiece :
        piece =
          (indent ++ ['/', '/'] ++ blanks) ++
            d :: (tail ++ back ++ ending) := by
      rw [hParts.parts, hEq]
      simp
    apply hLine.isLineEnd_eq_false hPiece
    · exact hWord d (by rw [hEq]; simp)
    · simp [hc]
  · intro hBlanks
    refine oneLine_iff.mpr
      ⟨_, ending, hParts.ending_break, hParts.parts, ?_⟩
    intro c hc
    rcases List.mem_append.mp hc with hIn | hIn
    · rcases List.mem_append.mp hIn with hIn | hIn
      · rcases List.mem_append.mp hIn with hIn | hIn
        · exact hParts.opening_unbroken c hIn
        · exact hBlanks c hIn
      · exact hWord c hIn
    · exact hParts.back_unbroken c hIn

end Directive

end BiomeMigration

------------------------------------------------------------
-- Lines of a Text
------------------------------------------------------------

namespace BiomeMigration

namespace Directive

/-
  A line between the texts before and behind it: it starts
  behind a complete line break and goes on through the next
  one.
-/
structure IsLine
    (before line after : List Char) : Prop where
  starts : ∀ c ∈ before.getLast?, isLineEnd c = true
  apart :
    before.getLast? = some '\r' →
      (line ++ after).head? ≠ some '\n'
  ends :
    ∃ content ending,
      line = content ++ ending ∧
        (∀ c ∈ content, isLineEnd c = false) ∧
        lineBreak? (ending ++ after) = some (ending, after)

namespace IsLine

variable {before line after front part back : List Placed}
variable {x : Placed}

/- What comes before a line ends with a line end. -/
theorem isLineEnd_of_before
    {bs : List Placed}
    (hLine :
      IsLine (chars before) (chars line) (chars after))
    (hBefore : before = front ++ bs)
    (hNonempty : bs ≠ []) :
    ∃ y ∈ bs, isLineEnd y.1 = true := by
  rcases List.eq_nil_or_concat bs with rfl | ⟨init, y, rfl⟩
  · exact (hNonempty rfl).elim
  · refine ⟨y, by simp, hLine.starts y.1 ?_⟩
    rw [hBefore]
    simp

/- A line before more text ends with a line end. -/
theorem isLineEnd_of_after
    {init tail : List Placed}
    (hLine :
      IsLine (chars before) (chars line) (chars after))
    (hParts : line = init ++ tail)
    (hTail : tail ≠ [])
    (hAfter : after ≠ []) :
    ∃ y ∈ tail, isLineEnd y.1 = true := by
  rcases hLine.ends with ⟨content, ending, hEq, _, hBreak⟩
  rcases List.eq_nil_or_concat tail with rfl | ⟨more, y, rfl⟩
  · exact (hTail rfl).elim
  · refine ⟨y, by simp, ?_⟩
    rcases List.eq_nil_or_concat ending with
      rfl | ⟨most, d, rfl⟩
    · rw [List.nil_append] at hBreak
      have hNone : chars after = [] := by
        unfold lineBreak? at hBreak
        split at hBreak
        all_goals simp_all
      exact (hAfter (List.map_eq_nil_iff.mp hNone)).elim
    · have hLast := congrArg List.getLast? hEq
      rw [hParts] at hLast
      have hSame : y.1 = d := by simpa using hLast
      rw [hSame]
      exact isLineEnd_of_mem_break
        (mem_breaks_of_lineBreak? hBreak) d (by simp)

/- A part without line ends that meets a line lies in it. -/
theorem exists_of_unbroken
    (hLine :
      IsLine (chars before) (chars line) (chars after))
    (hNodup : (before ++ line ++ after).Nodup)
    (hText : before ++ line ++ after = front ++ part ++ back)
    (hUnbroken : ∀ y ∈ part, isLineEnd y.1 = false)
    (hInLine : x ∈ line)
    (hInPart : x ∈ part) :
    ∃ lead trail,
      front = before ++ lead ∧
        line = lead ++ part ++ trail ∧
        back = trail ++ after := by
  rcases List.append_of_mem hInLine with ⟨a, b, hLineEq⟩
  rcases List.append_of_mem hInPart with ⟨p, q, rfl⟩
  have hSplit :
      (before ++ a) ++ x :: (b ++ after) =
        (front ++ p) ++ x :: (q ++ back) := by
    rw [hLineEq] at hText
    simpa using hText
  rw [hLineEq] at hNodup
  have hSides := eq_and_eq_of_append_cons
    (by simpa using hNodup) hSplit
  have hFront : ∃ lead, front = before ++ lead ∧ a = lead ++ p := by
    rcases List.append_eq_append_iff.mp hSides.1 with
      ⟨lead, hFront, hA⟩ | ⟨beyond, hBefore, hP⟩
    · exact ⟨lead, hFront, hA⟩
    · by_cases hNil : beyond = []
      · subst hNil
        exact ⟨[], by simpa using hBefore.symm,
          by simpa using hP.symm⟩
      · rcases hLine.isLineEnd_of_before hBefore hNil with
          ⟨y, hy, hEnd⟩
        have hNot := hUnbroken y (by rw [hP]; simp [hy])
        rw [hEnd] at hNot
        cases hNot
  have hBack : ∃ trail, back = trail ++ after ∧ b = q ++ trail := by
    rcases List.append_eq_append_iff.mp hSides.2 with
      ⟨beyond, hQ, hAfter⟩ | ⟨trail, hB, hBack⟩
    · by_cases hNil : beyond = []
      · subst hNil
        exact ⟨[], by simpa using hAfter.symm,
          by simpa using hQ.symm⟩
      · have hMore : after ≠ [] := by
          rw [hAfter]
          simp [hNil]
        rcases hLine.isLineEnd_of_after hLineEq (by simp) hMore
          with ⟨y, hy, hEnd⟩
        have hIn : y ∈ p ++ x :: q := by
          rw [hQ]
          rcases List.mem_cons.mp hy with rfl | hy
          · simp
          · simp [hy]
        have hNot := hUnbroken y hIn
        rw [hEnd] at hNot
        cases hNot
    · exact ⟨trail, hBack, hB⟩
  rcases hFront with ⟨lead, hFront, rfl⟩
  rcases hBack with ⟨trail, hBack, rfl⟩
  exact ⟨lead, trail, hFront, by rw [hLineEq]; simp, hBack⟩

/- A line that meets a line break starts before it. -/
theorem exists_of_break
    (hLine :
      IsLine (chars before) (chars line) (chars after))
    (hNodup : (before ++ line ++ after).Nodup)
    (hText : before ++ line ++ after = front ++ part ++ back)
    (hBreak : chars part ∈ breaks)
    (hInLine : x ∈ line)
    (hInPart : x ∈ part) :
    ∃ lead trail,
      front = before ++ lead ∧ line = lead ++ trail := by
  rcases List.append_of_mem hInLine with ⟨a, b, hLineEq⟩
  rcases List.append_of_mem hInPart with ⟨p, q, rfl⟩
  have hSplit :
      (before ++ a) ++ x :: (b ++ after) =
        (front ++ p) ++ x :: (q ++ back) := by
    rw [hLineEq] at hText
    simpa using hText
  rw [hLineEq] at hNodup
  have hSides := eq_and_eq_of_append_cons
    (by simpa using hNodup) hSplit
  rcases List.append_eq_append_iff.mp hSides.1 with
    ⟨lead, hFront, rfl⟩ | ⟨beyond, hBefore, rfl⟩
  · exact ⟨lead, p ++ x :: b, hFront, by rw [hLineEq]; simp⟩
  · cases beyond with
    | nil =>
        exact ⟨[], line, by simpa using hBefore.symm, rfl⟩
    | cons y beyond =>
        -- only a return and its feed make a break of two
        have hTwo :
            y.1 = '\r' ∧ beyond = [] ∧ a = [] ∧ x.1 = '\n' := by
          have hPair := eq_of_mem_breaks
            (by simpa using hBreak :
              y.1 :: (chars (beyond ++ a) ++ x.1 :: chars q) ∈
                breaks)
          have hNil : beyond ++ a = [] :=
            List.map_eq_nil_iff.mp hPair.2.1
          rw [List.append_eq_nil_iff] at hNil
          exact ⟨hPair.1, hNil.1, hNil.2, hPair.2.2⟩
        rcases hTwo with ⟨hReturn, rfl, rfl, hFeed⟩
        exfalso
        apply hLine.apart
        · rw [hBefore]
          simp [hReturn]
        · rw [hLineEq]
          simp [hFeed]

end IsLine

end Directive

end BiomeMigration

------------------------------------------------------------
-- Lines That a Piece Touches
------------------------------------------------------------

namespace BiomeMigration

namespace Directive

/-
  A comment that comes down to a line: its opener stands on
  an earlier line, its word in the line or below it, with
  blanks between them.
-/
def ReachedFromAbove
    (word before below : List Char) : Prop :=
  ∃ front blanks blanks' rest,
    before = front ++ ['/', '/'] ++ blanks ∧
      below = blanks' ++ word ++ rest ∧
      (∀ c ∈ blanks ++ blanks', isBlank c = true) ∧
      ∃ c ∈ blanks, isLineEnd c = true

namespace IsLine

variable {before line after : List Placed}
variable {front opening blanks body ending back : List Placed}
variable {x : Placed}

/-
  A piece without its indentation reaches a line without an
  opener through its blanks: some of them stand before the
  end of a part that the line starts with.
-/
theorem exists_blanks_of_mem
    (hLine :
      IsLine (chars before) (chars line) (chars after))
    (hNodup : (before ++ line ++ after).Nodup)
    (hText :
      before ++ line ++ after =
        front ++ opening ++ blanks ++ body ++ ending ++ back)
    (hOpening : ∀ y ∈ opening, isLineEnd y.1 = false)
    (hOpener : ['/', '/'] <:+: chars opening)
    (hNone : ¬ ['/', '/'] <:+: chars line)
    (hNonempty : body ≠ [])
    (hBody : ∀ y ∈ body, isLineEnd y.1 = false)
    (hEnding : chars ending ∈ breaks)
    (hInLine : x ∈ line)
    (hInPiece : x ∈ opening ++ blanks ++ body ++ ending) :
    x ∉ opening ∧
      ∃ lead trail p q,
        line = lead ++ trail ∧
          blanks = p ++ q ∧
          before ++ lead = front ++ opening ++ p := by
  have hApart : ∀ y ∈ line, y ∉ opening := by
    intro y hy hIn
    rcases hLine.exists_of_unbroken hNodup
        (hText.trans (by simp :
          _ = front ++ opening ++
            (blanks ++ body ++ ending ++ back)))
        hOpening hy hIn with
      ⟨lead, trail, _, hParts, _⟩
    apply hNone
    rw [hParts, chars_append, chars_append]
    exact hOpener.trans ⟨chars lead, chars trail, rfl⟩
  have hThrough :
      ∀ y ∈ line, y ∈ body →
        ∃ lead trail p q,
          line = lead ++ trail ∧
            blanks = p ++ q ∧
            before ++ lead = front ++ opening ++ p := by
    intro y hy hIn
    rcases hLine.exists_of_unbroken hNodup
        (hText.trans (by simp :
          _ = front ++ opening ++ blanks ++ body ++
            (ending ++ back)))
        hBody hy hIn with
      ⟨lead, trail, hFront, hParts, _⟩
    exact ⟨lead, body ++ trail, blanks, [], by simp [hParts],
      by simp, hFront.symm⟩
  refine ⟨hApart x hInLine, ?_⟩
  simp only [List.mem_append] at hInPiece
  rcases hInPiece with ((hIn | hIn) | hIn) | hIn
  · exact (hApart x hInLine hIn).elim
  · rcases List.append_of_mem hInLine with ⟨a, b, rfl⟩
    rcases List.append_of_mem hIn with ⟨p, q, rfl⟩
    have hSplit :
        (before ++ a) ++ x :: (b ++ after) =
          (front ++ opening ++ p) ++
            x :: (q ++ body ++ ending ++ back) := by
      simpa using hText
    have hSides := eq_and_eq_of_append_cons
      (by simpa using hNodup) hSplit
    exact ⟨a, x :: b, p, x :: q, rfl, rfl, hSides.1⟩
  · exact hThrough x hInLine hIn
  · rcases hLine.exists_of_break hNodup hText hEnding
        hInLine hIn with
      ⟨lead, trail, hFront, hParts⟩
    rcases List.eq_nil_or_concat body with rfl | ⟨init, y, rfl⟩
    · exact (hNonempty rfl).elim
    · have hNot := hBody y (by simp)
      rcases List.eq_nil_or_concat lead with
        rfl | ⟨lead, z, rfl⟩
      · have hEnd := hLine.starts y.1 (by
          rw [← List.append_nil before, ← hFront]
          simp)
        rw [hNot] at hEnd
        cases hEnd
      · have hSame := congrArg List.getLast? hFront
        have hSame : y = z := by simpa using hSame
        subst hSame
        exact hThrough y (by rw [hParts]; simp) (by simp)

end IsLine

end Directive

end BiomeMigration

------------------------------------------------------------
-- Pieces of a Pass
------------------------------------------------------------

namespace BiomeMigration

namespace Directive

namespace IsLine

variable {before line after front piece back : List Placed}
variable {word indent blanks tail ending : List Char}
variable {x : Placed}

/-
  What shares nothing with a part, and ends where a text
  behind the part ends, starts behind the part.
-/
theorem exists_of_apart
    {lead opening p : List Placed}
    (hSame : before ++ lead = front ++ opening ++ p)
    (hNonempty : opening ≠ [])
    (hApart : ∀ y ∈ lead, y ∉ opening) :
    ∃ beyond,
      before = front ++ opening ++ beyond ∧
        p = beyond ++ lead := by
  rcases List.append_eq_append_iff.mp hSame with
    ⟨beyond, hParts, hLead⟩ | ⟨beyond, hBefore, hP⟩
  · rcases List.eq_nil_or_concat beyond with
      rfl | ⟨init, y, rfl⟩
    · exact ⟨[], by simpa using hParts.symm,
        by simpa using hLead.symm⟩
    · -- the last member of the part would be in the line
      have hLast : opening.getLast? = some y := by
        have hEnd := congrArg List.getLast? hParts
        rw [List.getLast?_append,
          List.getLast?_eq_some_getLast hNonempty] at hEnd
        rw [List.getLast?_eq_some_getLast hNonempty]
        simpa using hEnd
      exact (hApart y (by rw [hLead]; simp)
        (List.mem_of_getLast? hLast)).elim
  · exact ⟨beyond, hBefore, hP⟩

/-
  A piece that takes a character of a line without an opener
  comes down to that line.
-/
theorem reachedFromAbove_of_mem
    (hPlain : (Form.line word).Plain)
    (hLine :
      IsLine (chars before) (chars line) (chars after))
    (hNone : ¬ ['/', '/'] <:+: chars line)
    (hNodup : (before ++ line ++ after).Nodup)
    (hText : before ++ line ++ after = front ++ piece ++ back)
    (hParts :
      LinePiece word (chars piece) indent blanks tail ending)
    (hInLine : x ∈ line)
    (hInPiece : x ∈ piece) :
    ReachedFromAbove word (chars before)
      (chars (line ++ after)) := by
  rcases hParts.exists_placed with
    ⟨opening, gap, body, last, rfl, hOpening, rfl, hBody, rfl⟩
  have hUnbroken : ∀ y ∈ opening, isLineEnd y.1 = false :=
    fun y hy => hParts.opening_unbroken y.1
      (hOpening ▸ List.mem_map_of_mem hy)
  have hBodyUnbroken : ∀ y ∈ body, isLineEnd y.1 = false :=
    fun y hy => hParts.body_unbroken hPlain y.1
      (hBody ▸ List.mem_map_of_mem hy)
  have hOpeningNonempty : opening ≠ [] := by
    rintro rfl
    simp at hOpening
  have hNonempty : body ≠ [] := by
    rintro rfl
    exact hPlain.1 (List.append_eq_nil_iff.mp hBody.symm).1
  have hWhole :
      before ++ line ++ after =
        front ++ opening ++ gap ++ body ++ last ++ back := by
    rw [hText]
    simp
  have hReach :=
    fun {y : Placed} (hy : y ∈ line)
        (hIn : y ∈ opening ++ gap ++ body ++ last) =>
      hLine.exists_blanks_of_mem hNodup hWhole hUnbroken
        ⟨indent, [], by rw [hOpening]; simp⟩ hNone hNonempty
        hBodyUnbroken hParts.ending_break hy hIn
  rcases (hReach hInLine hInPiece).2 with
    ⟨lead, trail, p, q, rfl, rfl, hBlanks⟩
  have hBelow :
      trail ++ after = q ++ (body ++ (last ++ back)) := by
    have hSame :
        (before ++ lead) ++ (trail ++ after) =
          (front ++ opening ++ p) ++
            (q ++ (body ++ (last ++ back))) := by
      simpa using hWhole
    rw [hBlanks] at hSame
    exact List.append_cancel_left hSame
  have hApart : ∀ y ∈ lead, y ∉ opening := fun y hy hIn =>
    (hReach (List.mem_append_left _ hy) (by simp [hIn])).1 hIn
  rcases exists_of_apart hBlanks hOpeningNonempty hApart with
    ⟨beyond, rfl, rfl⟩
  refine ⟨chars front ++ indent, chars beyond,
    chars (lead ++ q), tail ++ chars (last ++ back), ?_, ?_,
    ?_, ?_⟩
  · rw [chars_append, chars_append, hOpening]
    simp
  · rw [List.append_assoc, hBelow]
    simp only [chars_append, hBody]
    simp
  · intro c hc
    apply hParts.blanks_blank c
    simpa using hc
  · rcases hLine.isLineEnd_of_before
        (List.append_assoc _ _ _)
        (by simp [hOpeningNonempty]) with
      ⟨y, hy, hEnd⟩
    rcases List.mem_append.mp hy with hIn | hIn
    · rw [hUnbroken y hIn] at hEnd
      cases hEnd
    · exact ⟨y.1, List.mem_map_of_mem hIn, hEnd⟩

end IsLine

/- Each piece of a scan is found where it starts. -/
theorem Form.Scan.exists_piece?_of_mem
    {α : Type}
    {form : Form}
    {lineStart : Bool}
    {xs kept piece : List (Char × α)}
    {cut : List (List (Char × α))}
    (hScan : form.Scan lineStart xs kept cut)
    (hMember : piece ∈ cut) :
    ∃ (lineStart' : Bool) (rest : List Char),
      form.piece? lineStart' (chars piece ++ rest) =
        some (chars piece, rest) := by
  induction hScan with
  | done lineStart => cases hMember
  | stays hPiece hRest ih => exact ih hMember
  | @cuts lineStart part xs kept cut hPiece hRest ih =>
      rcases List.mem_cons.mp hMember with rfl | hLater
      · rw [chars_append] at hPiece
        exact ⟨lineStart, chars xs, hPiece⟩
      · exact ih hLater

/-
  One pass of a standard rule for lines. Each piece that it
  cuts is indentation, the opener, blanks, the word, text
  without a line end, and at most one line break, and it
  stays on one line just if its blanks do. A line without an
  opener keeps all its characters, or a comment comes down
  to it through blanks.
-/
theorem oneLine_or_broken_blanks
    {rule : Rule}
    (hRule : rule ∈ Rule.standard)
    {word : List Char}
    (hForm : rule.form = .line word)
    (cs : List Char) :
    ∃ cut,
      rule.form.Scan true (source cs)
          (rule.form.pass (source cs)) cut ∧
        pieces (rule.form.marks cs) = cut.length ∧
        (∀ piece ∈ cut, ∃ indent blanks back ending,
          LinePiece word (chars piece) indent blanks back
              ending ∧
            (OneLine (chars piece) ↔
              ∀ c ∈ blanks, isLineEnd c = false)) ∧
        ∀ before line after,
          source cs = before ++ line ++ after →
          IsLine (chars before) (chars line) (chars after) →
          ¬ ['/', '/'] <:+: chars line →
            (∀ x ∈ line, x ∈ rule.form.pass (source cs)) ∨
              ReachedFromAbove word (chars before)
                (chars (line ++ after)) := by
  have hPlain : (Form.line word).Plain := by
    rw [← hForm]
    exact Form.plain_of_mem_standard rule hRule
  rcases rule.form.scan_marks (source cs) with
    ⟨cut, hScan, hCount⟩
  rw [chars_source] at hCount
  refine ⟨cut, hScan, hCount, ?_, ?_⟩
  · intro piece hPiece
    rcases hScan.exists_piece?_of_mem hPiece with
      ⟨lineStart, rest, hFound⟩
    rw [hForm] at hFound
    rcases Form.exists_linePiece hFound with
      ⟨indent, blanks, back, ending, hParts⟩
    exact ⟨indent, blanks, back, ending, hParts,
      oneLine_iff_of_linePiece hPlain hParts⟩
  · intro before line after hSource hLine hNone
    by_cases hKept :
        ∀ x ∈ line, x ∈ rule.form.pass (source cs)
    · exact Or.inl hKept
    · simp only [not_forall] at hKept
      rcases hKept with ⟨x, hIn, hGone⟩
      have hMember : x ∈ source cs := by
        rw [hSource]
        simp [hIn]
      rcases Form.exists_piece_of_not_mem_pass
          (nodup_source cs) hMember hGone with
        ⟨front, piece, back, hText, hInPiece, _, hFound⟩
      rw [chars_append, hForm] at hFound
      rcases Form.exists_linePiece hFound with
        ⟨indent, blanks, tail, ending, hParts⟩
      refine Or.inr
        (hLine.reachedFromAbove_of_mem hPlain hNone ?_
          (hSource.symm.trans hText) hParts hIn hInPiece)
      rw [← hSource]
      exact nodup_source cs

/- An opener alone on its line, and the word below it. -/
def wordBelow : List Char :=
  "//\neslint-disable f\n".toList

/-
  The comment spans two lines, and the second one has no
  opener.
-/
theorem not_oneLine_wordBelow :
    ¬ ∀ rule ∈ Rule.standard, ∀ word,
      rule.form = .line word →
        ∀ cs cut,
          rule.form.Scan true (source cs)
              (rule.form.pass (source cs)) cut →
            ∀ piece ∈ cut, OneLine (chars piece) := by
  intro hAll
  have hScan :
      (Form.line "eslint-disable".toList).Scan true
        (source wordBelow)
        ((Form.line "eslint-disable".toList).pass
          (source wordBelow))
        [source wordBelow] := by
    have hPass :
        (Form.line "eslint-disable".toList).pass
          (source wordBelow) = [] := by
      decide +kernel
    have hPiece :
        (Form.line "eslint-disable".toList).piece? true
            (chars (source wordBelow ++ [])) =
          some (chars (source wordBelow), []) := by
      decide +kernel
    rw [hPass]
    simpa using Form.Scan.cuts hPiece (.done _)
  rcases hAll
      (Rule.line "line-disable" "eslint-disable")
      (by decide) "eslint-disable".toList rfl wordBelow
      [source wordBelow] hScan (source wordBelow) (by simp)
    with ⟨ending, hBreak, _, hUnbroken⟩
  -- no line break is as long as all that follows the opener
  have hInside :
      ∀ ending ∈ breaks,
        ('\n' ∈
          (chars (source wordBelow)).take
            ((chars (source wordBelow)).length -
              ending.length)) := by
    decide +kernel
  have hEnd := hUnbroken '\n' (hInside ending hBreak)
  cases hEnd

/- The line below the comment keeps all its characters. -/
theorem kept_below_wordBelow :
    Rule.line "line-disable" "eslint-disable" ∈
        Rule.standard ∧
      (Rule.line "line-disable" "eslint-disable").form =
        .line "eslint-disable".toList ∧
      ∀ x ∈ (source (wordBelow ++ "g\n".toList)).drop 20,
        x ∈ (Form.line "eslint-disable".toList).pass
          (source (wordBelow ++ "g\n".toList)) := by
  have hRule :
      Rule.line "line-disable" "eslint-disable" ∈
        Rule.standard := by
    decide
  refine ⟨hRule, rfl, ?_⟩
  rcases oneLine_or_broken_blanks hRule rfl
      (wordBelow ++ "g\n".toList) with
    ⟨cut, _, _, _, hLines⟩
  have hSource :
      source (wordBelow ++ "g\n".toList) =
        (source (wordBelow ++ "g\n".toList)).take 20 ++
            (source (wordBelow ++ "g\n".toList)).drop 20 ++
          [] := by
    simp
  have hLine :
      IsLine
        (chars ((source (wordBelow ++ "g\n".toList)).take 20))
        (chars ((source (wordBelow ++ "g\n".toList)).drop 20))
        (chars ([] : List Placed)) := by
    have hLast :
        (chars ((source (wordBelow ++ "g\n".toList)).take
            20)).getLast? =
          some '\n' := by
      decide +kernel
    have hContent : ∀ c ∈ ['g'], isLineEnd c = false := by
      intro c hc
      rw [List.mem_singleton.mp hc]
      rfl
    refine ⟨?_, ?_,
      ['g'], ['\n'], by decide +kernel, hContent, by decide⟩
    · rw [hLast]
      rintro _ ⟨⟩
      rfl
    · rw [hLast]
      rintro ⟨⟩
  have hNone :
      ¬ ['/', '/'] <:+:
        chars ((source (wordBelow ++ "g\n".toList)).drop 20) := by
    decide +kernel
  rcases hLines _ _ _ hSource hLine hNone with
    hKept | ⟨_, _, blanks, rest, _, hBelow, _⟩
  · exact hKept
  · -- what is below is shorter than the word
    have hLength := congrArg List.length hBelow
    have hShort :
        (chars ((source (wordBelow ++ "g\n".toList)).drop 20 ++
          [])).length = 2 := by
      decide +kernel
    have hWord : "eslint-disable".toList.length = 14 := by
      decide
    simp only [hShort, List.length_append, hWord] at hLength
    omega

end Directive

end BiomeMigration
