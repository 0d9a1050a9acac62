import BiomeMigration.Proofs.Directive.Openers
import BiomeMigration.Proofs.Directive.Single

/-
  What a form for lines cuts from a text line by line. If
  two slashes always have something behind them on their
  line, a form cuts each line from its first comment on, and
  what it does to a line does not depend on the others.

  Main declarations:
    * `Form.cutLine`
    * `Form.pass_line`
    * `FilledLines`
    * `FilledLines.left`
-/

------------------------------------------------------------
-- A Pass over a Line
------------------------------------------------------------

namespace BiomeMigration

namespace Directive

/- A line break, or the end of the text. -/
def EndsBefore (ending rest : List Char) : Prop :=
  ending = ['\n'] ∨ ending = ['\r', '\n'] ∨
    (ending = [] ∧ rest = [])

namespace EndsBefore

variable {ending rest : List Char}

theorem mem_breaks
    (hEnding : EndsBefore ending rest) :
    ending ∈ breaks := by
  rcases hEnding with rfl | rfl | ⟨rfl, _⟩
  · decide
  · decide
  · decide

theorem isLineEnd_head
    (hEnding : EndsBefore ending rest) :
    ∀ c ∈ (ending ++ rest).head?, isLineEnd c = true := by
  rcases hEnding with rfl | rfl | ⟨rfl, rfl⟩
  · simp [isLineEnd]
  · simp [isLineEnd]
  · simp

theorem stops
    (hEnding : EndsBefore ending rest) :
    Stops (ending ++ rest) :=
  fun c hc => Or.inl (hEnding.isLineEnd_head c hc)

theorem lineBreak?_eq
    (hEnding : EndsBefore ending rest) :
    lineBreak? (ending ++ rest) = some (ending, rest) := by
  rcases hEnding with rfl | rfl | ⟨rfl, rfl⟩
  · rfl
  · rfl
  · rfl

/- Behind a line break, or at the end, a line starts. -/
theorem marksFrom_eq
    (hEnding : EndsBefore ending rest)
    (form : Form)
    (lineStart : Bool)
    (content : List Char) :
    form.marksFrom (startsLine lineStart (content ++ ending))
        0 rest =
      form.marksFrom true 0 rest := by
  rw [startsLine_append]
  rcases hEnding with rfl | rfl | ⟨_, rfl⟩
  · rfl
  · rfl
  · rfl

/- A line break stays. -/
theorem marksFrom_append
    (hEnding : EndsBefore ending rest)
    (form : Form)
    (lineStart : Bool) :
    form.marksFrom lineStart 0 (ending ++ rest) =
      List.replicate ending.length .stays ++
        form.marksFrom true 0 rest := by
  have hEnds := isLineEnd_of_mem_break hEnding.mem_breaks
  have hSlash : '/' ∉ ending := by
    intro hIn
    cases hEnds '/' hIn
  rw [Form.marksFrom_before hSlash]
  · rw [← List.nil_append ending, hEnding.marksFrom_eq]
  · intro front indent hParts hNonempty _ hIndent
    exfalso
    rcases List.exists_cons_of_ne_nil hNonempty with
      ⟨c, indent, rfl⟩
    have hBlank := hIndent c List.mem_cons_self
    have hEnd := hEnds c (by rw [hParts]; simp)
    rw [isLineEnd_eq_false_of_isIndent hBlank] at hEnd
    cases hEnd

end EndsBefore

/- Behind text without line ends no line starts. -/
theorem eq_nil_of_startsLine
    {cs : List Char}
    (hUnbroken : ∀ c ∈ cs, isLineEnd c = false)
    (hStart : startsLine true cs = true) :
    cs = [] := by
  rcases List.eq_nil_or_concat cs with rfl | ⟨front, d, rfl⟩
  · rfl
  · have hFeed : d = '\n' := by
      rw [startsLine_eq_all] at hStart
      simpa using hStart
    have hEnd := hUnbroken d (by simp)
    rw [hFeed] at hEnd
    cases hEnd

namespace Form

/-
  What a form leaves of a line: all of it if it finds no
  comment there, and else what is before the first one. If
  that is but indentation, the line goes with its break.
-/
def cutLine
    (form : Form)
    (content ending : List Char) : List Char :=
  match form.before? content with
  | none => content ++ ending
  | some before =>
      if before.all isIndent then [] else before ++ ending

section Cut

variable {form : Form} {content ending before : List Char}

theorem cutLine_of_none
    (hBefore : form.before? content = none) :
    form.cutLine content ending = content ++ ending := by
  unfold cutLine
  rw [hBefore]

theorem cutLine_of_indent
    (hBefore : form.before? content = some before)
    (hIndent : ∀ c ∈ before, isIndent c = true) :
    form.cutLine content ending = [] := by
  unfold cutLine
  rw [hBefore]
  exact if_pos (List.all_eq_true.mpr hIndent)

theorem cutLine_of_shared
    (hBefore : form.before? content = some before)
    (hShared : ¬ ∀ c ∈ before, isIndent c = true) :
    form.cutLine content ending = before ++ ending := by
  unfold cutLine
  rw [hBefore]
  exact if_neg fun hAll => hShared (List.all_eq_true.mp hAll)

end Cut

/- What a pass of a form leaves of a text. -/
def left
    (form : Form)
    (cs : List Char) : List Char :=
  keep (form.marks cs) cs

/- The number of pieces that a pass of a form cuts. -/
def cuts (form : Form) (cs : List Char) : Nat :=
  pieces (form.marks cs)

/- A text that is over has nothing left. -/
theorem endsBefore_left
    {ending rest : List Char}
    (hEnding : EndsBefore ending rest)
    (form : Form) :
    EndsBefore ending (form.left rest) := by
  rcases hEnding with hFeed | hReturn | ⟨hNone, rfl⟩
  · exact Or.inl hFeed
  · exact Or.inr (Or.inl hReturn)
  · exact Or.inr (Or.inr ⟨hNone, rfl⟩)

section Line

variable {word content ending rest : List Char}

/- Characters before the first comment of a line stay. -/
theorem marksFrom_part
    {part comment after : List Char}
    (hPlain : (line word).Plain)
    (hUnbroken : ∀ c ∈ part, isLineEnd c = false)
    (hFilled : OpenersFilled (part ++ comment))
    (hStops : Stops after)
    (hNone :
      ∀ front back,
        part = front ++ back →
          back ≠ [] →
            (line word).comment? (back ++ comment) = none)
    (hLine :
      (∀ c ∈ part, isIndent c = true) →
        (line word).wholeLine? (part ++ (comment ++ after)) =
          none) :
    (line word).marksFrom true 0
        (part ++ (comment ++ after)) =
      List.replicate part.length .stays ++
        (line word).marksFrom (startsLine true part) 0
          (comment ++ after) := by
  have hFree :
      ∀ front back,
        part = front ++ back →
          back ≠ [] →
            (line word).comment? (back ++ (comment ++ after)) =
              none := by
    intro front back hPart hNonempty
    rw [hPart, List.append_assoc] at hFilled
    have hSame :=
      isSome_comment?_append hPlain hFilled.of_append_right
        hStops (by simp [hNonempty])
    rw [hNone front back hPart hNonempty, List.append_assoc]
      at hSame
    simpa using hSame
  apply marksFrom_run
  intro front c back hPart
  have hBack : c :: back ≠ [] := List.cons_ne_nil c back
  rw [← List.cons_append]
  apply piece?_eq_none (hFree front (c :: back) hPart hBack)
  intro hStart
  -- A line starts in it only where it starts itself.
  have hFront : front = [] := by
    apply eq_nil_of_startsLine _ hStart
    intro d hd
    exact hUnbroken d (by rw [hPart]; simp [hd])
  rw [hFront, List.nil_append] at hPart
  rw [← hPart]
  by_cases hIndent : ∀ c ∈ part, isIndent c = true
  · exact hLine hIndent
  · rcases exists_of_not_indent hIndent (comment ++ after) with
      ⟨lead, stop, hSplit, hNonempty, hRest⟩
    apply wholeLine?_eq_none
    rw [hRest]
    exact hFree lead stop hSplit hNonempty

/- A line without a comment stays with its break. -/
theorem marks_line_of_none
    (hPlain : (line word).Plain)
    (hUnbroken : ∀ c ∈ content, isLineEnd c = false)
    (hFilled : OpenersFilled content)
    (hEnding : EndsBefore ending rest)
    (hBefore : (line word).before? content = none) :
    (line word).marks (content ++ (ending ++ rest)) =
      List.replicate (content ++ ending).length .stays ++
        (line word).marks rest := by
  have hNone := comment?_eq_none_of_before? hBefore
  have hOther :
      (line word).comment? (ending ++ rest) = none := by
    apply comment?_eq_none_of_head
    intro hHead
    cases hEnding.isLineEnd_head '/' hHead
  have hMarks :
      (line word).marksFrom true 0
          (content ++ ([] ++ (ending ++ rest))) =
        List.replicate content.length .stays ++
          (line word).marksFrom (startsLine true content) 0
            ([] ++ (ending ++ rest)) := by
    apply marksFrom_part hPlain hUnbroken
    · rw [List.append_nil]
      exact hFilled
    · exact hEnding.stops
    · intro front back hParts _
      rw [List.append_nil]
      exact hNone front back hParts
    · intro hIndent
      apply wholeLine?_indent_eq_none hIndent _ hOther
      intro c hc
      have hEnd := hEnding.isLineEnd_head c hc
      cases hBlank : isIndent c with
      | false => rfl
      | true =>
          rw [isLineEnd_eq_false_of_isIndent hBlank] at hEnd
          cases hEnd
  rw [List.nil_append] at hMarks
  unfold marks
  rw [hMarks, hEnding.marksFrom_append, List.length_append,
    List.replicate_add, List.append_assoc]

/- A line that is but indentation before a comment goes. -/
theorem piece?_line_of_indent
    {before comment : List Char}
    (hPlain : (line word).Plain)
    (hUnbroken : ∀ c ∈ comment, isLineEnd c = false)
    (hIndent : ∀ c ∈ before, isIndent c = true)
    (hEnding : EndsBefore ending rest)
    (hComment :
      ((line word).comment? comment).isSome = true) :
    (line word).piece? true
        (before ++ comment ++ ending ++ rest) =
      some (before ++ comment ++ ending, rest) := by
  have hFound :=
    comment?_of_unbroken hPlain hUnbroken
      hEnding.isLineEnd_head hComment
  have hWhole :
      (line word).wholeLine?
          (before ++ comment ++ ending ++ rest) =
        some (before ++ comment ++ ending, rest) :=
    wholeLine?_eq_some_iff.mpr
      ⟨before, comment, [], ending,
        ⟨hIndent, hFound, by simp, hEnding.lineBreak?_eq⟩,
        by simp, rfl⟩
  unfold piece?
  rw [if_pos rfl, hWhole]
  rfl

theorem marks_line_of_indent
    {before comment : List Char}
    (hPlain : (line word).Plain)
    (hUnbroken : ∀ c ∈ comment, isLineEnd c = false)
    (hIndent : ∀ c ∈ before, isIndent c = true)
    (hEnding : EndsBefore ending rest)
    (hComment :
      ((line word).comment? comment).isSome = true) :
    (line word).marks (before ++ comment ++ ending ++ rest) =
      .cut true ::
          List.replicate
            ((before ++ comment ++ ending).length - 1)
            (.cut false) ++
        (line word).marks rest := by
  unfold marks
  rw [marksFrom_piece
      (piece?_line_of_indent hPlain hUnbroken hIndent hEnding
        hComment),
    hEnding.marksFrom_eq]

/- Of another line with a comment the comment goes. -/
theorem marks_line_of_shared
    {before comment : List Char}
    (hPlain : (line word).Plain)
    (hUnbroken : ∀ c ∈ before ++ comment, isLineEnd c = false)
    (hFilled : OpenersFilled (before ++ comment))
    (hShared : ¬ ∀ c ∈ before, isIndent c = true)
    (hEnding : EndsBefore ending rest)
    (hComment :
      ((line word).comment? comment).isSome = true)
    (hNone :
      ∀ front back,
        before = front ++ back →
          back ≠ [] →
            (line word).comment? (back ++ comment) = none) :
    (line word).marks (before ++ (comment ++ (ending ++ rest))) =
      List.replicate before.length .stays ++
        (.cut true ::
            List.replicate (comment.length - 1) (.cut false) ++
          (List.replicate ending.length .stays ++
            (line word).marks rest)) := by
  have hFound :=
    comment?_of_unbroken hPlain
      (fun c hc => hUnbroken c (List.mem_append_right _ hc))
      hEnding.isLineEnd_head hComment
  have hFront : ∀ c ∈ before, isLineEnd c = false :=
    fun c hc => hUnbroken c (List.mem_append_left _ hc)
  have hInside : startsLine true before = false := by
    cases hStart : startsLine true before with
    | false => rfl
    | true =>
        exfalso
        apply hShared
        rw [eq_nil_of_startsLine hFront hStart]
        simp
  have hPiece :
      (line word).piece? (startsLine true before)
          (comment ++ (ending ++ rest)) =
        some (comment, ending ++ rest) := by
    rw [hInside, piece?_false]
    exact hFound
  unfold marks
  rw [marksFrom_part hPlain hFront hFilled hEnding.stops hNone
      (fun hIndent => (hShared hIndent).elim),
    marksFrom_piece hPiece, hEnding.marksFrom_append]

/-
  What a pass does to the first line of a text, and to the
  text behind it.
-/
theorem pass_line
    (hPlain : (line word).Plain)
    (hUnbroken : ∀ c ∈ content, isLineEnd c = false)
    (hFilled : OpenersFilled content)
    (hEnding : EndsBefore ending rest) :
    (line word).left (content ++ (ending ++ rest)) =
        (line word).cutLine content ending ++
          (line word).left rest ∧
      (line word).cuts (content ++ (ending ++ rest)) =
        ((line word).before? content).toList.length +
          (line word).cuts rest := by
  unfold left cuts
  cases hBefore : (line word).before? content with
  | none =>
      rw [marks_line_of_none hPlain hUnbroken hFilled hEnding
        hBefore, ← List.append_assoc, keep_replicate_stays,
        pieces_replicate_stays, cutLine_of_none hBefore]
      simp
  | some before =>
      rcases exists_of_before? hBefore with
        ⟨comment, rfl, hComment, hNone⟩
      have hNonempty : comment ≠ [] := by
        rintro rfl
        rw [comment?_eq_none_of_head (by simp)] at hComment
        cases hComment
      by_cases hIndent : ∀ c ∈ before, isIndent c = true
      · have hMarks :=
          marks_line_of_indent hPlain
            (fun c hc =>
              hUnbroken c (List.mem_append_right _ hc))
            hIndent hEnding hComment
        have hPiece : before ++ comment ++ ending ≠ [] := by
          simp [hNonempty]
        rw [← List.append_assoc, hMarks, keep_piece hPiece,
          pieces_piece, cutLine_of_indent hBefore hIndent]
        simp [Nat.add_comm]
      · rw [List.append_assoc,
          marks_line_of_shared hPlain hUnbroken hFilled hIndent
            hEnding hComment hNone,
          keep_replicate_stays, keep_piece hNonempty,
          keep_replicate_stays, pieces_replicate_stays,
          pieces_piece, pieces_replicate_stays,
          cutLine_of_shared hBefore hIndent]
        simp [Nat.add_comm]

end Line

end Form

------------------------------------------------------------
-- Texts of Lines
------------------------------------------------------------

/-
  A text of lines without returns of their own, each with
  its break, in which any two slashes are filled.
-/
inductive FilledLines : List Char → Prop where
  | nil : FilledLines []
  | line
      {content ending rest : List Char}
      (hUnbroken : ∀ c ∈ content, isLineEnd c = false)
      (hFilled : OpenersFilled content)
      (hEnding : EndsBefore ending rest)
      (hRest : FilledLines rest) :
      FilledLines (content ++ (ending ++ rest))

private theorem filledLines_of_length
    (n : Nat)
    {cs : List Char}
    (hLength : cs.length ≤ n)
    (hReturns : ReturnsPaired cs)
    (hFilled : OpenersFilled cs) :
    FilledLines cs := by
  induction n generalizing cs with
  | zero =>
      have hNil : cs = [] := by
        simpa using hLength
      rw [hNil]
      exact .nil
  | succ n ih =>
      cases hRun : run (!isLineEnd ·) cs with
      | mk content after =>
          rcases run_eq_iff.mp hRun with
            ⟨rfl, hContent, hHead⟩
          have hUnbroken :
              ∀ c ∈ content, isLineEnd c = false := by
            simpa using hContent
          have hEnd : ∀ c ∈ after.head?, isLineEnd c = true := by
            simpa using hHead
          have hFirst : OpenersFilled content :=
            hFilled.of_append_left
              fun c hc => Or.inl (hEnd c hc)
          have hNext :
              ∀ {ending rest : List Char},
                after = ending ++ rest →
                  ending ≠ [] → FilledLines rest := by
            rintro ending rest rfl hNonempty
            have hPositive := List.length_pos_iff.mpr hNonempty
            rw [← List.append_assoc] at hReturns hFilled
            apply ih _ hReturns.of_append
              hFilled.of_append_right
            simp only [List.length_append] at hLength
            omega
          cases after with
          | nil =>
              exact .line hUnbroken hFirst
                (Or.inr (Or.inr ⟨rfl, rfl⟩)) .nil
          | cons c after =>
              have hBreak : c = '\n' ∨ c = '\r' := by
                have hEndHead := hEnd c rfl
                simpa [isLineEnd] using hEndHead
              rcases hBreak with rfl | rfl
              · have hRest : FilledLines after :=
                  @hNext ['\n'] after rfl (by simp)
                exact .line hUnbroken hFirst (Or.inl rfl) hRest
              · rcases List.head?_eq_some_iff.mp
                    (hReturns content after rfl) with
                  ⟨rest, rfl⟩
                have hRest : FilledLines rest :=
                  @hNext ['\r', '\n'] rest rfl (by simp)
                exact .line hUnbroken hFirst
                  (Or.inr (Or.inl rfl)) hRest

/- A text with paired returns and filled slashes is one. -/
theorem filledLines_of_openersFilled
    {cs : List Char}
    (hReturns : ReturnsPaired cs)
    (hFilled : OpenersFilled cs) :
    FilledLines cs :=
  filledLines_of_length cs.length (Nat.le_refl _) hReturns
    hFilled

namespace FilledLines

variable {word : List Char}

/- What a pass leaves of such a text is such a text. -/
theorem left
    (hPlain : (Form.line word).Plain)
    {cs : List Char}
    (hLines : FilledLines cs) :
    FilledLines ((Form.line word).left cs) := by
  induction hLines with
  | nil => exact .nil
  | @line content ending rest hUnbroken hFilled hEnding hRest ih =>
      have hBreak :=
        Form.endsBefore_left hEnding (Form.line word)
      rw [(Form.pass_line hPlain hUnbroken hFilled hEnding).1]
      cases hBefore : (Form.line word).before? content with
      | none =>
          rw [Form.cutLine_of_none hBefore, List.append_assoc]
          exact .line hUnbroken hFilled hBreak ih
      | some before =>
          by_cases hIndent : ∀ c ∈ before, isIndent c = true
          · rw [Form.cutLine_of_indent hBefore hIndent]
            exact ih
          · rw [Form.cutLine_of_shared hBefore hIndent,
              List.append_assoc]
            rcases Form.exists_of_before? hBefore with
              ⟨comment, rfl, hComment, _⟩
            have hStops := Form.stops_of_comment? hComment
            exact .line
              (fun c hc =>
                hUnbroken c (List.mem_append_left _ hc))
              (hFilled.of_append_left hStops) hBreak ih

end FilledLines

end Directive

end BiomeMigration
