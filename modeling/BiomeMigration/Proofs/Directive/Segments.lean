import BiomeMigration.Proofs.Directive.Recognition

/-
  Texts in segments, such that a directive comment that is
  alone on its line makes one segment with that line. A pass
  takes whole segments.

  Main declarations:
    * `Segment`
    * `Fits`
    * `Fits.wholeLine?_eq_none`
    * `marksFrom_render`
-/

------------------------------------------------------------
-- Segments
------------------------------------------------------------

namespace BiomeMigration

namespace Directive

/-
  A segment of a text: a character of the code, a comment
  without margins, or a comment with all of its line.
-/
inductive Segment where
  | code (c : Char)
  | inline (c : Comment)
  | standalone
      (indent : List Char)
      (c : Comment)
      (blanks ending : List Char)
  deriving DecidableEq, Repr

namespace Segment

/- The characters of a segment. -/
def text : Segment → List Char
  | .code c => [c]
  | .inline c => c.text
  | .standalone indent c blanks ending =>
      indent ++ (c.text ++ (blanks ++ ending))

/- A form matches the comment of a segment. -/
def takenBy (form : Form) : Segment → Bool
  | .code _ => false
  | .inline c => form.matchesComment c
  | .standalone _ c _ _ => form.matchesComment c

/- The segment has a directive comment. -/
def isDirective : Segment → Bool
  | .code _ => false
  | .inline c => c.isDirective
  | .standalone _ c _ _ => c.isDirective

/- The marks of a segment in the pass of a form. -/
def marks
    (form : Form)
    (s : Segment) : List Mark :=
  if s.takenBy form then
    .cut true ::
      List.replicate (s.text.length - 1) (.cut false)
  else List.replicate s.text.length .stays

end Segment

/- The text of some segments. -/
def render (ts : List Segment) : List Char :=
  ts.flatMap Segment.text

@[simp] theorem render_nil : render [] = [] :=
  rfl

@[simp] theorem render_cons
    (s : Segment)
    (ts : List Segment) :
    render (s :: ts) = s.text ++ render ts :=
  rfl

@[simp] theorem render_append (ts us : List Segment) :
    render (ts ++ us) = render ts ++ render us :=
  List.flatMap_append

@[simp] theorem render_map_code (cs : List Char) :
    render (cs.map .code) = cs := by
  induction cs with
  | nil => rfl
  | cons c cs ih =>
      rw [List.map_cons, render_cons, ih]
      rfl

------------------------------------------------------------
-- Lines of Segments
------------------------------------------------------------

/-
  What a line holds so far: nothing, spaces and tabs only,
  something else, or a directive comment.
-/
inductive LineState where
  | start
  | blank
  | busy
  | taken
  deriving DecidableEq, Repr

namespace LineState

/- The state behind a character of the code. -/
def next
    (st : LineState)
    (c : Char) : LineState :=
  if c = '\n' then .start
  else if st = .taken then .taken
  else if isIndent c = true ∧ st ≠ .busy then .blank
  else .busy

/- The state behind a comment that is no directive. -/
def behind
    (st : LineState)
    (c : Comment) : LineState :=
  if '\n' ∈ c.text then .busy
  else if st = .taken then .taken
  else .busy

theorem next_eq_start_iff
    (st : LineState)
    (c : Char) :
    st.next c = .start ↔ c = '\n' := by
  unfold next
  split
  · next hFeed => simp [hFeed]
  · next hFeed =>
      split
      · simp [hFeed]
      · split <;> simp [hFeed]

theorem behind_ne_start
    (st : LineState)
    (c : Comment) :
    st.behind c ≠ .start := by
  unfold behind
  split
  · simp
  · split <;> simp

end LineState

/- A line break, or the end of the segments. -/
def LineEnd
    (ending : List Char)
    (ts : List Segment) : Prop :=
  ending = ['\n'] ∨ ending = ['\r', '\n'] ∨
    (ending = [] ∧ ts = [])

/-
  Segments that are in order behind a line with a given
  state: comments are delimited, no line has two directive
  comments, and a directive comment without margins shares
  its lines.
-/
inductive Fits : LineState → List Segment → Prop where
  | nil (st : LineState) : Fits st []
  | code
      {st : LineState}
      {c : Char}
      {ts : List Segment}
      (hCode : c ≠ '/')
      (hRest : Fits (st.next c) ts) :
      Fits st (.code c :: ts)
  | plain
      {st : LineState}
      {c : Comment}
      {ts : List Segment}
      (hDirective : c.isDirective = false)
      (hDelimits : c.Delimits (render ts))
      (hRest : Fits (st.behind c) ts) :
      Fits st (.inline c :: ts)
  | shared
      {st : LineState}
      {c : Comment}
      {ts : List Segment}
      (hDirective : c.isDirective = true)
      (hDelimits : c.Delimits (render ts))
      (hFresh : st ≠ .taken)
      (hShared :
        st = .busy ∨ Place.blankRest? (render ts) = none)
      (hRest : Fits .taken ts) :
      Fits st (.inline c :: ts)
  | alone
      {indent : List Char}
      {c : Comment}
      {blanks ending : List Char}
      {ts : List Segment}
      (hDirective : c.isDirective = true)
      (hIndent : ∀ d ∈ indent, isIndent d = true)
      (hDelimits :
        c.Delimits (blanks ++ ending ++ render ts))
      (hBlanks : ∀ d ∈ blanks, isIndent d = true)
      (hEnding : LineEnd ending ts)
      (hRest : Fits .start ts) :
      Fits .start (.standalone indent c blanks ending :: ts)

end Directive

end BiomeMigration

------------------------------------------------------------
-- The Start of a Text
------------------------------------------------------------

namespace BiomeMigration

namespace Directive

/- A comment starts with a slash and a slash or a star. -/
theorem Comment.exists_text_eq (c : Comment) :
    ∃ d tail,
      c.text = '/' :: d :: tail ∧ (d = '/' ∨ d = '*') := by
  cases c with
  | line body => exact ⟨'/', body, rfl, Or.inl rfl⟩
  | block body =>
      exact ⟨'*', body ++ ['*', '/'], rfl, Or.inr rfl⟩

theorem Comment.slashOpens_text
    (c : Comment)
    (after : List Char) :
    SlashOpens (c.text ++ after) := by
  rcases c.exists_text_eq with ⟨d, tail, hText, hSign⟩
  intro rest hRest
  rw [hText] at hRest
  simp only [List.cons_append, List.cons.injEq, true_and]
    at hRest
  rw [← hRest]
  simpa using hSign

/- Text without a slash in front starts no comment. -/
theorem SlashOpens.append_left
    {part after : List Char}
    (hPart : '/' ∉ part)
    (hOpens : SlashOpens after) :
    SlashOpens (part ++ after) := by
  intro tail hTail
  cases part with
  | nil => exact hOpens tail hTail
  | cons d part =>
      have hSlash : d = '/' := (List.cons.inj hTail).1
      exact (hPart (by simp [hSlash])).elim

/- Spaces and tabs are no slashes. -/
theorem slash_not_mem_of_isIndent
    {blanks : List Char}
    (hBlanks : ∀ d ∈ blanks, isIndent d = true) :
    '/' ∉ blanks := by
  intro hIn
  exact absurd (hBlanks '/' hIn) (by decide)

/- A slash in segments that fit starts a comment. -/
theorem Fits.slashOpens
    {st : LineState}
    {ts : List Segment}
    (hFits : Fits st ts) :
    SlashOpens (render ts) := by
  cases hFits with
  | nil => simp [SlashOpens]
  | code hCode hRest =>
      intro tail hTail
      rw [render_cons] at hTail
      exact (hCode (List.cons.inj hTail).1).elim
  | plain hDirective hDelimits hRest =>
      exact Comment.slashOpens_text _ _
  | shared hDirective hDelimits hFresh hShared hRest =>
      exact Comment.slashOpens_text _ _
  | @alone indent c blanks ending ts hDirective hIndent
      hDelimits hBlanks hEnding hRest =>
      rw [render_cons, Segment.text, List.append_assoc,
        List.append_assoc]
      exact (c.slashOpens_text _).append_left
        (slash_not_mem_of_isIndent hIndent)

theorem Comment.run_isIndent_text
    (c : Comment)
    (after : List Char) :
    run isIndent (c.text ++ after) = ([], c.text ++ after) := by
  apply run_eq_of_head
  rcases c.exists_text_eq with ⟨d, tail, hText, _⟩
  intro e he
  have hSlash : '/' = e := by simpa [hText] using he
  rw [← hSlash]
  decide

/- The blank rest of a line is told by its first character. -/
theorem Place.blankRest?_cons_of_isIndent
    {c : Char}
    (hIndent : isIndent c = true)
    (cs : List Char) :
    blankRest? (c :: cs) = (blankRest? cs).map (c :: ·) := by
  have hRun :
      run isIndent (c :: cs) =
        (c :: (run isIndent cs).1, (run isIndent cs).2) := by
    simp [run, hIndent]
  unfold blankRest?
  rw [hRun]
  simp only [Option.map_map]
  rfl

theorem Place.blankRest?_of_head
    {cs : List Char}
    (hHead : ∀ c ∈ cs.head?, isIndent c = false) :
    blankRest? cs = (lineBreak? cs).map Prod.fst := by
  unfold blankRest?
  rw [run_eq_of_head hHead]
  rfl

/- The rest of a line that holds a comment is not blank. -/
theorem Comment.blankRest?_text
    (c : Comment)
    (after : List Char) :
    Place.blankRest? (c.text ++ after) = none := by
  unfold Place.blankRest?
  rw [c.run_isIndent_text]
  rcases c.exists_text_eq with ⟨d, tail, hText, _⟩
  rw [hText]
  simp [lineBreak?]

end Directive

end BiomeMigration

------------------------------------------------------------
-- Whole Lines of Segments
------------------------------------------------------------

namespace BiomeMigration

namespace Directive

namespace Form

/- Indentation in front makes no whole line. -/
theorem wholeLine?_cons_eq_none
    {form : Form}
    {c : Char}
    {cs : List Char}
    (hIndent : isIndent c = true)
    (hNone : form.wholeLine? cs = none) :
    form.wholeLine? (c :: cs) = none := by
  cases hFound : form.wholeLine? (c :: cs) with
  | none => rfl
  | some result =>
      exfalso
      rcases result with ⟨piece, rest⟩
      rcases wholeLine?_eq_some_iff.mp hFound with
        ⟨indent, comment, trail, ending, hLine, rfl, hText⟩
      cases indent with
      | nil =>
          have hHead := head?_of_comment? hLine.comment_found
          rcases List.head?_eq_some_iff.mp hHead with
            ⟨tail, rfl⟩
          have hSlash : c = '/' := (List.cons.inj hText).1
          rw [hSlash] at hIndent
          have hFalse : isIndent '/' = false := by decide
          rw [hFalse] at hIndent
          simp at hIndent
      | cons d indent =>
          have hShorter :
              form.wholeLine? cs =
                some (indent ++ comment ++ trail ++ ending,
                  rest) := by
            apply wholeLine?_eq_some_iff.mpr
            refine ⟨indent, comment, trail, ending, ?_, rfl,
              (List.cons.inj hText).2⟩
            exact
              { hLine with
                indent_blank := fun e he =>
                  hLine.indent_blank e (by simp [he]) }
          rw [hNone] at hShorter
          simp at hShorter

/- A comment that is not matched starts no whole line. -/
theorem wholeLine?_text_of_not_matches
    {form : Form}
    (hPlain : form.Plain)
    {c : Comment}
    {after : List Char}
    (hDelimits : c.Delimits after)
    (hMatches : form.matchesComment c = false) :
    form.wholeLine? (c.text ++ after) = none := by
  apply wholeLine?_eq_none
  rw [c.run_isIndent_text]
  have hFound := comment?_text hPlain hDelimits
  rw [hMatches] at hFound
  simpa using hFound

/- Neither does one that shares its last line. -/
theorem wholeLine?_text_of_shared
    {form : Form}
    (hPlain : form.Plain)
    {c : Comment}
    {after : List Char}
    (hDelimits : c.Delimits after)
    (hShared : Place.blankRest? after = none) :
    form.wholeLine? (c.text ++ after) = none := by
  unfold wholeLine?
  rw [c.run_isIndent_text]
  simp only [comment?_text hPlain hDelimits]
  cases form.matchesComment c with
  | false => rfl
  | true =>
      unfold Place.blankRest? at hShared
      have hBreak :
          lineBreak? (run isIndent after).2 = none :=
        Option.map_eq_none_iff.mp hShared
      simp [hBreak]

/- The line of a comment that is alone on it. -/
theorem wholeLine?_standalone
    {form : Form}
    (hPlain : form.Plain)
    {c : Comment}
    {indent blanks ending : List Char}
    {ts : List Segment}
    (hMatches : form.matchesComment c = true)
    (hIndent : ∀ d ∈ indent, isIndent d = true)
    (hDelimits : c.Delimits (blanks ++ ending ++ render ts))
    (hBlanks : ∀ d ∈ blanks, isIndent d = true)
    (hEnding : LineEnd ending ts) :
    form.wholeLine?
        ((Segment.standalone indent c blanks ending).text ++
          render ts) =
      some
        ((Segment.standalone indent c blanks ending).text,
          render ts) := by
  apply wholeLine?_eq_some_iff.mpr
  refine ⟨indent, c.text, blanks, ending, ?_, ?_, rfl⟩
  · refine ⟨hIndent, ?_, hBlanks, ?_⟩
    · rw [comment?_text hPlain hDelimits, hMatches]
      rfl
    · rcases hEnding with rfl | rfl | ⟨rfl, rfl⟩
      · rfl
      · rfl
      · rfl
  · simp [Segment.text]

end Form

/- What a standard rule matches in full is a directive. -/
theorem Comment.isDirective_of_matches
    {rule : Rule}
    (hRule : rule ∈ Rule.standard)
    {c : Comment}
    (hMatches : rule.form.matchesComment c = true) :
    c.isDirective = true :=
  List.any_eq_true.mpr ⟨rule, hRule, hMatches⟩

theorem Comment.not_matches_of_not_isDirective
    {rule : Rule}
    (hRule : rule ∈ Rule.standard)
    {c : Comment}
    (hDirective : c.isDirective = false) :
    rule.form.matchesComment c = false := by
  cases hMatches : rule.form.matchesComment c with
  | false => rfl
  | true =>
      rw [isDirective_of_matches hRule hMatches] at hDirective
      simp at hDirective

/-
  At the start of a line no form finds a whole line, unless
  a segment with its line starts there.
-/
theorem Fits.wholeLine?_eq_none
    {rule : Rule}
    (hRule : rule ∈ Rule.standard)
    {st : LineState}
    {ts : List Segment}
    (hFits : Fits st ts)
    (hState : st = .start ∨ st = .blank)
    (hHead :
      ∀ indent c blanks ending rest,
        ts ≠ .standalone indent c blanks ending :: rest) :
    rule.form.wholeLine? (render ts) = none := by
  have hPlain := Form.plain_of_mem_standard rule hRule
  induction hFits with
  | nil st =>
      apply Form.wholeLine?_eq_none
      exact Form.comment?_eq_none_of_head (by simp [run])
  | @code st c ts hCode hRest ih =>
      rw [render_cons, Segment.text]
      cases hIndent : isIndent c with
      | false =>
          apply Form.wholeLine?_eq_none
          apply Form.comment?_eq_none_of_head
          simpa [run, hIndent] using hCode
      | true =>
          apply Form.wholeLine?_cons_eq_none hIndent
          have hNotFeed : c ≠ '\n' := by
            rintro rfl
            simp [isIndent] at hIndent
          have hNext : st.next c = .blank := by
            unfold LineState.next
            rcases hState with rfl | rfl
            · simp [hNotFeed, hIndent]
            · simp [hNotFeed, hIndent]
          apply ih (Or.inr hNext)
          intro indent d blanks ending rest hEq
          rw [hEq, hNext] at hRest
          cases hRest
  | @plain st c ts hDirective hDelimits hRest ih =>
      rw [render_cons, Segment.text]
      exact Form.wholeLine?_text_of_not_matches hPlain
        hDelimits
        (Comment.not_matches_of_not_isDirective hRule
          hDirective)
  | @shared st c ts hDirective hDelimits hFresh hShared
      hRest ih =>
      rw [render_cons, Segment.text]
      apply Form.wholeLine?_text_of_shared hPlain hDelimits
      rcases hShared with hBusy | hShared
      · rcases hState with rfl | rfl
        · simp at hBusy
        · simp at hBusy
      · exact hShared
  | @alone indent c blanks ending ts hDirective hIndent
      hDelimits hBlanks hEnding hRest ih =>
      exact (hHead indent c blanks ending ts rfl).elim

end Directive

end BiomeMigration

------------------------------------------------------------
-- A Pass over Segments
------------------------------------------------------------

namespace BiomeMigration

namespace Directive

variable {rule : Rule}

/- Indentation before a text without a comment stays. -/
theorem Form.marksFrom_indent
    {form : Form}
    {indent after : List Char}
    (hIndent : ∀ d ∈ indent, isIndent d = true)
    (hAfter : run isIndent after = ([], after))
    (hNone : form.comment? after = none) :
    form.marksFrom true 0 (indent ++ after) =
      List.replicate indent.length .stays ++
        form.marksFrom (startsLine true indent) 0 after := by
  apply marksFrom_run
  intro front d back hPart
  have hBack : ∀ e ∈ d :: back, isIndent e = true := by
    intro e he
    apply hIndent
    rw [hPart]
    exact List.mem_append_right _ he
  apply piece?_eq_none
  · apply comment?_eq_none_of_head
    intro hHead
    have hSlash : d = '/' := by simpa using hHead
    have hFalse : isIndent d = true := hBack d (by simp)
    rw [hSlash] at hFalse
    simp [isIndent] at hFalse
  · intro _
    apply wholeLine?_eq_none
    rw [← List.cons_append, run_append_of_forall hBack,
      hAfter]
    exact hNone

/- The rest of a line stays. -/
theorem Form.marksFrom_lineTail
    {form : Form}
    {tail after : List Char}
    (hSlash : '/' ∉ tail)
    (hFeed : '\n' ∉ tail.dropLast) :
    form.marksFrom false 0 (tail ++ after) =
      List.replicate tail.length .stays ++
        form.marksFrom (startsLine false tail) 0 after := by
  apply marksFrom_run
  intro front d back hPart
  have hFront : '\n' ∉ front := by
    intro hIn
    apply hFeed
    rw [hPart, List.dropLast_append_cons]
    exact List.mem_append_left _ hIn
  rw [startsLine_of_not_mem hFront, piece?_false]
  apply comment?_eq_none_of_head
  intro hHead
  have hEq : d = '/' := by simpa using hHead
  apply hSlash
  rw [hPart, hEq]
  simp

/- A line break is no part of the blanks before it. -/
theorem LineEnd.not_mem_dropLast
    {blanks ending : List Char}
    {ts : List Segment}
    (hBlanks : ∀ d ∈ blanks, isIndent d = true)
    (hEnding : LineEnd ending ts) :
    '\n' ∉ (blanks ++ ending).dropLast := by
  have hFeed : '\n' ∉ blanks := by
    intro hIn
    have hFalse := hBlanks _ hIn
    simp [isIndent] at hFalse
  rcases hEnding with rfl | rfl | ⟨rfl, _⟩
  · simpa using hFeed
  · rw [List.dropLast_append_of_ne_nil (by simp)]
    simpa using hFeed
  · rw [List.append_nil]
    intro hIn
    exact hFeed (List.dropLast_subset _ hIn)

theorem LineEnd.slash_not_mem
    {blanks ending : List Char}
    {ts : List Segment}
    (hBlanks : ∀ d ∈ blanks, isIndent d = true)
    (hEnding : LineEnd ending ts) :
    '/' ∉ blanks ++ ending := by
  have hSlash := slash_not_mem_of_isIndent hBlanks
  rcases hEnding with rfl | rfl | ⟨rfl, _⟩
  · simpa using hSlash
  · simpa using hSlash
  · simpa using hSlash

/- A line starts behind the rest of a line, or nothing is. -/
theorem LineEnd.marksFrom_eq
    {form : Form}
    {blanks ending : List Char}
    {ts : List Segment}
    (hEnding : LineEnd ending ts) :
    form.marksFrom (startsLine false (blanks ++ ending)) 0
        (render ts) =
      form.marksFrom true 0 (render ts) := by
  rw [startsLine_append]
  rcases hEnding with rfl | rfl | ⟨_, rfl⟩
  · rfl
  · rfl
  · rfl

/- A segment with its line that no form takes stays. -/
theorem marksFrom_standalone_stays
    (hRule : rule ∈ Rule.standard)
    {indent : List Char}
    {c : Comment}
    {blanks ending : List Char}
    {ts : List Segment}
    (hMatches : rule.form.matchesComment c = false)
    (hIndent : ∀ d ∈ indent, isIndent d = true)
    (hDelimits : c.Delimits (blanks ++ ending ++ render ts))
    (hBlanks : ∀ d ∈ blanks, isIndent d = true)
    (hEnding : LineEnd ending ts)
    (hOpens : SlashOpens (render ts)) :
    rule.form.marksFrom true 0
        ((Segment.standalone indent c blanks ending).text ++
          render ts) =
      List.replicate
          (Segment.standalone indent c blanks
            ending).text.length .stays ++
        rule.form.marksFrom true 0 (render ts) := by
  have hPlain := Form.plain_of_mem_standard rule hRule
  have hSlash := hEnding.slash_not_mem hBlanks
  have hNone :
      rule.form.comment?
          (c.text ++ (blanks ++ ending ++ render ts)) =
        none := by
    rw [Form.comment?_text hPlain hDelimits, hMatches]
    rfl
  have hTailOpens :
      SlashOpens (blanks ++ ending ++ render ts) :=
    hOpens.append_left hSlash
  have hFirst :
      rule.form.piece? (startsLine true indent)
          (c.text ++ (blanks ++ ending ++ render ts)) =
        none := by
    apply Form.piece?_eq_none hNone
    intro _
    apply Form.wholeLine?_eq_none
    rw [c.run_isIndent_text]
    exact hNone
  have hText :
      (Segment.standalone indent c blanks ending).text ++
          render ts =
        indent ++
          (c.text ++ (blanks ++ ending ++ render ts)) := by
    simp [Segment.text]
  rw [hText,
    Form.marksFrom_indent hIndent (c.run_isIndent_text _)
      hNone,
    Form.marksFrom_comment hPlain hDelimits hTailOpens
      hFirst,
    Form.marksFrom_lineTail hSlash
      (hEnding.not_mem_dropLast hBlanks),
    hEnding.marksFrom_eq]
  simp only [← List.append_assoc, List.replicate_append_replicate]
  congr 2
  simp [Segment.text]

/- The marks of a segment that no form takes. -/
theorem Segment.marks_of_not_takenBy
    {form : Form}
    {s : Segment}
    (hTaken : s.takenBy form = false) :
    s.marks form = List.replicate s.text.length .stays := by
  simp [Segment.marks, hTaken]

theorem Segment.marks_of_takenBy
    {form : Form}
    {s : Segment}
    (hTaken : s.takenBy form = true) :
    s.marks form =
      .cut true ::
        List.replicate (s.text.length - 1) (.cut false) := by
  simp [Segment.marks, hTaken]

/- A comment without margins that no form takes stays. -/
theorem marksFrom_inline_stays
    (hRule : rule ∈ Rule.standard)
    {c : Comment}
    {ts : List Segment}
    (hMatches : rule.form.matchesComment c = false)
    (hDelimits : c.Delimits (render ts))
    (hOpens : SlashOpens (render ts))
    (lineStart : Bool) :
    rule.form.marksFrom lineStart 0 (c.text ++ render ts) =
      List.replicate c.text.length .stays ++
        rule.form.marksFrom false 0 (render ts) := by
  have hPlain := Form.plain_of_mem_standard rule hRule
  apply Form.marksFrom_comment hPlain hDelimits hOpens
  apply Form.piece?_eq_none
  · rw [Form.comment?_text hPlain hDelimits, hMatches]
    rfl
  · intro _
    exact Form.wholeLine?_text_of_not_matches hPlain
      hDelimits hMatches

/- A comment without margins that a form takes is cut. -/
theorem marksFrom_inline_cut
    (hRule : rule ∈ Rule.standard)
    {c : Comment}
    {ts : List Segment}
    (hMatches : rule.form.matchesComment c = true)
    (hDelimits : c.Delimits (render ts))
    {lineStart : Bool}
    (hLine :
      lineStart = true →
        rule.form.wholeLine? (c.text ++ render ts) = none) :
    rule.form.marksFrom lineStart 0 (c.text ++ render ts) =
      .cut true ::
          List.replicate (c.text.length - 1) (.cut false) ++
        rule.form.marksFrom false 0 (render ts) := by
  have hPlain := Form.plain_of_mem_standard rule hRule
  have hFound :
      rule.form.comment? (c.text ++ render ts) =
        some (c.text, render ts) := by
    rw [Form.comment?_text hPlain hDelimits, hMatches]
    rfl
  have hPiece :
      rule.form.piece? lineStart (c.text ++ render ts) =
        some (c.text, render ts) := by
    unfold Form.piece?
    cases lineStart with
    | false => exact hFound
    | true =>
        rw [if_pos rfl, hLine rfl]
        exact hFound
  rw [Form.marksFrom_piece hPiece,
    Comment.startsLine_text hDelimits]

/- A segment with its line that a form takes is cut. -/
theorem marksFrom_standalone_cut
    (hRule : rule ∈ Rule.standard)
    {indent : List Char}
    {c : Comment}
    {blanks ending : List Char}
    {ts : List Segment}
    (hMatches : rule.form.matchesComment c = true)
    (hIndent : ∀ d ∈ indent, isIndent d = true)
    (hDelimits : c.Delimits (blanks ++ ending ++ render ts))
    (hBlanks : ∀ d ∈ blanks, isIndent d = true)
    (hEnding : LineEnd ending ts) :
    rule.form.marksFrom true 0
        ((Segment.standalone indent c blanks ending).text ++
          render ts) =
      .cut true ::
          List.replicate
            ((Segment.standalone indent c blanks
              ending).text.length - 1) (.cut false) ++
        rule.form.marksFrom true 0 (render ts) := by
  have hPlain := Form.plain_of_mem_standard rule hRule
  have hWhole :=
    Form.wholeLine?_standalone hPlain hMatches hIndent
      hDelimits hBlanks hEnding
  have hPiece :
      rule.form.piece? true
          ((Segment.standalone indent c blanks
              ending).text ++ render ts) =
        some
          ((Segment.standalone indent c blanks ending).text,
            render ts) := by
    unfold Form.piece?
    rw [if_pos rfl, hWhole]
    rfl
  rw [Form.marksFrom_piece hPiece]
  congr 1
  rw [Segment.text, startsLine_append, startsLine_append,
    Comment.startsLine_text hDelimits]
  exact hEnding.marksFrom_eq

/- A character of the code stays. -/
theorem marksFrom_code
    (hRule : rule ∈ Rule.standard)
    {st : LineState}
    {c : Char}
    {ts : List Segment}
    (hCode : c ≠ '/')
    (hRest : Fits (st.next c) ts) :
    rule.form.marksFrom (st == .start) 0 (c :: render ts) =
      .stays ::
        rule.form.marksFrom (st.next c == .start) 0
          (render ts) := by
  have hLine :
      (st == .start) = true →
        rule.form.wholeLine? (c :: render ts) = none := by
    intro hStart
    apply Fits.wholeLine?_eq_none hRule (Fits.code hCode hRest)
      (Or.inl (by simpa using hStart))
    intro indent d blanks ending rest hEq
    cases List.cons.inj hEq with
    | intro hHead _ => cases hHead
  have hPiece :
      rule.form.piece? (st == .start) (c :: render ts) =
        none := by
    apply Form.piece?_eq_none _ hLine
    apply Form.comment?_eq_none_of_head
    simpa using hCode
  have hState : (c == '\n') = (st.next c == .start) := by
    rw [Bool.eq_iff_iff, beq_iff_eq, beq_iff_eq,
      LineState.next_eq_start_iff]
  rw [← hState]
  exact Form.marksFrom_stays hPiece

/-
  The marks of segments that fit are those of each segment:
  a pass takes the segments that its form matches.
-/
theorem marksFrom_render
    (hRule : rule ∈ Rule.standard)
    {st : LineState}
    {ts : List Segment}
    (hFits : Fits st ts) :
    rule.form.marksFrom (st == .start) 0 (render ts) =
      ts.flatMap (Segment.marks rule.form) := by
  have hPlain := Form.plain_of_mem_standard rule hRule
  induction hFits with
  | nil st => rfl
  | @code st c ts hCode hRest ih =>
      have hMarks :
          (Segment.code c).marks rule.form = [.stays] :=
        Segment.marks_of_not_takenBy rfl
      rw [List.flatMap_cons, hMarks, ← ih]
      exact marksFrom_code hRule hCode hRest
  | @plain st c ts hDirective hDelimits hRest ih =>
      have hMatches :=
        Comment.not_matches_of_not_isDirective hRule
          hDirective
      have hState : (st.behind c == .start) = false := by
        simpa using st.behind_ne_start c
      rw [hState] at ih
      rw [List.flatMap_cons,
        Segment.marks_of_not_takenBy (s := .inline c) hMatches,
        ← ih]
      exact marksFrom_inline_stays hRule hMatches hDelimits
        hRest.slashOpens _
  | @shared st c ts hDirective hDelimits hFresh hShared
      hRest ih =>
      have hState : (LineState.taken == .start) = false := rfl
      rw [hState] at ih
      rw [List.flatMap_cons, ← ih]
      cases hMatches : rule.form.matchesComment c with
      | false =>
          rw [Segment.marks_of_not_takenBy (s := .inline c)
            hMatches]
          exact marksFrom_inline_stays hRule hMatches
            hDelimits hRest.slashOpens _
      | true =>
          rw [Segment.marks_of_takenBy (s := .inline c)
            hMatches]
          apply marksFrom_inline_cut hRule hMatches hDelimits
          intro hStart
          have hEq : st = .start := by simpa using hStart
          apply Form.wholeLine?_text_of_shared hPlain
            hDelimits
          rcases hShared with hBusy | hNone
          · rw [hEq] at hBusy
            simp at hBusy
          · exact hNone
  | @alone indent c blanks ending ts hDirective hIndent
      hDelimits hBlanks hEnding hRest ih =>
      have hState : (LineState.start == .start) = true := rfl
      rw [hState] at ih ⊢
      rw [List.flatMap_cons, ← ih]
      cases hMatches : rule.form.matchesComment c with
      | false =>
          rw [Segment.marks_of_not_takenBy
            (s := .standalone indent c blanks ending) hMatches]
          exact marksFrom_standalone_stays hRule hMatches
            hIndent hDelimits hBlanks hEnding
            hRest.slashOpens
      | true =>
          rw [Segment.marks_of_takenBy
            (s := .standalone indent c blanks ending) hMatches]
          exact marksFrom_standalone_cut hRule hMatches
            hIndent hDelimits hBlanks hEnding

end Directive

end BiomeMigration
