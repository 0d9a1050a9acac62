import BiomeMigration.Proofs.Directive.Segments

/-
  What a pass leaves of segments that fit: the segments that
  its form does not take, which fit again. The passes of the
  standard rules leave the segments without a directive
  comment.

  Main declarations:
    * `keep_flatMap_marks`
    * `Fits.filter`
    * `strip_render`
-/

------------------------------------------------------------
-- What a Pass Leaves
------------------------------------------------------------

namespace BiomeMigration

namespace Directive

/- A taken segment has characters. -/
theorem Segment.text_ne_nil
    (s : Segment) :
    s.text ≠ [] := by
  cases s with
  | code c => simp [Segment.text]
  | inline c =>
      rcases c.exists_text_eq with ⟨d, tail, hText, _⟩
      simp [Segment.text, hText]
  | standalone indent c blanks ending =>
      rcases c.exists_text_eq with ⟨d, tail, hText, _⟩
      simp [Segment.text, hText]

/- The marks of the segments take whole segments. -/
theorem keep_flatMap_marks
    (form : Form)
    (ts : List Segment) :
    keep (ts.flatMap (Segment.marks form)) (render ts) =
      render (ts.filter fun s => !s.takenBy form) := by
  induction ts with
  | nil => rfl
  | cons s ts ih =>
      rw [List.flatMap_cons, render_cons]
      cases hTaken : s.takenBy form with
      | false =>
          rw [Segment.marks_of_not_takenBy hTaken,
            keep_replicate_stays, ih,
            List.filter_cons_of_pos (by simp [hTaken]),
            render_cons]
      | true =>
          rw [Segment.marks_of_takenBy hTaken,
            keep_piece s.text_ne_nil, ih,
            List.filter_cons_of_neg (by simp [hTaken])]

theorem pieces_flatMap_marks
    (form : Form)
    (ts : List Segment) :
    pieces (ts.flatMap (Segment.marks form)) =
      ts.countP (·.takenBy form) := by
  induction ts with
  | nil => rfl
  | cons s ts ih =>
      rw [List.flatMap_cons]
      cases hTaken : s.takenBy form with
      | false =>
          rw [Segment.marks_of_not_takenBy hTaken,
            pieces_replicate_stays, ih,
            List.countP_cons_of_neg (by simp [hTaken])]
      | true =>
          rw [Segment.marks_of_takenBy hTaken, pieces_piece,
            ih, List.countP_cons_of_pos hTaken]

/- No star follows a comment. -/
theorem EndsLine.head?_ne
    {cs : List Char}
    (hEnds : EndsLine cs) :
    cs.head? ≠ some '*' := by
  cases cs with
  | nil => simp
  | cons c cs =>
      intro hHead
      have hStar : c = '*' := by simpa using hHead
      subst hStar
      exact hEnds

theorem Comment.Delimits.head?_ne
    {c : Comment}
    {after : List Char}
    (hDelimits : c.Delimits after) :
    after.head? ≠ some '*' := by
  cases c with
  | line body =>
      rcases hDelimits with ⟨_, _, _, _, _, hEnds⟩
      exact hEnds.head?_ne
  | block body => exact hDelimits.2

theorem endsLine_iff
    {cs : List Char} :
    EndsLine cs ↔
      cs = [] ∨ cs.head? = some '\n' ∨
        ∃ tail, cs = '\r' :: tail ∧ tail.head? = some '\n' := by
  constructor
  · intro hEnds
    unfold EndsLine at hEnds
    split at hEnds
    · exact Or.inl rfl
    · exact Or.inr (Or.inl rfl)
    · exact Or.inr (Or.inr ⟨_, rfl, rfl⟩)
    · exact hEnds.elim
  · rintro (rfl | hFeed | ⟨tail, rfl, hFeed⟩)
    · exact True.intro
    · rcases List.head?_eq_some_iff.mp hFeed with ⟨rest, rfl⟩
      exact True.intro
    · rcases List.head?_eq_some_iff.mp hFeed with ⟨rest, rfl⟩
      exact True.intro

/- A line break is told by its first character. -/
theorem lineBreak?_cons_eq_none
    {c : Char}
    {cs ds : List Char}
    (hNone : lineBreak? (c :: cs) = none) :
    lineBreak? (c :: ds) = none := by
  have hFeed : c ≠ '\n' := by
    rintro rfl
    simp [lineBreak?] at hNone
  have hReturn : c ≠ '\r' := by
    rintro rfl
    unfold lineBreak? at hNone
    split at hNone <;> simp_all
  simp [lineBreak?, hFeed, hReturn]

/-
  A comment stays delimited if the end of its line stays and
  no star comes up to it.
-/
theorem Comment.Delimits.mono
    {c : Comment}
    {after after' : List Char}
    (hDelimits : c.Delimits after)
    (hEnds : EndsLine after → EndsLine after')
    (hStar :
      after.head? ≠ some '*' → after'.head? ≠ some '*') :
    c.Delimits after' := by
  cases c with
  | line body =>
      rcases hDelimits with ⟨h₁, h₂, h₃, h₄, h₅, h₆⟩
      exact ⟨h₁, h₂, h₃, h₄, h₅, hEnds h₆⟩
  | block body => exact ⟨hDelimits.1, hStar hDelimits.2⟩

/- What is behind the end of a line is of no matter. -/
theorem LineEnd.mono
    {ending : List Char}
    {ts us : List Segment}
    (hEnding : LineEnd ending ts)
    (hNil : ts = [] → us = []) :
    LineEnd ending us := by
  rcases hEnding with hFeed | hReturn | ⟨hNone, hEmpty⟩
  · exact Or.inl hFeed
  · exact Or.inr (Or.inl hReturn)
  · exact Or.inr (Or.inr ⟨hNone, hNil hEmpty⟩)

/- A text that is indented does not end its line. -/
theorem not_endsLine_of_isIndent
    {d : Char}
    (hIndent : isIndent d = true)
    (cs : List Char) :
    ¬ EndsLine (d :: cs) := by
  intro hEnds
  rcases endsLine_iff.mp hEnds with
    hNil | hFeed | ⟨tail, hReturn, _⟩
  · simp at hNil
  · rw [Option.some.inj hFeed] at hIndent
    simp [isIndent] at hIndent
  · rw [(List.cons.inj hReturn).1] at hIndent
    simp [isIndent] at hIndent

theorem Comment.not_endsLine_text
    (c : Comment)
    (after : List Char) :
    ¬ EndsLine (c.text ++ after) := by
  rcases c.exists_text_eq with ⟨d, tail, hText, _⟩
  rw [hText]
  exact id

theorem LineEnd.delimits
    {c : Comment}
    {blanks ending : List Char}
    {ts us : List Segment}
    (hEnding : LineEnd ending ts)
    (hDelimits : c.Delimits (blanks ++ ending ++ render ts))
    (hBlanks : ∀ d ∈ blanks, isIndent d = true)
    (hNil : ts = [] → us = []) :
    c.Delimits (blanks ++ ending ++ render us) := by
  cases blanks with
  | nil =>
      rcases hEnding with rfl | rfl | ⟨rfl, hEmpty⟩
      · exact hDelimits.mono id id
      · exact hDelimits.mono id id
      · rw [hNil hEmpty]
        rw [hEmpty] at hDelimits
        exact hDelimits
  | cons d blanks =>
      apply hDelimits.mono
      · intro hEnds
        exact (not_endsLine_of_isIndent
          (hBlanks d (by simp)) _ hEnds).elim
      · exact id

namespace Fits

variable {kept : Segment → Bool}
variable {st : LineState} {ts : List Segment}

/-
  Behind a directive comment the line has no other one, so
  that the comment does not matter to what follows.
-/
theorem of_taken
    (hFits : Fits .taken ts)
    (st : LineState) :
    Fits st ts := by
  generalize hState : LineState.taken = behind at hFits
  induction hFits generalizing st with
  | nil behind => exact .nil st
  | @code behind c ts hCode hRest ih =>
      subst hState
      apply Fits.code hCode
      by_cases hFeed : c = '\n'
      · have hNext : st.next c = LineState.taken.next c := by
          simp [LineState.next, hFeed]
        rw [hNext]
        exact hRest
      · apply ih
        simp [LineState.next, hFeed]
  | @plain behind c ts hDirective hDelimits hRest ih =>
      subst hState
      apply Fits.plain hDirective hDelimits
      by_cases hFeed : '\n' ∈ c.text
      · have hBehind :
            st.behind c = LineState.taken.behind c := by
          simp [LineState.behind, hFeed]
        rw [hBehind]
        exact hRest
      · apply ih
        simp [LineState.behind, hFeed]
  | shared hDirective hDelimits hFresh hShared hRest ih =>
      exact (hFresh hState.symm).elim
  | alone hDirective hIndent hDelimits hBlanks hEnding hRest
      ih =>
      simp at hState

/- What is no directive comment is kept. -/
theorem kept_of_not_isDirective
    (hKept : ∀ s, kept s = false → s.isDirective = true)
    {s : Segment}
    (hDirective : s.isDirective = false) :
    kept s = true := by
  cases hStays : kept s with
  | true => rfl
  | false =>
      rw [hKept s hStays] at hDirective
      simp at hDirective

/- No star comes up when segments go. -/
theorem head?_filter_ne
    (hKept : ∀ s, kept s = false → s.isDirective = true)
    (hFits : Fits st ts)
    (hState : st ≠ .start)
    (hStar : (render ts).head? ≠ some '*') :
    (render (ts.filter kept)).head? ≠ some '*' := by
  induction hFits with
  | nil st => exact hStar
  | @code st c ts hCode hRest ih =>
      have hStays := kept_of_not_isDirective hKept
        (show (Segment.code c).isDirective = false from rfl)
      rw [List.filter_cons_of_pos hStays]
      exact hStar
  | @plain st c ts hDirective hDelimits hRest ih =>
      have hStays := kept_of_not_isDirective hKept
        (show (Segment.inline c).isDirective = false from
          hDirective)
      rw [List.filter_cons_of_pos hStays]
      rcases c.exists_text_eq with ⟨d, tail, hText, _⟩
      simp [Segment.text, hText]
  | @shared st c ts hDirective hDelimits hFresh hShared
      hRest ih =>
      cases hStays : kept (.inline c) with
      | true =>
          rw [List.filter_cons_of_pos hStays]
          rcases c.exists_text_eq with ⟨d, tail, hText, _⟩
          simp [Segment.text, hText]
      | false =>
          rw [List.filter_cons_of_neg (by simp [hStays])]
          exact ih (by simp) hDelimits.head?_ne
  | alone hDirective hIndent hDelimits hBlanks hEnding hRest
      ih =>
      exact (hState rfl).elim

/- What does not start with a slash starts with code. -/
theorem exists_code_of_head
    (hFits : Fits st ts)
    (hState : st ≠ .start)
    {c : Char}
    (hHead : (render ts).head? = some c)
    (hCode : c ≠ '/') :
    ∃ rest, ts = .code c :: rest ∧ Fits (st.next c) rest := by
  have hNoComment :
      ∀ (d : Comment) (after : List Char),
        (d.text ++ after).head? ≠ some c := by
    intro d after hFalse
    rcases d.exists_text_eq with ⟨e, tail, hText, _⟩
    rw [hText] at hFalse
    exact hCode (Option.some.inj hFalse).symm
  cases hFits with
  | nil => simp at hHead
  | plain hDirective hDelimits hRest =>
      exact (hNoComment _ _ hHead).elim
  | shared hDirective hDelimits hFresh hShared hRest =>
      exact (hNoComment _ _ hHead).elim
  | alone hDirective hIndent hDelimits hBlanks hEnding hRest =>
      exact (hState rfl).elim
  | @code _ d rest hOther hRest =>
      have hEq : d = c := Option.some.inj hHead
      rw [hEq] at hRest ⊢
      exact ⟨rest, rfl, hRest⟩

/- The end of a line stays when segments go. -/
theorem endsLine_filter
    (hKept : ∀ s, kept s = false → s.isDirective = true)
    (hFits : Fits st ts)
    (hState : st ≠ .start)
    (hEnds : EndsLine (render ts)) :
    EndsLine (render (ts.filter kept)) := by
  have hStays : ∀ c, kept (.code c) = true :=
    fun c => kept_of_not_isDirective hKept
      (show (Segment.code c).isDirective = false from rfl)
  rcases endsLine_iff.mp hEnds with
    hNil | hFeed | ⟨tail, hReturn, hFeed⟩
  · cases ts with
    | nil => exact hEnds
    | cons s ts =>
        rw [render_cons] at hNil
        have hText := (List.append_eq_nil_iff.mp hNil).1
        exact (s.text_ne_nil hText).elim
  · rcases hFits.exists_code_of_head hState hFeed
        (by decide) with
      ⟨rest, rfl, _⟩
    rw [List.filter_cons_of_pos (hStays _)]
    exact endsLine_iff.mpr (Or.inr (Or.inl rfl))
  · rcases hFits.exists_code_of_head hState
        (by rw [hReturn]; rfl) (by decide) with
      ⟨rest, rfl, hRest⟩
    have hNext : st.next '\r' ≠ .start := by
      intro hStart
      have hFalse :=
        (LineState.next_eq_start_iff st '\r').mp hStart
      simp at hFalse
    have hTail : render rest = tail :=
      (List.cons.inj hReturn).2
    rcases hRest.exists_code_of_head hNext
        (by rw [hTail, hFeed]) (by decide) with
      ⟨rest', rfl, _⟩
    rw [List.filter_cons_of_pos (hStays _),
      List.filter_cons_of_pos (hStays _)]
    exact endsLine_iff.mpr
      (Or.inr (Or.inr ⟨_, rfl, rfl⟩))

/-
  Behind a directive comment that shares its line, the rest
  of the line stays as blank as it is.
-/
theorem blankRest?_filter_eq_none
    (hKept : ∀ s, kept s = false → s.isDirective = true)
    (hFits : Fits .taken ts)
    (hShared : Place.blankRest? (render ts) = none) :
    Place.blankRest? (render (ts.filter kept)) = none := by
  generalize hState : LineState.taken = behind at hFits
  induction hFits with
  | nil behind => exact hShared
  | @code behind c ts hCode hRest ih =>
      have hStays := kept_of_not_isDirective hKept
        (show (Segment.code c).isDirective = false from rfl)
      rw [List.filter_cons_of_pos hStays]
      rw [render_cons, Segment.text, List.singleton_append]
        at hShared ⊢
      cases hIndent : isIndent c with
      | true =>
          rw [Place.blankRest?_cons_of_isIndent hIndent,
            Option.map_eq_none_iff] at hShared ⊢
          apply ih hShared
          subst hState
          have hFeed : c ≠ '\n' := by
            rintro rfl
            simp [isIndent] at hIndent
          simp [LineState.next, hFeed]
      | false =>
          rw [Place.blankRest?_of_head (by simpa using hIndent),
            Option.map_eq_none_iff] at hShared ⊢
          exact lineBreak?_cons_eq_none hShared
  | @plain behind c ts hDirective hDelimits hRest ih =>
      have hStays := kept_of_not_isDirective hKept
        (show (Segment.inline c).isDirective = false from
          hDirective)
      rw [List.filter_cons_of_pos hStays]
      exact c.blankRest?_text _
  | shared hDirective hDelimits hFresh hShared' hRest ih =>
      exact (hFresh hState.symm).elim
  | alone hDirective hIndent hDelimits hBlanks hEnding hRest
      ih =>
      simp at hState

/-
  Segments without some of their directive comments fit as
  they did.
-/
theorem filter
    (hKept : ∀ s, kept s = false → s.isDirective = true)
    (hFits : Fits st ts) :
    Fits st (ts.filter kept) := by
  induction hFits with
  | nil st => exact .nil st
  | @code st c ts hCode hRest ih =>
      have hStays := kept_of_not_isDirective hKept
        (show (Segment.code c).isDirective = false from rfl)
      rw [List.filter_cons_of_pos hStays]
      exact .code hCode ih
  | @plain st c ts hDirective hDelimits hRest ih =>
      have hStays := kept_of_not_isDirective hKept
        (show (Segment.inline c).isDirective = false from
          hDirective)
      have hState := st.behind_ne_start c
      rw [List.filter_cons_of_pos hStays]
      refine .plain hDirective ?_ ih
      exact hDelimits.mono
        (hRest.endsLine_filter hKept hState)
        (hRest.head?_filter_ne hKept hState)
  | @shared st c ts hDirective hDelimits hFresh hShared
      hRest ih =>
      have hState : LineState.taken ≠ .start := by simp
      cases hStays : kept (.inline c) with
      | false =>
          rw [List.filter_cons_of_neg (by simp [hStays])]
          exact ih.of_taken st
      | true =>
          rw [List.filter_cons_of_pos hStays]
          refine .shared hDirective ?_ hFresh ?_ ih
          · exact hDelimits.mono
              (hRest.endsLine_filter hKept hState)
              (hRest.head?_filter_ne hKept hState)
          · rcases hShared with hBusy | hNone
            · exact Or.inl hBusy
            · exact Or.inr
                (hRest.blankRest?_filter_eq_none hKept hNone)
  | @alone indent c blanks ending ts hDirective hIndent
      hDelimits hBlanks hEnding hRest ih =>
      cases hStays : kept (.standalone indent c blanks ending)
        with
      | false =>
          rw [List.filter_cons_of_neg (by simp [hStays])]
          exact ih
      | true =>
          rw [List.filter_cons_of_pos hStays]
          refine .alone hDirective hIndent ?_ hBlanks ?_ ih
          · exact hEnding.delimits hDelimits hBlanks
              (by rintro rfl; rfl)
          · exact hEnding.mono (by rintro rfl; rfl)

end Fits

------------------------------------------------------------
-- All Passes
------------------------------------------------------------

/- The segment is taken in the pass of one of the rules. -/
def Segment.takenByOne
    (rules : List Rule)
    (s : Segment) : Bool :=
  rules.any fun rule => s.takenBy rule.form

theorem Segment.takenByOne_standard (s : Segment) :
    s.takenByOne Rule.standard = s.isDirective := by
  cases s with
  | code c => rfl
  | inline c => rfl
  | standalone indent c blanks ending => rfl

/-
  The passes of some rules take the segments that one of
  them matches, and count each of them once.
-/
theorem strip_render
    {rules : List Rule}
    (hRules : rules ⊆ Rule.standard)
    {ts : List Segment}
    (hFits : Fits .start ts) :
    (strip rules (render ts)).text =
        render (ts.filter fun s => !s.takenByOne rules) ∧
      (strip rules (render ts)).removed =
        ts.countP (·.takenByOne rules) := by
  induction rules generalizing ts with
  | nil =>
      constructor
      · simp [strip, Segment.takenByOne]
      · simp [strip, Stripped.removed, Segment.takenByOne]
  | cons rule rules ih =>
      have hRule : rule ∈ Rule.standard := hRules (by simp)
      have hMarks :
          rule.form.marks (render ts) =
            ts.flatMap (Segment.marks rule.form) :=
        marksFrom_render hRule hFits
      have hKept :
          ∀ s : Segment,
            (!s.takenBy rule.form) = false →
              s.isDirective = true := by
        intro s hGone
        rw [← s.takenByOne_standard]
        exact List.any_eq_true.mpr
          ⟨rule, hRule, by simpa using hGone⟩
      rcases ih (fun r hr => hRules (by simp [hr]))
          (hFits.filter hKept) with
        ⟨hText, hCount⟩
      have hStrip :
          strip (rule :: rules) (render ts) =
            ⟨(strip rules
                (render
                  (ts.filter fun s =>
                    !s.takenBy rule.form))).text,
              ts.countP (·.takenBy rule.form) ::
                (strip rules
                  (render
                    (ts.filter fun s =>
                      !s.takenBy rule.form))).counts⟩ := by
        simp only [strip, hMarks, keep_flatMap_marks,
          pieces_flatMap_marks]
      constructor
      · rw [hStrip, hText, List.filter_filter]
        congr 2
        funext s
        simp [Segment.takenByOne, Bool.and_comm]
      · have hSplit :=
          List.countP_eq_countP_filter_add ts
            (·.takenByOne (rule :: rules))
            (·.takenBy rule.form)
        rw [hSplit, hStrip]
        unfold Stripped.removed at hCount ⊢
        rw [List.foldr_cons, hCount, List.countP_filter,
          List.countP_filter, List.countP_filter]
        congr 1
        · apply List.countP_congr
          intro s _
          simp only [Segment.takenByOne, List.any_cons]
          cases s.takenBy rule.form <;> simp
        · apply List.countP_congr
          intro s _
          simp only [Segment.takenByOne, List.any_cons]
          cases s.takenBy rule.form <;> simp

end Directive

end BiomeMigration
