import BiomeMigration.Proofs.Directive.Deletion
import BiomeMigration.Proofs.Directive.Lines
import BiomeMigration.Proofs.Directive.Segmentation
import Mathlib.Data.List.Induction

/-
  What a comment takes along of the lines that it stands on:
  its indentation, the blanks behind it and one line break,
  if nothing else shares its lines, and else nothing. For
  the scan a line starts behind a line feed, but not behind
  a return alone.

  Main declarations:
    * `Form.Visits`
    * `Form.Matches`
    * `marginsAt`
    * `Form.Matches.margins_eq`
    * `margins_of_matches`
-/

------------------------------------------------------------
-- The Places That a Scan Comes To
------------------------------------------------------------

namespace BiomeMigration

namespace Directive

/-
  The places of a text that the scan of a form comes to, as
  the text before a place and the text behind it: the start,
  the place behind a character that starts no piece, and the
  place behind a piece.
-/
inductive Form.Visits
    (form : Form)
    (cs : List Char) :
    List Char → List Char → Prop where
  | start : form.Visits cs [] cs
  | stays
      {before rest : List Char}
      {c : Char}
      (hVisits : form.Visits cs before (c :: rest))
      (hPiece :
        form.piece? (startsLine true before) (c :: rest) =
          none) :
      form.Visits cs (before ++ [c]) rest
  | cuts
      {before piece rest : List Char}
      (hVisits : form.Visits cs before (piece ++ rest))
      (hPiece :
        form.piece? (startsLine true before) (piece ++ rest) =
          some (piece, rest)) :
      form.Visits cs (before ++ piece) rest

/- Marks of two parts act on each part. -/
theorem keep_append
    {α : Type}
    {ms : List Mark}
    {xs : List α}
    (hLength : ms.length = xs.length)
    (ns : List Mark)
    (ys : List α) :
    keep (ms ++ ns) (xs ++ ys) = keep ms xs ++ keep ns ys := by
  induction ms generalizing xs with
  | nil =>
      have hNil : xs = [] := by
        simpa using hLength.symm
      rw [hNil]
      rfl
  | cons m ms ih =>
      cases xs with
      | nil => simp at hLength
      | cons x xs =>
          have hTail : ms.length = xs.length := by
            simpa using hLength
          cases m with
          | stays =>
              simp only [List.cons_append, keep, ih hTail]
          | cut first =>
              simp only [List.cons_append, keep, ih hTail]

namespace Form

variable {form : Form} {cs before rest : List Char}

/- Behind a place that is come to, the scan goes on afresh. -/
theorem Visits.exists_marks
    (hVisits : form.Visits cs before rest) :
    ∃ front,
      front.length = before.length ∧
        form.marks cs =
          front ++
            form.marksFrom (startsLine true before) 0 rest := by
  induction hVisits with
  | start => exact ⟨[], by simp, rfl⟩
  | @stays before rest c hVisits hPiece ih =>
      rcases ih with ⟨front, hLength, hMarks⟩
      refine ⟨front ++ [.stays], by simp [hLength], ?_⟩
      rw [hMarks, marksFrom_stays hPiece, startsLine_append]
      simp [startsLine]
  | @cuts before piece rest hVisits hPiece ih =>
      rcases ih with ⟨front, hLength, hMarks⟩
      have hNonempty := ne_nil_of_piece? hPiece
      have hPositive := List.length_pos_iff.mpr hNonempty
      refine
        ⟨front ++ .cut true ::
            List.replicate (piece.length - 1) (.cut false),
          ?_, ?_⟩
      · simp only [List.length_append, List.length_cons,
          List.length_replicate, hLength]
        omega
      · rw [hMarks, marksFrom_piece hPiece, startsLine_append,
          List.append_assoc]

/- The piece that a form finds where the scan comes to goes. -/
theorem Visits.not_mem_pass
    {front piece after : List Placed}
    (hNodup : (front ++ piece ++ after).Nodup)
    (hVisits :
      form.Visits (chars (front ++ piece ++ after))
        (chars front) (chars (piece ++ after)))
    (hPiece :
      form.piece? (startsLine true (chars front))
          (chars (piece ++ after)) =
        some (chars piece, chars after))
    {x : Placed}
    (hMember : x ∈ piece) :
    x ∉ form.pass (front ++ piece ++ after) := by
  rcases hVisits.exists_marks with ⟨ms, hLength, hMarks⟩
  rw [chars_append piece] at hPiece
  have hNonempty : piece ≠ [] := List.ne_nil_of_mem hMember
  rw [chars_append piece, marksFrom_piece hPiece,
    length_chars] at hMarks
  unfold pass
  rw [hMarks, List.append_assoc,
    keep_append (by rw [hLength, length_chars]),
    keep_piece hNonempty]
  intro hKept
  rcases List.nodup_append.mp hNodup with
    ⟨hBefore, _, hApart⟩
  rcases List.mem_append.mp hKept with hIn | hIn
  · exact (List.nodup_append.mp hBefore).2.2 x
      ((keep_sublist _ _).subset hIn) x hMember rfl
  · exact hApart x (List.mem_append_right _ hMember) x
      ((keep_sublist _ _).subset hIn) rfl

/-
  A character that a scan does not keep lies in a piece at a
  place that the scan comes to.
-/
theorem Scan.exists_visits_of_cut
    {α : Type}
    {xs kept : List (Char × α)}
    {cut : List (List (Char × α))}
    {lineStart : Bool}
    (hScan : form.Scan lineStart xs kept cut)
    (hStart : lineStart = startsLine true before)
    (hVisits : form.Visits cs before (chars xs))
    {x : Char × α}
    (hMember : x ∈ xs)
    (hGone : x ∉ kept) :
    ∃ front piece after,
      xs = front ++ piece ++ after ∧
        x ∈ piece ∧
        form.Visits cs (before ++ chars front)
          (chars (piece ++ after)) ∧
        form.piece? (startsLine true (before ++ chars front))
            (chars (piece ++ after)) =
          some (chars piece, chars after) := by
  induction hScan generalizing before with
  | done lineStart => cases hMember
  | @stays lineStart y ys kept cut hPiece hRest ih =>
      simp only [List.mem_cons, not_or] at hMember hGone
      rcases hMember with hHead | hTail
      · exact (hGone.1 hHead).elim
      · rw [hStart] at hPiece
        have hNext : form.Visits cs (before ++ [y.1]) (chars ys) :=
          .stays hVisits hPiece
        have hLine :
            (y.1 == '\n') = startsLine true (before ++ [y.1]) := by
          rw [startsLine_append]
          rfl
        rcases ih hLine hNext hTail hGone.2 with
          ⟨front, piece, after, rfl, hIn, hFound⟩
        refine ⟨y :: front, piece, after, rfl, hIn, ?_⟩
        simpa using hFound
  | @cuts lineStart part ys kept cut hPiece hRest ih =>
      rw [hStart] at hPiece
      rcases List.mem_append.mp hMember with hIn | hTail
      · refine ⟨[], part, ys, rfl, hIn, ?_⟩
        simpa using And.intro hVisits hPiece
      · have hNext :
            form.Visits cs (before ++ chars part) (chars ys) := by
          rw [chars_append] at hVisits hPiece
          exact .cuts hVisits hPiece
        have hLine :
            startsLine lineStart (chars part) =
              startsLine true (before ++ chars part) := by
          rw [startsLine_append, hStart]
        rcases ih hLine hNext hTail hGone with
          ⟨front, piece, after, rfl, hIn, hFound⟩
        refine ⟨part ++ front, piece, after, by simp, hIn, ?_⟩
        simpa using hFound

end Form

end Directive

end BiomeMigration

------------------------------------------------------------
-- Indentation before a Place
------------------------------------------------------------

namespace BiomeMigration

namespace Directive

/- What a piece ends with is no indentation inside a line. -/
theorem Form.isLineEnd_of_getLast?
    {form : Form}
    {lineStart : Bool}
    {piece rest : List Char}
    {d e : Char}
    (hPiece :
      form.piece? lineStart (piece ++ d :: rest) =
        some (piece, d :: rest))
    (hLast : piece.getLast? = some e)
    (hIndent : isIndent e = true) :
    isLineEnd d = true := by
  rcases piece?_eq_some hPiece with ⟨_, hWhole⟩ | hComment
  · rcases wholeLine?_eq_some_iff.mp hWhole with
      ⟨indent, comment, trail, ending, hLine, hParts, _⟩
    have hNonempty : ending ≠ [] := by
      rintro rfl
      rcases Place.lineBreak?_cases hLine.ending_found with
        h | h | ⟨h, _⟩ | ⟨_, h⟩
      all_goals simp at h
    have hEnd : e ∈ ending := by
      rw [hParts, List.getLast?_append_of_ne_nil _ hNonempty]
        at hLast
      exact List.mem_of_getLast? hLast
    have hBreak := isLineEnd_of_mem_break
      (mem_breaks_of_lineBreak? hLine.ending_found) e hEnd
    rw [isLineEnd_eq_false_of_isIndent hIndent] at hBreak
    cases hBreak
  · rcases form.opener_cases with hOpener | ⟨word, rfl⟩
    · rcases exists_close_of_comment? hOpener hComment with
        ⟨inner, rfl⟩
      have hSlash : '/' = e := by
        simpa [List.getLast?_cons] using hLast
      rw [← hSlash] at hIndent
      cases hIndent
    · rcases exists_lead_of_comment? hComment with
        ⟨lead, body, _, rfl, hBody⟩
      have hRun := run_eq_iff.mp (Option.some.inj hBody)
      simpa using hRun.2.2 d (by simp)

namespace Form.Visits

variable {form : Form} {cs before indent rest : List Char}
variable {d e : Char}

/- Indentation inside of a line is passed one by one. -/
theorem of_concat
    (hVisits : form.Visits cs (before ++ [e]) (d :: rest))
    (hIndent : isIndent e = true)
    (hInside : isLineEnd d = false) :
    form.Visits cs before (e :: d :: rest) ∧
      form.piece? (startsLine true before) (e :: d :: rest) =
        none := by
  generalize hFront : before ++ [e] = front at hVisits
  generalize hBack : d :: rest = back at hVisits
  cases hVisits with
  | start => simp at hFront
  | @stays before' _ c hVisits hPiece =>
      rcases List.append_inj' hFront rfl with ⟨rfl, hEq⟩
      have hSame : e = c := by simpa using hEq
      subst hSame
      subst hBack
      exact ⟨hVisits, hPiece⟩
  | @cuts before' piece _ hVisits hPiece =>
      subst hBack
      have hLast : piece.getLast? = some e := by
        have hEnds := congrArg List.getLast? hFront
        rw [List.getLast?_append_of_ne_nil _
          (ne_nil_of_piece? hPiece)] at hEnds
        rw [← hEnds]
        simp
      have hEnd := isLineEnd_of_getLast? hPiece hLast hIndent
      rw [hInside] at hEnd
      cases hEnd

/-
  The scan has come to the place before the indentation of a
  place inside of a line, and has found no piece there.
-/
theorem of_indent
    (hVisits : form.Visits cs (before ++ indent) (d :: rest))
    (hIndent : ∀ c ∈ indent, isIndent c = true)
    (hInside : isLineEnd d = false) :
    form.Visits cs before (indent ++ d :: rest) ∧
      (indent ≠ [] →
        form.piece? (startsLine true before)
            (indent ++ d :: rest) =
          none) := by
  induction indent using List.reverseRecOn generalizing d rest
    with
  | nil =>
      rw [List.append_nil] at hVisits
      exact ⟨hVisits, fun hNe => (hNe rfl).elim⟩
  | append_singleton indent e ih =>
      rw [← List.append_assoc] at hVisits
      have hLast : isIndent e = true := hIndent e (by simp)
      rcases hVisits.of_concat hLast hInside with
        ⟨hBefore, hNone⟩
      have hRest : ∀ c ∈ indent, isIndent c = true :=
        fun c hc => hIndent c (by simp [hc])
      rcases ih hBefore hRest
          (isLineEnd_eq_false_of_isIndent hLast) with
        ⟨hFirst, hPiece⟩
      rw [List.append_assoc, List.singleton_append]
      refine ⟨hFirst, fun _ => ?_⟩
      by_cases hNil : indent = []
      · subst hNil
        simpa using hNone
      · exact hPiece hNil

end Form.Visits

------------------------------------------------------------
-- Margins
------------------------------------------------------------

/-
  The margins that a comment takes along of the texts before
  it and behind it, given the texts that a line starts
  behind. They are empty unless nothing but spaces and tabs
  shares its lines.
-/
def marginsAt
    (starts : List Char → Bool)
    (before after : List Char) : List Char × List Char :=
  match Place.blankRest? after with
  | some trail =>
      if starts (Place.beforeIndent before) then
        (Place.indentOf before, trail)
      else ([], [])
  | none => ([], [])

/-
  A line starts behind a text that is empty or ends with a
  line break of any kind.
-/
def behindLineEnd (before : List Char) : Bool :=
  before.getLast?.all isLineEnd

/- For the scan a line starts behind a line feed only. -/
theorem startsLine_eq_all (before : List Char) :
    startsLine true before =
      before.getLast?.all (· == '\n') := by
  rcases List.eq_nil_or_concat before with
    rfl | ⟨front, c, rfl⟩
  · rfl
  · simp [startsLine]

/- The two agree but behind a return. -/
theorem startsLine_eq_behindLineEnd
    {before : List Char}
    (hReturn : before.getLast? ≠ some '\r') :
    startsLine true before = behindLineEnd before := by
  rw [startsLine_eq_all, behindLineEnd]
  cases hLast : before.getLast? with
  | none => rfl
  | some c =>
      have hNot : (c == '\r') = false := by
        rw [hLast] at hReturn
        simpa using hReturn
      simp [isLineEnd, hNot]

theorem marginsAt_congr
    {starts starts' : List Char → Bool}
    {before : List Char}
    (hStarts :
      starts (Place.beforeIndent before) =
        starts' (Place.beforeIndent before))
    (after : List Char) :
    marginsAt starts before after =
      marginsAt starts' before after := by
  unfold marginsAt
  rw [hStarts]

theorem marginsAt_of_not_starts
    {starts : List Char → Bool}
    {before : List Char}
    (hStarts : starts (Place.beforeIndent before) = false)
    (after : List Char) :
    marginsAt starts before after = ([], []) := by
  unfold marginsAt
  rw [hStarts]
  cases Place.blankRest? after with
  | none => rfl
  | some trail => rfl

namespace Place

/- The blank rest of a line, by its parts. -/
theorem blankRest?_eq_some_iff
    {after trail : List Char} :
    blankRest? after = some trail ↔
      ∃ blanks ending rest,
        after = trail ++ rest ∧
          trail = blanks ++ ending ∧
          (∀ c ∈ blanks, isIndent c = true) ∧
          lineBreak? (ending ++ rest) = some (ending, rest) := by
  constructor
  · intro hTrail
    unfold blankRest? at hTrail
    cases hRun : run isIndent after with
    | mk blanks line =>
        rw [hRun] at hTrail
        rcases Option.map_eq_some_iff.mp hTrail with
          ⟨⟨ending, rest⟩, hBreak, rfl⟩
        have hLine := append_of_lineBreak? hBreak
        rcases run_eq_iff.mp hRun with ⟨hAfter, hBlanks, _⟩
        rw [hLine] at hAfter hBreak
        exact ⟨blanks, ending, rest, by simp [hAfter], rfl,
          hBlanks, hBreak⟩
  · rintro ⟨blanks, ending, rest, rfl, rfl, hBlanks, hBreak⟩
    have hRun :
        run isIndent (blanks ++ ending ++ rest) =
          (blanks, ending ++ rest) := by
      apply run_eq_iff.mpr
      exact ⟨by simp, hBlanks,
        not_isIndent_head_of_lineBreak? hBreak⟩
    unfold blankRest?
    rw [hRun]
    simp [hBreak]

end Place

/-
  At the start of a line, a comment between indentation and
  a blank rest of the line is found with both.
-/
theorem Form.piece?_of_blankRest?
    {form : Form}
    {indent comment after trail : List Char}
    (hIndent : ∀ c ∈ indent, isIndent c = true)
    (hComment :
      form.comment? (comment ++ after) = some (comment, after))
    (hTrail : Place.blankRest? after = some trail) :
    ∃ rest,
      after = trail ++ rest ∧
        form.piece? true (indent ++ (comment ++ after)) =
          some (indent ++ comment ++ trail, rest) := by
  rcases Place.blankRest?_eq_some_iff.mp hTrail with
    ⟨blanks, ending, rest, rfl, rfl, hBlanks, hBreak⟩
  have hWhole :
      form.wholeLine?
          (indent ++
            (comment ++ (blanks ++ ending ++ rest))) =
        some (indent ++ comment ++ (blanks ++ ending), rest) :=
    wholeLine?_eq_some_iff.mpr
      ⟨indent, comment, blanks, ending,
        ⟨hIndent, hComment, hBlanks, hBreak⟩, by simp, by simp⟩
  refine ⟨rest, rfl, ?_⟩
  unfold piece?
  rw [if_pos rfl, hWhole]
  rfl

end Directive

end BiomeMigration

------------------------------------------------------------
-- Matches and Their Margins
------------------------------------------------------------

namespace BiomeMigration

namespace Directive

/- What a text ends with is split before its indentation. -/
theorem Place.indent_append
    {front indent : List Char}
    (hFront : ∀ c ∈ front.getLast?, isIndent c = false)
    (hIndent : ∀ c ∈ indent, isIndent c = true) :
    beforeIndent (front ++ indent) = front ∧
      indentOf (front ++ indent) = indent := by
  have hRun :
      run isIndent (front ++ indent).reverse =
        (indent.reverse, front.reverse) := by
    apply run_eq_iff.mpr
    refine ⟨by simp, fun c hc => ?_, fun c hc => ?_⟩
    · exact hIndent c (List.mem_reverse.mp hc)
    · rw [List.head?_reverse] at hc
      exact hFront c hc
  constructor
  · rw [beforeIndent, hRun, List.reverse_reverse]
  · rw [indentOf, hRun, List.reverse_reverse]

/- Indentation at the start of a line is all that there is. -/
theorem Place.indent_of_startsLine
    {front indent : List Char}
    (hStart : startsLine true front = true)
    (hIndent : ∀ c ∈ indent, isIndent c = true) :
    beforeIndent (front ++ indent) = front ∧
      indentOf (front ++ indent) = indent := by
  apply indent_append _ hIndent
  intro c hc
  rw [startsLine_eq_all] at hStart
  have hFeed : c = '\n' := by
    rw [hc] at hStart
    simpa using hStart
  rw [hFeed]
  rfl

namespace Form

variable {form : Form}
variable {cs before lead comment trail after : List Char}

/- Before a comment, indentation is told from it. -/
theorem run_indent_comment
    (hLead : ∀ c ∈ lead, isIndent c = true)
    (hComment : form.comment? (comment ++ after) =
      some (comment, after)) :
    run isIndent (lead ++ (comment ++ after)) =
      (lead, comment ++ after) := by
  apply run_eq_iff.mpr
  refine ⟨rfl, hLead, ?_⟩
  rw [List.head?_append, head?_of_comment? hComment]
  intro c hc
  have hSlash : '/' = c := by simpa using hc
  rw [← hSlash]
  rfl

/- Only a blank rest behind a comment makes a whole line. -/
theorem exists_blankRest?_of_wholeLine?
    {piece rest : List Char}
    (hLead : ∀ c ∈ lead, isIndent c = true)
    (hComment :
      form.comment? (comment ++ after) = some (comment, after))
    (hWhole :
      form.wholeLine? (lead ++ (comment ++ after)) =
        some (piece, rest)) :
    ∃ trail,
      Place.blankRest? after = some trail ∧
        piece = lead ++ comment ++ trail := by
  rcases wholeLine?_eq_some_iff.mp hWhole with
    ⟨indent, comment', blanks, ending, hLine, hParts, hText⟩
  have hSplit :
      (lead, comment ++ after) =
        (indent, comment' ++ (blanks ++ ending ++ rest)) := by
    rw [← run_indent_comment hLead hComment,
      ← run_indent_comment hLine.indent_blank
        hLine.comment_found, hText, hParts]
    simp
  rcases Prod.mk.inj hSplit with ⟨rfl, hRest⟩
  have hSame :
      (comment, after) =
        (comment', blanks ++ ending ++ rest) := by
    apply Option.some.inj
    rw [← hComment, ← hLine.comment_found, hRest]
  rcases Prod.mk.inj hSame with ⟨rfl, rfl⟩
  exact ⟨blanks ++ ending,
    Place.blankRest?_eq_some_iff.mpr
      ⟨blanks, ending, rest, rfl, rfl, hLine.trail_blank,
        hLine.ending_found⟩,
    by simp [hParts]⟩

/- A comment that is found with its line has the margins. -/
theorem margins_of_wholeLine?
    (hStart : startsLine true before = true)
    (hComment :
      form.comment? (comment ++ (trail ++ after)) =
        some (comment, trail ++ after))
    (hWhole :
      form.wholeLine? (lead ++ comment ++ trail ++ after) =
        some (lead ++ comment ++ trail, after))
    (hLead : ∀ c ∈ lead, isIndent c = true) :
    marginsAt (startsLine true) (before ++ lead)
        (trail ++ after) =
      (lead, trail) := by
  rw [List.append_assoc, List.append_assoc] at hWhole
  rcases exists_blankRest?_of_wholeLine? hLead hComment hWhole
    with ⟨trail', hTrail, hParts⟩
  have hSame : trail = trail' := List.append_cancel_left hParts
  rw [← hSame] at hTrail
  rcases Place.indent_of_startsLine hStart hLead with
    ⟨hBefore, hIndent⟩
  unfold marginsAt
  rw [hTrail, hBefore, hIndent, hStart]
  rfl

/-
  A comment that is found without its line shares it, for
  else the scan had found the whole line before.
-/
theorem margins_of_bare
    (hVisits : form.Visits cs before (comment ++ after))
    (hPiece :
      form.piece? (startsLine true before)
          (comment ++ after) =
        some (comment, after))
    (hComment :
      form.comment? (comment ++ after) =
        some (comment, after)) :
    marginsAt (startsLine true) before after = ([], []) := by
  cases hStart : startsLine true (Place.beforeIndent before) with
  | false => exact marginsAt_of_not_starts hStart after
  | true =>
      cases hTrail : Place.blankRest? after with
      | none =>
          unfold marginsAt
          rw [hTrail]
      | some trail =>
          have hIndent :
              ∀ c ∈ Place.indentOf before, isIndent c = true :=
            fun c hc => Place.isIndent_of_mem_indentOf hc
          have hSplit := Place.beforeIndent_append_indentOf before
          rcases piece?_of_blankRest? hIndent hComment hTrail
            with ⟨rest, hAfter, hFound⟩
          rw [← hStart] at hFound
          rcases List.head?_eq_some_iff.mp
              (head?_of_comment? hComment) with
            ⟨tail, hSlash⟩
          have hPlace :
              form.Visits cs
                (Place.beforeIndent before ++
                  Place.indentOf before)
                ('/' :: (tail ++ after)) := by
            rw [hSplit, ← List.cons_append, ← hSlash]
            exact hVisits
          have hNone := (hPlace.of_indent hIndent rfl).2
          rw [← List.cons_append, ← hSlash] at hNone
          by_cases hNil : Place.indentOf before = []
          · rw [hNil, List.append_nil] at hSplit
            rw [hNil, hSplit, List.nil_append, List.nil_append,
              hPiece] at hFound
            have hEq : comment = comment ++ trail :=
              (Prod.mk.inj (Option.some.inj hFound)).1
            have hEmpty : trail = [] := by
              simpa using hEq
            rw [hEmpty] at hTrail
            simp [marginsAt, hTrail, hNil]
          · rw [hNone hNil] at hFound
            cases hFound

/- The margins of a comment that the scan finds are its own. -/
theorem margins_eq
    (hVisits :
      form.Visits cs before (lead ++ comment ++ trail ++ after))
    (hComment :
      form.comment? (comment ++ (trail ++ after)) =
        some (comment, trail ++ after))
    (hPiece :
      form.piece? (startsLine true before)
          (lead ++ comment ++ trail ++ after) =
        some (lead ++ comment ++ trail, after))
    (hLead : ∀ c ∈ lead, isIndent c = true) :
    marginsAt (startsLine true) (before ++ lead)
        (trail ++ after) =
      (lead, trail) := by
  rcases piece?_eq_some hPiece with ⟨hStart, hWhole⟩ | hBare
  · exact margins_of_wholeLine? hStart hComment hWhole hLead
  · have hNoLead : lead = [] := by
      cases lead with
      | nil => rfl
      | cons c lead =>
          have hHead := head?_of_comment? hBare
          have hSlash : c = '/' := by simpa using hHead
          have hIndent := hLead c (by simp)
          rw [hSlash] at hIndent
          cases hIndent
    subst hNoLead
    have hNoTrail : trail = [] := by
      have hSame :
          (comment, trail ++ after) =
            (comment ++ trail, after) := by
        apply Option.some.inj
        rw [← hComment]
        simpa using hBare
      simpa using (Prod.mk.inj hSame).1
    subst hNoTrail
    simp only [List.nil_append, List.append_nil]
      at hVisits hComment hPiece ⊢
    exact margins_of_bare hVisits hPiece hComment

end Form

end Directive

end BiomeMigration

------------------------------------------------------------
-- The Law of Whole Lines
------------------------------------------------------------

namespace BiomeMigration

namespace Directive

/-
  A form matches a comment in the text of an occurrence: the
  scan comes to its piece and finds it there, with spaces
  and tabs in front of the comment.
-/
structure Form.Matches
    (form : Form)
    (o : Occurrence) : Prop where
  visited :
    form.Visits (chars o.text) (chars o.before)
      (chars (o.piece ++ o.after))
  found : o.FoundBy form
  indented : ∀ x ∈ o.lead, isIndent x.1 = true

namespace Occurrence

/- The text before a comment, without its indentation. -/
def front (o : Occurrence) : List Char :=
  Place.beforeIndent (chars (o.before ++ o.lead))

/-
  A comment takes its margins along, if lines start behind
  some texts.
-/
def Takes
    (o : Occurrence)
    (starts : List Char → Bool) : Prop :=
  (chars o.lead, chars o.trail) =
    marginsAt starts (chars (o.before ++ o.lead))
      (chars (o.trail ++ o.after))

instance
    (o : Occurrence)
    (starts : List Char → Bool) :
    Decidable (o.Takes starts) :=
  inferInstanceAs (Decidable (_ = _))

end Occurrence

variable {form : Form} {o : Occurrence}

/- What a form matches is cut. -/
theorem Form.Matches.not_mem_pass
    (hMatches : form.Matches o)
    (hNodup : o.text.Nodup)
    {x : Placed}
    (hMember : x ∈ o.piece) :
    x ∉ form.pass o.text :=
  hMatches.visited.not_mem_pass hNodup
    hMatches.found.piece_found hMember

/- A piece where the scan comes to is that of a match. -/
theorem exists_matches_of_piece?
    {before piece after : List Placed}
    (hVisits :
      form.Visits (chars (before ++ piece ++ after))
        (chars before) (chars (piece ++ after)))
    (hPiece :
      form.piece? (startsLine true (chars before))
          (chars (piece ++ after)) =
        some (chars piece, chars after)) :
    ∃ o : Occurrence,
      o.text = before ++ piece ++ after ∧
        o.piece = piece ∧
        form.Matches o := by
  rcases Form.piece?_eq_some hPiece with
    ⟨_, hWhole⟩ | hComment
  · rcases Form.wholeLine?_eq_some_iff.mp hWhole with
      ⟨indent, comment, blanks, ending, hLine, hParts, _⟩
    rw [List.append_assoc] at hParts
    rcases exists_of_chars_eq_append hParts with
      ⟨margin, trail, rfl, hMargin, hTrail⟩
    rcases exists_of_chars_eq_append hMargin with
      ⟨lead, comment', rfl, rfl, rfl⟩
    refine ⟨⟨before, lead, comment', trail, after⟩, rfl, rfl,
      hVisits, ⟨?_, hPiece⟩, ?_⟩
    · have hFound := hLine.comment_found
      rw [← hTrail] at hFound
      simpa using hFound
    · intro x hx
      exact hLine.indent_blank x.1 (List.mem_map_of_mem hx)
  · refine ⟨⟨before, [], piece, [], after⟩,
      by simp [Occurrence.text, Occurrence.piece],
      by simp [Occurrence.piece], ?_, ⟨?_, ?_⟩, by simp⟩
    · simpa [Occurrence.text, Occurrence.piece] using hVisits
    · simpa using hComment
    · simpa [Occurrence.piece] using hPiece

/- A character goes just if it lies in a match. -/
theorem not_mem_pass_iff
    (form : Form)
    {cs : List Char}
    {x : Placed}
    (hMember : x ∈ source cs) :
    x ∉ form.pass (source cs) ↔
      ∃ o : Occurrence,
        o.text = source cs ∧ form.Matches o ∧ x ∈ o.piece := by
  constructor
  · intro hGone
    rcases form.exists_scan_pass (source cs) with ⟨cut, hScan⟩
    have hStart : true = startsLine true [] := rfl
    have hVisits :
        form.Visits (chars (source cs)) [] (chars (source cs)) :=
      .start
    rcases hScan.exists_visits_of_cut hStart hVisits hMember
        hGone with
      ⟨before, piece, after, hText, hIn, hVisits, hPiece⟩
    rw [List.nil_append] at hVisits hPiece
    rw [hText] at hVisits
    rcases exists_matches_of_piece? hVisits hPiece with
      ⟨o, hSame, rfl, hMatches⟩
    exact ⟨o, hSame.trans hText.symm, hMatches, hIn⟩
  · rintro ⟨o, hText, hMatches, hIn⟩
    have hNodup := nodup_source cs
    rw [← hText] at hNodup ⊢
    exact hMatches.not_mem_pass hNodup hIn

/-
  A match takes its margins along, where a line starts
  behind a line feed only.
-/
theorem Form.Matches.takes
    (hMatches : form.Matches o) :
    o.Takes (startsLine true) := by
  have hVisits := hMatches.visited
  have hComment := hMatches.found.comment_found
  have hPiece := hMatches.found.piece_found
  simp only [Occurrence.piece, chars_append]
    at hVisits hComment hPiece
  unfold Occurrence.Takes
  rw [chars_append, chars_append,
    margins_eq hVisits hComment hPiece]
  intro c hc
  rcases List.mem_map.mp hc with ⟨x, hx, rfl⟩
  exact hMatches.indented x hx

/-
  One pass of a form. What it deletes are the comments that
  it matches with what they take along. A comment takes
  along its indentation, the blanks behind it and one line
  break, if nothing else stands between the line breaks
  around it, and else nothing. Only if its indentation
  stands behind a return alone, it goes without margins in
  any case.
-/
theorem margins_of_matches
    (form : Form)
    (cs : List Char) :
    (∀ x ∈ source cs,
        x ∉ form.pass (source cs) ↔
          ∃ o : Occurrence,
            o.text = source cs ∧ form.Matches o ∧ x ∈ o.piece) ∧
      ∀ o : Occurrence,
        o.text = source cs →
        form.Matches o →
          (o.front.getLast? ≠ some '\r' →
              o.Takes behindLineEnd) ∧
            (o.front.getLast? = some '\r' →
              o.lead = [] ∧ o.trail = []) := by
  refine ⟨fun x hx => not_mem_pass_iff form hx, ?_⟩
  intro o _ hMatches
  have hTakes := hMatches.takes
  unfold Occurrence.Takes at hTakes ⊢
  constructor
  · intro hOther
    rw [hTakes]
    exact marginsAt_congr (startsLine_eq_behindLineEnd hOther) _
  · intro hReturn
    have hNoLine :
        startsLine true
            (Place.beforeIndent (chars (o.before ++ o.lead))) =
          false := by
      rw [startsLine_eq_all]
      change o.front.getLast?.all (· == '\n') = false
      rw [hReturn]
      rfl
    rw [marginsAt_of_not_starts hNoLine] at hTakes
    rcases Prod.mk.inj hTakes with ⟨hLead, hTrail⟩
    exact ⟨List.map_eq_nil_iff.mp hLead,
      List.map_eq_nil_iff.mp hTrail⟩

/- The occurrence whose parts end at given places of a text. -/
def occurrenceAt
    (cs : List Char)
    (before lead comment trail : Nat) : Occurrence where
  before := (source cs).take before
  lead := ((source cs).take lead).drop before
  comment := ((source cs).take comment).drop lead
  trail := ((source cs).take trail).drop comment
  after := (source cs).drop trail

/- A text with an indented comment that holds a return. -/
def indentedText : List Char :=
  "a\n\t/* eslint-disable\r*/ \r\nc".toList

/- The comment, with the blanks and the break behind it. -/
def indentedComment : Occurrence :=
  occurrenceAt indentedText 2 3 23 26

/- The comment goes with all that shares its lines. -/
theorem takes_indentedComment :
    indentedComment.text = source indentedText ∧
      (Form.block "eslint-disable".toList).Matches
        indentedComment ∧
      indentedComment.front.getLast? ≠ some '\r' ∧
      indentedComment.Takes behindLineEnd := by
  have hText :
      indentedComment.text = source indentedText := by
    decide +kernel
  have hMatches :
      (Form.block "eslint-disable".toList).Matches
        indentedComment := by
    have hPlace :
        (Form.block "eslint-disable".toList).Visits
          (chars indentedComment.text) ([] ++ ['a'] ++ ['\n'])
          (chars (indentedComment.piece ++
            indentedComment.after)) :=
      .stays (.stays .start (by decide +kernel))
        (by decide +kernel)
    exact ⟨hPlace, ⟨by decide +kernel, by decide +kernel⟩,
      by decide +kernel⟩
  have hFront : indentedComment.front.getLast? ≠ some '\r' := by
    decide +kernel
  exact ⟨hText, hMatches, hFront,
    ((margins_of_matches _ _).2 indentedComment hText
      hMatches).1 hFront⟩

/- A text whose lines end with returns. -/
def returnsText : List Char :=
  "a\r// eslint-disable\rb".toList

/- The comment on its second line. -/
def betweenReturns : Occurrence :=
  occurrenceAt returnsText 2 2 19 19

/- The comment leaves the line that it was alone on. -/
theorem not_takes_betweenReturns :
    ¬ ∀ rule ∈ Rule.standard, ∀ cs, ∀ o : Occurrence,
        o.text = source cs →
        rule.form.Matches o →
          o.Takes behindLineEnd := by
  intro hAll
  have hMatches :
      (Form.line "eslint-disable".toList).Matches
        betweenReturns := by
    have hPlace :
        (Form.line "eslint-disable".toList).Visits
          (chars betweenReturns.text) ([] ++ ['a'] ++ ['\r'])
          (chars (betweenReturns.piece ++
            betweenReturns.after)) :=
      .stays (.stays .start (by decide +kernel))
        (by decide +kernel)
    exact ⟨hPlace, ⟨by decide +kernel, by decide +kernel⟩,
      by decide +kernel⟩
  have hTakes :=
    hAll (Rule.line "line-disable" "eslint-disable") (by decide)
      returnsText betweenReturns (by decide +kernel) hMatches
  have hNot : ¬ betweenReturns.Takes behindLineEnd := by
    decide +kernel
  exact hNot hTakes

end Directive

end BiomeMigration
