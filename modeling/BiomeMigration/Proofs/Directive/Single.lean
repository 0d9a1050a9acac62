import BiomeMigration.Proofs.Directive.Margins
import BiomeMigration.Proofs.Directive.Recognition
import BiomeMigration.Proofs.Directive.Removal
import Mathlib.Data.List.TakeWhile

/-
  A text whose slashes all lie in one comment. The text
  without slashes stays, and a form that finds the comment
  takes it away with its margins, in one piece.

  Main declarations:
    * `Form.marksFrom_before`
    * `strip_of_not_mem`
    * `withoutMargins`
    * `Form.marks_single`
-/

------------------------------------------------------------
-- Text without Slashes
------------------------------------------------------------

namespace BiomeMigration

namespace Directive

/- A run of indentation ends inside a text with others. -/
theorem exists_of_not_indent
    {part : List Char}
    (hOther : ¬ ∀ c ∈ part, isIndent c = true)
    (after : List Char) :
    ∃ front back,
      part = front ++ back ∧
        back ≠ [] ∧
        (run isIndent (part ++ after)).2 = back ++ after := by
  have hStop : part.dropWhile isIndent ≠ [] := by
    intro hNil
    exact hOther (List.dropWhile_eq_nil_iff.mp hNil)
  refine ⟨part.takeWhile isIndent, part.dropWhile isIndent,
    List.takeWhile_append_dropWhile.symm, hStop, ?_⟩
  unfold run
  rw [List.dropWhile_append]
  simp [hStop]

namespace Form

variable {form : Form} {part after : List Char}

/-
  No piece starts in text without a slash, but for a whole
  line that starts with its indentation.
-/
theorem piece?_before
    {lineStart : Bool}
    (hSlash : '/' ∉ part)
    (hNonempty : part ≠ [])
    (hLine :
      lineStart = true →
        (∀ c ∈ part, isIndent c = true) →
          form.wholeLine? (part ++ after) = none) :
    form.piece? lineStart (part ++ after) = none := by
  have hHead :
      ∀ {cs : List Char}, cs ≠ [] → cs ⊆ part →
        (cs ++ after).head? ≠ some '/' := by
    intro cs hCons hSubset hEq
    cases cs with
    | nil => exact hCons rfl
    | cons c cs =>
        have hc : c = '/' := by simpa using hEq
        exact hSlash (hc ▸ hSubset (by simp))
  apply piece?_eq_none
  · exact comment?_eq_none_of_head
      (hHead hNonempty (List.Subset.refl _))
  · intro hStart
    by_cases hAll : ∀ c ∈ part, isIndent c = true
    · exact hLine hStart hAll
    · rcases exists_of_not_indent hAll after with
        ⟨front, back, hPart, hBack, hRest⟩
      apply wholeLine?_eq_none
      rw [hRest]
      apply comment?_eq_none_of_head (hHead hBack _)
      rw [hPart]
      exact List.subset_append_right front back

/- Text without a slash stays, with the same exception. -/
theorem marksFrom_before
    {lineStart : Bool}
    (hSlash : '/' ∉ part)
    (hLine :
      ∀ front indent,
        part = front ++ indent →
        indent ≠ [] →
        startsLine lineStart front = true →
        (∀ c ∈ indent, isIndent c = true) →
          form.wholeLine? (indent ++ after) = none) :
    form.marksFrom lineStart 0 (part ++ after) =
      List.replicate part.length .stays ++
        form.marksFrom (startsLine lineStart part) 0
          after := by
  apply marksFrom_run
  intro front c back hPart
  have hBack : '/' ∉ c :: back := by
    intro hIn
    apply hSlash
    rw [hPart]
    exact List.mem_append_right front hIn
  rw [← List.cons_append]
  apply piece?_before hBack (List.cons_ne_nil c back)
  intro hStart hIndent
  exact hLine front (c :: back) hPart
    (List.cons_ne_nil c back) hStart hIndent

/- No whole line starts with indentation before other text. -/
theorem wholeLine?_indent_eq_none
    {indent : List Char}
    (hIndent : ∀ c ∈ indent, isIndent c = true)
    (hHead : ∀ c ∈ after.head?, isIndent c = false)
    (hComment : form.comment? after = none) :
    form.wholeLine? (indent ++ after) = none := by
  apply wholeLine?_eq_none
  rw [run_eq_iff.mpr ⟨rfl, hIndent, hHead⟩]
  exact hComment

theorem wholeLine?_eq_none_of_head
    (hHead : ∀ c ∈ after.head?, isIndent c = false)
    (hComment : form.comment? after = none) :
    form.wholeLine? after = none := by
  apply wholeLine?_eq_none
  rw [run_eq_of_head hHead]
  exact hComment

/- Text without a slash stays before a place without comment. -/
theorem marksFrom_before_of_none
    {lineStart : Bool}
    (hSlash : '/' ∉ part)
    (hHead : ∀ c ∈ after.head?, isIndent c = false)
    (hComment : form.comment? after = none) :
    form.marksFrom lineStart 0 (part ++ after) =
      List.replicate part.length .stays ++
        form.marksFrom (startsLine lineStart part) 0
          after :=
  marksFrom_before hSlash fun _ _ _ _ _ hIndent =>
    wholeLine?_indent_eq_none hIndent hHead hComment

/- All of a text without a slash stays. -/
theorem marksFrom_of_not_mem
    (form : Form)
    {lineStart : Bool}
    (hSlash : '/' ∉ part) :
    form.marksFrom lineStart 0 part =
      List.replicate part.length .stays := by
  have hMarks :
      form.marksFrom lineStart 0 (part ++ []) =
        List.replicate part.length .stays ++
          form.marksFrom (startsLine lineStart part) 0 [] :=
    marksFrom_before_of_none hSlash (by simp)
      (comment?_eq_none_of_head (by simp))
  simpa [marksFrom] using hMarks

end Form

/- Rules under whose marks all stays find nothing. -/
theorem strip_of_stays
    {rules : List Rule}
    {cs : List Char}
    (hStays :
      ∀ rule ∈ rules,
        rule.form.marks cs =
          List.replicate cs.length .stays) :
    strip rules cs = ⟨cs, rules.map fun _ => 0⟩ := by
  induction rules with
  | nil => rfl
  | cons rule rules ih =>
      have hMarks := hStays rule List.mem_cons_self
      have hRest := ih fun other hOther =>
        hStays other (List.mem_cons_of_mem rule hOther)
      have hKept :
          keep (List.replicate cs.length .stays) cs = cs := by
        simpa [keep] using keep_replicate_stays cs [] []
      have hCount :
          pieces (List.replicate cs.length .stays) = 0 := by
        simpa [pieces] using pieces_replicate_stays cs.length []
      simp only [strip, hMarks, hKept, hCount, hRest,
        List.map_cons]

/- No rule finds anything in a text without a slash. -/
theorem strip_of_not_mem
    {cs : List Char}
    (hSlash : '/' ∉ cs)
    (rules : List Rule) :
    strip rules cs = ⟨cs, rules.map fun _ => 0⟩ :=
  strip_of_stays fun rule _ =>
    rule.form.marksFrom_of_not_mem hSlash

end Directive

end BiomeMigration

------------------------------------------------------------
-- A Text with One Comment
------------------------------------------------------------

namespace BiomeMigration

namespace Directive

/-
  The texts before and behind a comment, without what the
  comment takes along of them.
-/
def withoutMargins (front back : List Char) : List Char :=
  let margins := marginsAt (startsLine true) front back
  front.take (front.length - margins.1.length) ++
    back.drop margins.2.length

theorem withoutMargins_eq
    {front lead trail back : List Char}
    (hMargins :
      marginsAt (startsLine true) (front ++ lead)
          (trail ++ back) =
        (lead, trail)) :
    withoutMargins (front ++ lead) (trail ++ back) =
      front ++ back := by
  unfold withoutMargins
  rw [hMargins]
  simp

/- What is left holds nothing that was in neither text. -/
theorem not_mem_withoutMargins
    {front back : List Char}
    {c : Char}
    (hFront : c ∉ front)
    (hBack : c ∉ back) :
    c ∉ withoutMargins front back := by
  intro hIn
  rcases List.mem_append.mp hIn with hIn | hIn
  · exact hFront (List.mem_of_mem_take hIn)
  · exact hBack (List.mem_of_mem_drop hIn)

namespace Form

variable {form : Form} {front comment back : List Char}

/- A piece goes, and text without slashes around it stays. -/
theorem marks_piece
    {piece : List Char}
    (hFront :
      form.marksFrom true 0 (front ++ (piece ++ back)) =
        List.replicate front.length .stays ++
          form.marksFrom (startsLine true front) 0
            (piece ++ back))
    (hPiece :
      form.piece? (startsLine true front) (piece ++ back) =
        some (piece, back))
    (hBack : '/' ∉ back) :
    keep (form.marks (front ++ (piece ++ back)))
          (front ++ (piece ++ back)) =
        front ++ back ∧
      pieces (form.marks (front ++ (piece ++ back))) = 1 := by
  have hMarks :
      form.marks (front ++ (piece ++ back)) =
        List.replicate front.length .stays ++
          (.cut true ::
              List.replicate (piece.length - 1) (.cut false) ++
            List.replicate back.length .stays) := by
    unfold marks
    rw [hFront, marksFrom_piece hPiece,
      form.marksFrom_of_not_mem hBack]
  have hKept := keep_replicate_stays back [] []
  have hCount := pieces_replicate_stays back.length []
  simp only [List.append_nil] at hKept hCount
  constructor
  · rw [hMarks, keep_replicate_stays,
      keep_piece (ne_nil_of_piece? hPiece), hKept]
    simp [keep]
  · rw [hMarks, pieces_replicate_stays, pieces_piece, hCount]
    rfl

/- A comment that goes with its lines. -/
theorem marks_standalone
    {indent trail : List Char}
    (hFront : '/' ∉ front)
    (hBack : '/' ∉ back)
    (hStart : startsLine true front = true)
    (hIndent : ∀ c ∈ indent, isIndent c = true)
    (hComment :
      form.comment? (comment ++ (trail ++ back)) =
        some (comment, trail ++ back))
    (hTrail : Place.blankRest? (trail ++ back) = some trail) :
    keep (form.marks (front ++ indent ++
            (comment ++ (trail ++ back))))
          (front ++ indent ++ (comment ++ (trail ++ back))) =
        withoutMargins (front ++ indent) (trail ++ back) ∧
      pieces (form.marks (front ++ indent ++
        (comment ++ (trail ++ back)))) = 1 := by
  rcases Place.indent_of_startsLine hStart hIndent with
    ⟨hBefore, hMargin⟩
  have hMargins :
      marginsAt (startsLine true) (front ++ indent)
          (trail ++ back) =
        (indent, trail) := by
    unfold marginsAt
    rw [hTrail, hBefore, hMargin, hStart]
    rfl
  rcases piece?_of_blankRest? hIndent hComment hTrail with
    ⟨rest, hRest, hFound⟩
  have hPiece :
      form.piece? (startsLine true front)
          ((indent ++ comment ++ trail) ++ back) =
        some (indent ++ comment ++ trail, back) := by
    rw [List.append_cancel_left hRest, hStart]
    rw [List.append_cancel_left hRest] at hFound
    simpa using hFound
  have hText :
      front ++ indent ++ (comment ++ (trail ++ back)) =
        front ++ ((indent ++ comment ++ trail) ++ back) := by
    simp
  rw [withoutMargins_eq hMargins, hText]
  apply marks_piece _ hPiece hBack
  apply marksFrom_before hFront
  intro before more hParts hNonempty hBegin hMore
  -- Such a text would be its own indentation.
  have hAll := (Place.indent_of_startsLine hBegin hMore).2
  have hNil : ∀ c ∈ ([] : List Char), isIndent c = true := by
    simp
  have hNone := (Place.indent_of_startsLine hStart hNil).2
  rw [List.append_nil, hParts, hAll] at hNone
  exact (hNonempty hNone).elim

/- A comment that shares its lines goes by itself. -/
theorem marks_shared
    (hFront : '/' ∉ front)
    (hBack : '/' ∉ back)
    (hComment :
      form.comment? (comment ++ back) = some (comment, back))
    (hShared :
      startsLine true (Place.beforeIndent front) = true →
        Place.blankRest? back = none) :
    keep (form.marks (front ++ (comment ++ back)))
          (front ++ (comment ++ back)) =
        withoutMargins front back ∧
      pieces (form.marks (front ++ (comment ++ back))) = 1 := by
  have hMargins :
      marginsAt (startsLine true) front back = ([], []) := by
    cases hStart :
        startsLine true (Place.beforeIndent front) with
    | false => exact marginsAt_of_not_starts hStart back
    | true =>
        unfold marginsAt
        rw [hShared hStart]
  have hNoLine :
      ∀ before indent,
        front = before ++ indent →
        startsLine true before = true →
        (∀ c ∈ indent, isIndent c = true) →
          form.wholeLine? (indent ++ (comment ++ back)) =
            none := by
    intro before indent hParts hStart hIndent
    cases hWhole :
        form.wholeLine? (indent ++ (comment ++ back)) with
    | none => rfl
    | some result =>
        rcases exists_blankRest?_of_wholeLine? hIndent hComment
          hWhole with ⟨trail, hTrail, _⟩
        have hBefore :=
          (Place.indent_of_startsLine hStart hIndent).1
        rw [← hParts] at hBefore
        rw [hBefore, hTrail] at hShared
        cases hShared hStart
  have hPiece :
      form.piece? (startsLine true front) (comment ++ back) =
        some (comment, back) := by
    unfold piece?
    rw [hComment]
    cases hStart : startsLine true front with
    | false => rfl
    | true =>
        have hNone := hNoLine front [] (by simp) hStart (by simp)
        rw [List.nil_append] at hNone
        rw [if_pos rfl, hNone]
        rfl
  have hSame : withoutMargins front back = front ++ back := by
    have hNil :
        marginsAt (startsLine true) (front ++ [])
            ([] ++ back) =
          ([], []) := by
      simpa using hMargins
    simpa using withoutMargins_eq hNil
  rw [hSame]
  apply marks_piece _ hPiece hBack
  apply marksFrom_before hFront
  intro before indent hParts _ hStart hIndent
  exact hNoLine before indent hParts hStart hIndent

/- One comment goes with its margins, and is counted. -/
theorem marks_single
    (hFront : '/' ∉ front)
    (hBack : '/' ∉ back)
    (hComment :
      form.comment? (comment ++ back) = some (comment, back)) :
    keep (form.marks (front ++ (comment ++ back)))
          (front ++ (comment ++ back)) =
        withoutMargins front back ∧
      pieces (form.marks (front ++ (comment ++ back))) = 1 := by
  by_cases hShared :
      startsLine true (Place.beforeIndent front) = true →
        Place.blankRest? back = none
  · exact marks_shared hFront hBack hComment hShared
  · rcases Classical.not_imp.mp hShared with ⟨hStart, hSome⟩
    rcases Option.ne_none_iff_exists'.mp hSome with
      ⟨trail, hTrail⟩
    rcases Place.blankRest?_eq_some_iff.mp hTrail with
      ⟨_, _, rest, rfl, _⟩
    have hSplit := Place.beforeIndent_append_indentOf front
    rw [← hSplit] at hFront ⊢
    exact marks_standalone
      (fun hIn => hFront (List.mem_append_left _ hIn))
      (fun hIn => hBack (List.mem_append_right _ hIn))
      hStart (fun c hc => Place.isIndent_of_mem_indentOf hc)
      hComment hTrail

end Form

end Directive

end BiomeMigration
