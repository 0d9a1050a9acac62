import BiomeMigration.Proofs.Directive.Scan

/-
  A text gets shorter by each piece that is cut from it, by
  the length of a shortest comment at least, so that it is
  left as it was just if no piece is counted.

  Main declarations:
    * `Form.shortest`
    * `Form.exists_parts_of_piece?`
    * `Form.Scan.length_add_mul_le`
    * `length_strip_add_mul_le`
    * `removed_pos_iff`
-/

------------------------------------------------------------
-- The Length of a Piece
------------------------------------------------------------

namespace BiomeMigration

namespace Directive

namespace Form

/- No body of a form is shorter. -/
def shortestBody : Form → Nat
  | .block _ => 2
  | .configuration => 3
  | .line _ => 0

/- No comment of a form is shorter. -/
def shortest (form : Form) : Nat :=
  form.opener.length + form.word.length + form.shortestBody

theorem two_le_shortest (form : Form) :
    2 ≤ form.shortest := by
  rcases form.opener_eq with ⟨c, hOpener⟩
  unfold shortest
  rw [hOpener, Nat.add_assoc]
  exact Nat.le_add_right 2 _

section Piece

variable {form : Form} {lineStart : Bool}
variable {cs comment piece rest : List Char}

theorem shortestBody_le_of_body?
    {body : List Char}
    (hBody : form.body? cs = some (body, rest)) :
    form.shortestBody ≤ body.length := by
  cases form with
  | block word =>
      exact (close_suffix_of_throughClose? hBody).length_le
  | configuration =>
      rcases blankThroughClose?_eq_some_iff.mp hBody with
        ⟨c, inner, _, _, rfl, _⟩
      simp [shortestBody]
  | line word => exact Nat.zero_le _

theorem shortest_le_of_comment?
    (hComment : form.comment? cs = some (comment, rest)) :
    form.shortest ≤ comment.length := by
  rcases exists_lead_of_comment? hComment with
    ⟨lead, body, ⟨blanks, _, rfl⟩, rfl, hBody⟩
  have hLength := shortestBody_le_of_body? hBody
  simp only [shortest, List.length_append]
  omega

/-
  A piece is a comment with its indentation and what it
  takes along behind it.
-/
theorem exists_parts_of_piece?
    (hPiece : form.piece? lineStart cs = some (piece, rest)) :
    ∃ indent comment more,
      piece = indent ++ comment ++ more ∧
        form.comment? (comment ++ (more ++ rest)) =
          some (comment, more ++ rest) := by
  rcases piece?_eq_some hPiece with ⟨_, hWhole⟩ | hComment
  · rcases wholeLine?_eq_some_iff.mp hWhole with
      ⟨indent, comment, trail, ending, hLine, rfl, _⟩
    exact ⟨indent, comment, trail ++ ending, by simp,
      hLine.comment_found⟩
  · refine ⟨[], piece, [], by simp, ?_⟩
    rw [List.nil_append, ← append_of_comment? hComment]
    exact hComment

theorem shortest_le_of_piece?
    (hPiece : form.piece? lineStart cs = some (piece, rest)) :
    form.shortest ≤ piece.length := by
  rcases exists_parts_of_piece? hPiece with
    ⟨indent, comment, more, rfl, hComment⟩
  have hLength := shortest_le_of_comment? hComment
  simp only [List.length_append]
  omega

end Piece

end Form

end Directive

end BiomeMigration

------------------------------------------------------------
-- One Pass
------------------------------------------------------------

namespace BiomeMigration

namespace Directive

namespace Form

section Pass

variable {α : Type} {form : Form} {lineStart : Bool}
variable {xs kept : List (Char × α)}
variable {cut : List (List (Char × α))}

/- Each piece has the length of a comment at least. -/
theorem Scan.length_add_mul_le
    (hScan : form.Scan lineStart xs kept cut) :
    kept.length + form.shortest * cut.length ≤ xs.length := by
  induction hScan with
  | done lineStart => exact Nat.le_refl 0
  | stays hPiece hRest ih =>
      simp only [List.length_cons]
      omega
  | @cuts lineStart piece xs kept cut hPiece hRest ih =>
      have hLength : form.shortest ≤ piece.length := by
        rw [← length_chars piece]
        exact shortest_le_of_piece? hPiece
      simp only [List.length_append, List.length_cons,
        Nat.mul_succ]
      omega

/- If no piece is cut, everything stays. -/
theorem Scan.kept_eq_of_cut_eq_nil
    (hScan : form.Scan lineStart xs kept cut)
    (hCut : cut = []) :
    kept = xs := by
  induction hScan with
  | done lineStart => rfl
  | stays hPiece hRest ih => rw [ih hCut]
  | cuts hPiece hRest ih => cases hCut

/- Where a scan cuts nothing no comment starts. -/
theorem Scan.comment?_eq_none
    (hScan : form.Scan lineStart xs kept cut)
    (hCut : cut = [])
    {front back : List Char}
    (hText : chars xs = front ++ back) :
    form.comment? back = none := by
  induction hScan generalizing front with
  | done lineStart =>
      rcases List.append_eq_nil_iff.mp hText.symm with ⟨_, rfl⟩
      cases form with
      | block word => rfl
      | configuration => rfl
      | line word => rfl
  | @stays lineStart x xs kept cut hPiece hRest ih =>
      cases front with
      | nil =>
          rw [List.nil_append] at hText
          rw [← hText]
          exact comment?_eq_none_of_piece? hPiece
      | cons c front =>
          exact ih hCut (List.cons.inj hText).2
  | cuts hPiece hRest ih => cases hCut

end Pass

variable (form : Form) (cs : List Char)

/- The scan of a text whose characters carry no labels. -/
theorem exists_scan_marks :
    ∃ (xs kept : List (Char × Unit))
        (cut : List (List (Char × Unit))),
      chars xs = cs ∧ chars kept = keep (form.marks cs) cs ∧
        pieces (form.marks cs) = cut.length ∧
        form.Scan true xs kept cut := by
  have hChars : chars (cs.map fun c => (c, ())) = cs := by
    unfold chars
    rw [List.map_map]
    exact List.map_id cs
  rcases form.scan_marks (cs.map fun c => (c, ())) with
    ⟨cut, hScan, hCount⟩
  rw [hChars] at hScan hCount
  refine ⟨_, _, cut, hChars, ?_, hCount, hScan⟩
  have hKept :=
    keep_map Prod.fst (form.marks cs) (cs.map fun c => (c, ()))
  exact hKept.symm.trans
    (congrArg (keep (form.marks cs)) hChars)

theorem length_keep_add_mul_le :
    (keep (form.marks cs) cs).length +
        form.shortest * pieces (form.marks cs) ≤
      cs.length := by
  rcases form.exists_scan_marks cs with
    ⟨xs, kept, cut, hText, hKept, hCount, hScan⟩
  have hLength := hScan.length_add_mul_le
  rw [← hKept, hCount, length_chars, ← hText, length_chars]
  exact hLength

theorem keep_eq_of_pieces_eq_zero
    (hNone : pieces (form.marks cs) = 0) :
    keep (form.marks cs) cs = cs := by
  rcases form.exists_scan_marks cs with
    ⟨xs, kept, cut, hText, hKept, hCount, hScan⟩
  have hNil : cut = [] :=
    List.length_eq_zero_iff.mp (hCount.symm.trans hNone)
  rw [← hKept, hScan.kept_eq_of_cut_eq_nil hNil, hText]

variable {form cs}

/- No comment starts in a text of which nothing is cut. -/
theorem comment?_eq_none_of_pieces_eq_zero
    (hNone : pieces (form.marks cs) = 0)
    {front back : List Char}
    (hText : cs = front ++ back) :
    form.comment? back = none := by
  rcases form.exists_scan_marks cs with
    ⟨xs, kept, cut, rfl, _, hCount, hScan⟩
  have hNil : cut = [] :=
    List.length_eq_zero_iff.mp (hCount.symm.trans hNone)
  exact hScan.comment?_eq_none hNil hText

end Form

------------------------------------------------------------
-- All Passes
------------------------------------------------------------

/- The passes of some rules are followed by those of others. -/
theorem strip_append
    (earlier later : List Rule)
    (cs : List Char) :
    strip (earlier ++ later) cs =
      ⟨(strip later (strip earlier cs).text).text,
        (strip earlier cs).counts ++
          (strip later (strip earlier cs).text).counts⟩ := by
  induction earlier generalizing cs with
  | nil => rfl
  | cons rule earlier ih =>
      simp only [List.cons_append, strip, ih]

theorem text_strip_cons
    (rule : Rule)
    (rules : List Rule)
    (cs : List Char) :
    (strip (rule :: rules) cs).text =
      (strip rules (keep (rule.form.marks cs) cs)).text :=
  rfl

theorem removed_cons
    (rule : Rule)
    (rules : List Rule)
    (cs : List Char) :
    (strip (rule :: rules) cs).removed =
      pieces (rule.form.marks cs) +
        (strip rules (keep (rule.form.marks cs) cs)).removed :=
  rfl

/-
  If no comment of some rules is shorter than `size`, each
  one that is counted has taken that much of the text.
-/
theorem length_strip_add_mul_le
    {size : Nat}
    (rules : List Rule)
    (hSize : ∀ rule ∈ rules, size ≤ rule.form.shortest)
    (cs : List Char) :
    (strip rules cs).text.length +
        size * (strip rules cs).removed ≤
      cs.length := by
  induction rules generalizing cs with
  | nil => exact Nat.le_refl cs.length
  | cons rule rules ih =>
      have hPass := rule.form.length_keep_add_mul_le cs
      have hPieces :
          size * pieces (rule.form.marks cs) ≤
            rule.form.shortest * pieces (rule.form.marks cs) :=
        Nat.mul_le_mul_right _ (hSize rule List.mem_cons_self)
      have hRest :=
        ih
          (fun other hOther =>
            hSize other (List.mem_cons_of_mem rule hOther))
          (keep (rule.form.marks cs) cs)
      rw [removed_cons, text_strip_cons, Nat.mul_add]
      omega

theorem text_strip_of_removed_eq_zero
    {rules : List Rule}
    {cs : List Char}
    (hNone : (strip rules cs).removed = 0) :
    (strip rules cs).text = cs := by
  induction rules generalizing cs with
  | nil => rfl
  | cons rule rules ih =>
      rw [removed_cons, Nat.add_eq_zero_iff] at hNone
      have hPass :=
        rule.form.keep_eq_of_pieces_eq_zero cs hNone.1
      have hRest := hNone.2
      rw [hPass] at hRest
      simp only [strip, hPass]
      exact ih hRest

/- A text is changed just if something is counted. -/
theorem removed_pos_iff
    (rules : List Rule)
    (cs : List Char) :
    0 < (strip rules cs).removed ↔
      (strip rules cs).text ≠ cs := by
  constructor
  · intro hPositive hSame
    have hLength :=
      length_strip_add_mul_le rules
        (fun rule _ => rule.form.two_le_shortest) cs
    rw [hSame] at hLength
    omega
  · intro hOther
    apply Nat.pos_of_ne_zero
    intro hNone
    exact hOther (text_strip_of_removed_eq_zero hNone)

end Directive

end BiomeMigration
