import Mathlib.Logic.Function.Iterate
import BiomeMigration.Proofs.Directive.Backtracking
import BiomeMigration.Proofs.Directive.Removal

/-
  Runs of the rules again and again. Each run keeps the
  text in order and counts one comment for at least nine
  characters, and it counts none just if no pattern matches,
  so that the runs come to an end.

  Main declarations:
    * `Pattern.Occurs`
    * `Form.pieces_eq_zero_iff`
    * `removed_eq_zero_iff`
    * `exists_last_run`
    * `strip_settles`
-/

------------------------------------------------------------
-- Matches of a Pattern
------------------------------------------------------------

namespace BiomeMigration

namespace Directive

/- A pattern matches at some place of a text. -/
def Pattern.Occurs
    (p : Pattern)
    (cs : List Char) : Prop :=
  ∃ front back,
    cs = front ++ back ∧
      p.ends (Cursor.past none front back) ≠ []

namespace Form

variable {form : Form} {cs : List Char}

/- A form matches where one of its comments starts. -/
theorem occurs_iff (hWorded : form.Worded) :
    form.pattern.Occurs cs ↔
      ∃ front back,
        cs = front ++ back ∧ form.comment? back ≠ none := by
  constructor
  · rintro ⟨front, back, rfl, hEnds⟩
    have hHead :=
      head?_ends_pattern hWorded (front.getLast?.or none) back
    cases hPiece :
        form.piece?
          ((front.getLast?.or none).all (· == '\n')) back with
    | none =>
        rw [hPiece] at hHead
        exact (hEnds (List.head?_eq_none_iff.mp hHead)).elim
    | some found =>
        rcases found with ⟨piece, rest⟩
        rcases exists_parts_of_piece? hPiece with
          ⟨indent, comment, more, rfl, hComment⟩
        refine ⟨front ++ indent, comment ++ (more ++ rest), ?_,
          by simp [hComment]⟩
        rw [append_of_piece? hPiece]
        simp
  · rintro ⟨front, back, rfl, hComment⟩
    refine ⟨front, back, rfl, ?_⟩
    intro hEnds
    have hHead :=
      head?_ends_pattern hWorded (front.getLast?.or none) back
    have hNone :
        (form.pattern.ends
          ⟨front.getLast?.or none, back⟩).head? = none :=
      List.head?_eq_none_iff.mpr hEnds
    rw [hNone] at hHead
    exact hComment
      (comment?_eq_none_of_piece?
        (Option.map_eq_none_iff.mp hHead.symm))

/- A scan that finds a piece has come to a comment. -/
theorem Scan.exists_comment?
    {α : Type}
    {lineStart : Bool}
    {xs kept : List (Char × α)}
    {cut : List (List (Char × α))}
    (hScan : form.Scan lineStart xs kept cut)
    (hCut : cut ≠ []) :
    ∃ front back,
      chars xs = front ++ back ∧ form.comment? back ≠ none := by
  induction hScan with
  | done lineStart => exact (hCut rfl).elim
  | @stays lineStart x xs kept cut hPiece hRest ih =>
      rcases ih hCut with ⟨front, back, hText, hComment⟩
      refine ⟨x.1 :: front, back, ?_, hComment⟩
      rw [chars_cons, hText, List.cons_append]
  | @cuts lineStart piece xs kept cut hPiece hRest ih =>
      rcases exists_parts_of_piece? hPiece with
        ⟨indent, comment, more, hParts, hComment⟩
      refine ⟨indent, comment ++ (more ++ chars xs), ?_,
        by simp [hComment]⟩
      rw [chars_append, hParts]
      simp

/- Nothing is cut just if the form matches nowhere. -/
theorem pieces_eq_zero_iff (hWorded : form.Worded) :
    pieces (form.marks cs) = 0 ↔ ¬ form.pattern.Occurs cs := by
  rw [occurs_iff hWorded]
  constructor
  · rintro hNone ⟨front, back, hText, hComment⟩
    exact hComment
      (comment?_eq_none_of_pieces_eq_zero hNone hText)
  · intro hNowhere
    rcases form.exists_scan_marks cs with
      ⟨xs, kept, cut, rfl, _, hCount, hScan⟩
    rw [hCount, List.length_eq_zero_iff]
    by_contra hCut
    exact hNowhere (hScan.exists_comment? hCut)

end Form

------------------------------------------------------------
-- One Run
------------------------------------------------------------

variable {rules : List Rule} {cs : List Char}

theorem text_strip_sublist
    (rules : List Rule)
    (cs : List Char) :
    (strip rules cs).text.Sublist cs := by
  induction rules generalizing cs with
  | nil => exact List.Sublist.refl cs
  | cons rule rules ih =>
      rw [text_strip_cons]
      exact (ih _).trans (keep_sublist _ cs)

/-
  A run counts nothing just if none of its patterns matches
  in the text that it starts with.
-/
theorem removed_eq_zero_iff
    (hWorded : ∀ rule ∈ rules, rule.form.Worded) :
    (strip rules cs).removed = 0 ↔
      ∀ rule ∈ rules, ¬ rule.form.pattern.Occurs cs := by
  induction rules with
  | nil => exact iff_of_true rfl (by simp)
  | cons rule rules ih =>
      have hFirst :
          pieces (rule.form.marks cs) = 0 ↔
            ¬ rule.form.pattern.Occurs cs :=
        Form.pieces_eq_zero_iff
          (hWorded rule List.mem_cons_self)
      have hRest :=
        ih fun other hOther =>
          hWorded other (List.mem_cons_of_mem rule hOther)
      rw [removed_cons, Nat.add_eq_zero_iff,
        List.forall_mem_cons, ← hFirst, ← hRest]
      -- The later rules meet the text itself: the first pass
      -- has left it alone.
      apply and_congr_right
      intro hNone
      rw [rule.form.keep_eq_of_pieces_eq_zero cs hNone]

theorem nine_le_shortest_of_mem_standard :
    ∀ rule ∈ Rule.standard, 9 ≤ rule.form.shortest := by
  decide

------------------------------------------------------------
-- Many Runs
------------------------------------------------------------

/- The text that a run of the rules leaves. -/
def stripped
    (rules : List Rule)
    (cs : List Char) : List Char :=
  (strip rules cs).text

/-
  Runs that count something come to an end, as each of them
  takes `size` characters at least from the text.
-/
theorem exists_last_run
    {size : Nat}
    (hSize : ∀ rule ∈ rules, size ≤ rule.form.shortest)
    (cs : List Char) :
    ∃ n, size * n ≤ cs.length ∧
      (∀ k < n,
        0 < (strip rules ((stripped rules)^[k] cs)).removed) ∧
      (strip rules ((stripped rules)^[n] cs)).removed = 0 := by
  induction hLength : cs.length using Nat.strongRecOn
    generalizing cs with
  | ind length ih =>
      subst hLength
      by_cases hNone : (strip rules cs).removed = 0
      · exact ⟨0, Nat.zero_le _, by simp, hNone⟩
      have hPositive := Nat.pos_of_ne_zero hNone
      have hTaken := length_strip_add_mul_le rules hSize cs
      have hTwo :=
        length_strip_add_mul_le rules
          (fun rule _ => rule.form.two_le_shortest) cs
      have hOnce : size * 1 ≤ size * (strip rules cs).removed :=
        Nat.mul_le_mul_left size hPositive
      have hShorter : (stripped rules cs).length < cs.length := by
        unfold stripped
        omega
      rcases ih _ hShorter (stripped rules cs) rfl with
        ⟨n, hMore, hEach, hLast⟩
      refine ⟨n + 1, ?_, ?_, hLast⟩
      · unfold stripped at hMore
        rw [Nat.mul_succ]
        omega
      · intro k hk
        cases k with
        | zero => exact hPositive
        | succ k => exact hEach k (Nat.lt_of_succ_lt_succ hk)

/-
  A run of any of the standard rules, in any order and with
  any repetition, leaves a part of the text in its order and
  takes nine characters at least for each comment it counts.
  It counts none just if it leaves the text as it is, and
  just if none of its patterns matches in the text. Run
  after run, a text is reached that is left as it is.
-/
theorem strip_settles
    (hRules : ∀ rule ∈ rules, rule ∈ Rule.standard)
    (cs : List Char) :
    (strip rules cs).text.Sublist cs ∧
      (strip rules cs).text.length +
          9 * (strip rules cs).removed ≤
        cs.length ∧
      ((strip rules cs).removed = 0 ↔
        (strip rules cs).text = cs) ∧
      ((strip rules cs).removed = 0 ↔
        ∀ rule ∈ rules, ¬ rule.form.pattern.Occurs cs) ∧
      ∃ n ≤ cs.length / 9,
        (∀ k < n,
          0 <
            (strip rules ((stripped rules)^[k] cs)).removed) ∧
        (strip rules ((stripped rules)^[n] cs)).removed = 0 ∧
        stripped rules ((stripped rules)^[n] cs) =
          (stripped rules)^[n] cs := by
  have hSize : ∀ rule ∈ rules, 9 ≤ rule.form.shortest :=
    fun rule hRule =>
      nine_le_shortest_of_mem_standard rule (hRules rule hRule)
  have hWorded : ∀ rule ∈ rules, rule.form.Worded :=
    fun rule hRule =>
      Form.worded_of_mem_standard rule (hRules rule hRule)
  have hUnchanged :
      (strip rules cs).removed = 0 ↔
        (strip rules cs).text = cs :=
    not_iff_not.mp
      (Nat.pos_iff_ne_zero.symm.trans (removed_pos_iff rules cs))
  rcases exists_last_run hSize cs with
    ⟨n, hMany, hEach, hLast⟩
  refine ⟨text_strip_sublist rules cs,
    length_strip_add_mul_le rules hSize cs, hUnchanged,
    removed_eq_zero_iff hWorded, n, ?_, hEach, hLast,
    text_strip_of_removed_eq_zero hLast⟩
  rw [Nat.le_div_iff_mul_le (by decide), Nat.mul_comm]
  exact hMany

/- A line comment stands between a block and its word. -/
def dividedBlock : List Char :=
  "/* // eslint-env\neslint-disable */".toList

/- Two rules, one of them twice. -/
def repeatedRules : List Rule :=
  [Rule.block "block-disable" "eslint-disable",
    Rule.line "line-env" "eslint-env",
    Rule.line "line-env" "eslint-env"]

/- The first run lets the second one see the block. -/
theorem settles_dividedBlock :
    (∀ rule ∈ repeatedRules, rule ∈ Rule.standard) ∧
      (stripped repeatedRules)^[2] dividedBlock = [] ∧
      ∃ n ≤ 3,
        (∀ k < n,
          0 <
            (strip repeatedRules
              ((stripped repeatedRules)^[k]
                dividedBlock)).removed) ∧
        (strip repeatedRules
            ((stripped repeatedRules)^[n]
              dividedBlock)).removed =
          0 := by
  have hRules : ∀ rule ∈ repeatedRules, rule ∈ Rule.standard := by
    decide
  have hTwice :
      (stripped repeatedRules)^[2] dividedBlock = [] := by
    decide +kernel
  have hLength : dividedBlock.length / 9 = 3 := by
    decide +kernel
  rcases strip_settles hRules dividedBlock with
    ⟨_, _, _, _, n, hMany, hEach, hLast, _⟩
  rw [hLength] at hMany
  exact ⟨hRules, hTwice, n, hMany, hEach, hLast⟩

end Directive

end BiomeMigration
