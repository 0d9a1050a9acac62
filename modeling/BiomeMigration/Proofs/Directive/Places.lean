import BiomeMigration.Proofs.Directive.Scan
import Mathlib.Data.List.Nodup
import Mathlib.Data.List.Perm.Subperm

/-
  Characters followed from a source through the passes: each
  carries its place in the source, and a pass keeps some of
  them in order.

  Main declarations:
    * `Placed`
    * `source`
    * `Form.pass`
    * `follow`
    * `chars_follow`
    * `Form.not_mem_pass_of_comment?`
-/

------------------------------------------------------------
-- Parts of a List without Repetition
------------------------------------------------------------

namespace BiomeMigration

namespace Directive

section Lists

variable {β : Type}

/- The parts before and behind an entry are unique. -/
theorem eq_and_eq_of_append_cons
    {as bs cs ds : List β}
    {x : β}
    (hNodup : (as ++ x :: bs).Nodup)
    (hEq : as ++ x :: bs = cs ++ x :: ds) :
    as = cs ∧ bs = ds := by
  have hFresh := (List.nodup_cons.mp
    (List.nodup_middle.mp hNodup)).1
  rw [List.mem_append, not_or] at hFresh
  have hParts :=
    (List.append_cons_inj_of_notMem hFresh.1 hFresh.2).mp hEq
  exact ⟨hParts.1, hParts.2.2⟩

/- A sublist with all entries is the list. -/
theorem eq_of_sublist_of_subset
    {xs ys : List β}
    (hSublist : xs.Sublist ys)
    (hNodup : ys.Nodup)
    (hSubset : ys ⊆ xs) :
    xs = ys := by
  apply hSublist.eq_of_length_le
  exact (hNodup.subperm hSubset).length_le

/-
  Neighbours that all stay in a sublist are neighbours
  there.
-/
theorem infix_of_sublist
    {xs ys part : List β}
    (hSublist : xs.Sublist ys)
    (hNodup : ys.Nodup)
    (hPart : part <:+: ys)
    (hStay : ∀ x ∈ part, x ∈ xs) :
    part <:+: xs := by
  rcases hPart with ⟨before, after, rfl⟩
  rcases List.sublist_append_iff.mp hSublist with
    ⟨front, back, rfl, hFront, hBack⟩
  rcases List.sublist_append_iff.mp hFront with
    ⟨lead, middle, rfl, hLead, hMiddle⟩
  rcases List.nodup_append.mp hNodup with
    ⟨hNodupFront, _, hApartBack⟩
  rcases List.nodup_append.mp hNodupFront with
    ⟨_, hNodupPart, hApartLead⟩
  have hSubset : part ⊆ middle := by
    intro x hx
    rcases List.mem_append.mp (hStay x hx) with hIn | hIn
    · rcases List.mem_append.mp hIn with hIn | hIn
      · exact
          (hApartLead x (hLead.subset hIn) x hx rfl).elim
      · exact hIn
    · exact
        (hApartBack x (List.mem_append_right _ hx) x
          (hBack.subset hIn) rfl).elim
  have hMiddleEq :=
    eq_of_sublist_of_subset hMiddle hNodupPart hSubset
  exact ⟨lead, back, by rw [hMiddleEq]⟩

end Lists

------------------------------------------------------------
-- Passes
------------------------------------------------------------

/- A character with its place in the source. -/
abbrev Placed := Char × Nat

/- A source text with the place of each character. -/
def source (cs : List Char) : List Placed :=
  cs.zipIdx

theorem chars_source (cs : List Char) :
    chars (source cs) = cs := by
  exact List.zipIdx_map_fst 0 cs

theorem nodup_source (cs : List Char) :
    (source cs).Nodup := by
  apply List.Nodup.of_map Prod.snd
  unfold source
  rw [List.zipIdx_map_snd]
  exact List.nodup_range'

/- What the pass of a form keeps. -/
def Form.pass
    (form : Form)
    (xs : List Placed) : List Placed :=
  keep (form.marks (chars xs)) xs

/- What the passes of some rules keep, one after the other. -/
def follow :
    List Rule → List Placed → List Placed
  | [], xs => xs
  | rule :: rules, xs => follow rules (rule.form.pass xs)

theorem follow_append
    (earlier later : List Rule)
    (xs : List Placed) :
    follow (earlier ++ later) xs =
      follow later (follow earlier xs) := by
  induction earlier generalizing xs with
  | nil => rfl
  | cons rule earlier ih => exact ih (rule.form.pass xs)

/- Without the places the passes are those of a text. -/
theorem chars_follow
    (rules : List Rule)
    (xs : List Placed) :
    chars (follow rules xs) = (strip rules (chars xs)).text := by
  induction rules generalizing xs with
  | nil => rfl
  | cons rule rules ih =>
      have hPass :
          chars (rule.form.pass xs) =
            keep (rule.form.marks (chars xs)) (chars xs) :=
        (keep_map Prod.fst _ xs).symm
      rw [follow, ih, hPass]
      rfl

theorem Form.pass_sublist
    (form : Form)
    (xs : List Placed) :
    (form.pass xs).Sublist xs :=
  keep_sublist _ xs

theorem follow_sublist
    (rules : List Rule)
    (xs : List Placed) :
    (follow rules xs).Sublist xs := by
  induction rules generalizing xs with
  | nil => exact List.Sublist.refl xs
  | cons rule rules ih =>
      exact (ih (rule.form.pass xs)).trans
        (rule.form.pass_sublist xs)

theorem Form.exists_scan_pass
    (form : Form)
    (xs : List Placed) :
    ∃ cut, form.Scan true xs (form.pass xs) cut := by
  rcases form.scan_marks xs with ⟨cut, hScan, _⟩
  exact ⟨cut, hScan⟩

------------------------------------------------------------
-- What a Pass Cuts
------------------------------------------------------------

/-
  A character that starts a comment of a form does not
  survive the form's pass.
-/
theorem Form.not_mem_pass_of_comment?
    {form : Form}
    {xs before after : List Placed}
    {x : Placed}
    (hNodup : xs.Nodup)
    (hText : xs = before ++ x :: after)
    (hComment :
      (form.comment? (chars (x :: after))).isSome = true) :
    x ∉ form.pass xs := by
  intro hStays
  rcases List.append_of_mem hStays with
    ⟨front, back, hPass⟩
  rcases form.exists_scan_pass xs with ⟨cut, hScan⟩
  rcases hScan.exists_of_stays hPass with
    ⟨before', after', lineStart, _, hText', hPiece, _⟩
  have hParts :=
    eq_and_eq_of_append_cons (hText ▸ hNodup)
      (hText.symm.trans hText')
  rw [← hParts.2] at hPiece
  rw [comment?_eq_none_of_piece? hPiece] at hComment
  simp at hComment

/-
  A character that a pass deletes lies in a piece that the
  form finds in the text of the pass, and all of that piece
  is deleted.
-/
theorem Form.exists_piece_of_not_mem_pass
    {form : Form}
    {xs : List Placed}
    {x : Placed}
    (hNodup : xs.Nodup)
    (hMember : x ∈ xs)
    (hGone : x ∉ form.pass xs) :
    ∃ before piece after,
      xs = before ++ piece ++ after ∧
        x ∈ piece ∧
        (∀ y ∈ piece, y ∉ form.pass xs) ∧
        form.piece? (startsLine true (chars before))
            (chars (piece ++ after)) =
          some (chars piece, chars after) := by
  rcases form.exists_scan_pass xs with ⟨cut, hScan⟩
  rcases hScan.exists_of_cut hMember hGone with
    ⟨before, piece, after, hText, hIn, hKept, hFound⟩
  refine ⟨before, piece, after, hText, hIn, ?_, hFound⟩
  intro y hy hStays
  rw [hText] at hNodup
  rcases List.nodup_append.mp hNodup with
    ⟨hFront, _, hApart⟩
  rcases List.mem_append.mp (hKept.subset hStays) with
    hBefore | hAfter
  · exact
      (List.nodup_append.mp hFront).2.2 y hBefore y hy rfl
  · exact
      hApart y (List.mem_append_right _ hy) y hAfter rfl

/- A deleted character is deleted by one of the passes. -/
theorem exists_pass_of_not_mem_follow
    {rules : List Rule}
    {xs : List Placed}
    {x : Placed}
    (hMember : x ∈ xs)
    (hGone : x ∉ follow rules xs) :
    ∃ earlier rule later,
      rules = earlier ++ rule :: later ∧
        x ∈ follow earlier xs ∧
        x ∉ rule.form.pass (follow earlier xs) := by
  induction rules generalizing xs with
  | nil => exact (hGone hMember).elim
  | cons rule rules ih =>
      by_cases hStays : x ∈ rule.form.pass xs
      · rcases ih hStays hGone with
          ⟨earlier, rule', later, rfl, hIn, hOut⟩
        exact ⟨rule :: earlier, rule', later, rfl, hIn, hOut⟩
      · exact ⟨[], rule, rules, rfl, hMember, hStays⟩

end Directive

end BiomeMigration
