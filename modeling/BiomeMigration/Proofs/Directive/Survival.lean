import BiomeMigration.Proofs.Directive.Deletion

/-
  Which directive comments are left after the passes: none
  of the source, only such as the passes put together. A
  second run deletes no others.

  Main declarations:
    * `Form.HasComment`
    * `not_kept_of_comment`
    * `exists_close_of_follow`
    * `assembled_of_comment_after_follow`
-/

------------------------------------------------------------
-- Comments in a Placed Text
------------------------------------------------------------

namespace BiomeMigration

namespace Directive

/- The comment part of a form matches a part of a text. -/
def Form.HasComment
    (form : Form)
    (xs comment : List Placed) : Prop :=
  ∃ before after,
    xs = before ++ comment ++ after ∧
      form.comment? (chars (comment ++ after)) =
        some (chars comment, chars after)

theorem Form.HasComment.ne_nil
    {form : Form}
    {xs comment : List Placed}
    (hComment : form.HasComment xs comment) :
    comment ≠ [] := by
  rcases hComment with ⟨before, after, _, hFound⟩
  intro hNil
  have hHead := head?_of_comment? hFound
  rw [hNil] at hHead
  simp at hHead

/- A comment is found wherever its characters stand. -/
theorem Form.HasComment.extend
    {form : Form}
    (hWorded : form.Worded)
    {xs comment : List Placed}
    (hComment : form.HasComment xs comment)
    (other : List Placed) :
    ∃ more tail,
      other = more ++ tail ∧
        form.comment? (chars (comment ++ other)) =
          some (chars (comment ++ more), chars tail) := by
  rcases hComment with ⟨before, after, _, hFound⟩
  rw [chars_append] at hFound
  rcases comment?_extend hWorded hFound (chars other) with
    ⟨more, tail, hOther, hMore⟩
  rcases exists_of_chars_eq_append hOther with
    ⟨more', tail', rfl, rfl, rfl⟩
  refine ⟨more', tail', rfl, ?_⟩
  rw [chars_append comment, chars_append comment]
  exact hMore

/- The comment of an occurrence is a part of its text. -/
theorem Occurrence.FoundBy.hasComment
    {form : Form}
    {o : Occurrence}
    (hFound : o.FoundBy form) :
    form.HasComment o.text o.comment :=
  ⟨o.before ++ o.lead, o.trail ++ o.after,
    by simp [Occurrence.text, Occurrence.piece],
    hFound.comment_found⟩

------------------------------------------------------------
-- Comments that Cannot Stay
------------------------------------------------------------

variable {rules earlier later : List Rule} {rule : Rule}
variable {xs : List Placed}

/-
  A part of a text whose characters are neighbours cannot be
  kept if a comment starts with it in the pass of its rule.
-/
theorem not_kept_of_comment
    (hNodup : xs.Nodup)
    {part : List Placed}
    (hNonempty : part ≠ [])
    (hInfix : part <:+: xs)
    (hKept :
      ∀ x ∈ part, x ∈ follow (earlier ++ rule :: later) xs)
    (hComment :
      ∀ before after,
        follow earlier xs = before ++ part ++ after →
          (rule.form.comment?
            (chars (part ++ after))).isSome = true) :
    False := by
  have hPassed :
      ∀ x ∈ part,
        x ∈ rule.form.pass (follow earlier xs) := by
    intro x hx
    have hIn := hKept x hx
    rw [follow_append] at hIn
    exact (follow_sublist later _).subset hIn
  have hEarlier := follow_sublist earlier xs
  have hPart : part <:+: follow earlier xs := by
    apply infix_of_sublist hEarlier hNodup hInfix
    intro x hx
    exact (rule.form.pass_sublist _).subset (hPassed x hx)
  rcases hPart with ⟨before, after, hText⟩
  have hFound := hComment before after hText.symm
  cases part with
  | nil => exact hNonempty rfl
  | cons x part =>
      rw [List.append_assoc] at hText
      exact
        Form.not_mem_pass_of_comment?
          (hNodup.sublist hEarlier) hText.symm hFound
          (hPassed x (by simp))

/-
  If a lead whose characters are neighbours has a close
  behind it after some passes, it had one before them.
-/
theorem exists_close_of_follow
    (hNodup : xs.Nodup)
    {before lead after : List Placed}
    (hKept : follow rules xs = before ++ lead ++ after)
    (hNonempty : lead ≠ [])
    (hInfix : lead <:+: xs)
    (hClose : HasClose (chars after)) :
    ∃ front back,
      xs = front ++ lead ++ back ∧
        HasClose (chars back) := by
  induction rules generalizing xs with
  | nil => exact ⟨before, after, hKept, hClose⟩
  | cons rule rules ih =>
      have hSublist := rule.form.pass_sublist xs
      have hPassed : lead <:+: rule.form.pass xs := by
        apply infix_of_sublist hSublist hNodup hInfix
        intro x hx
        apply (follow_sublist rules _).subset
        have hAll : x ∈ before ++ lead ++ after := by
          simp [hx]
        rw [← hKept] at hAll
        exact hAll
      rcases ih (hNodup.sublist hSublist) hKept hPassed with
        ⟨front, back, hPass, hBack⟩
      rcases List.eq_nil_or_concat lead with
        hNil | ⟨init, x, rfl⟩
      · exact (hNonempty hNil).elim
      · rcases rule.form.exists_scan_pass xs with
          ⟨cut, hScan⟩
        have hKeptSplit :
            rule.form.pass xs =
              (front ++ init) ++ x :: back := by
          rw [hPass]
          simp
        rcases hScan.exists_of_stays hKeptSplit with
          ⟨front', back', lineStart, cut', hText, _, hRest⟩
        rcases hInfix with ⟨front'', back'', hSource⟩
        have hSplit :
            xs = (front'' ++ init) ++ x :: back'' := by
          rw [← hSource]
          simp
        have hParts :=
          eq_and_eq_of_append_cons (hSplit ▸ hNodup)
            (hSplit.symm.trans hText)
        refine ⟨front'', back'', hSource.symm, ?_⟩
        rw [hParts.2]
        exact hRest.hasClose hBack

/- Without duplicates, a part has one text behind it. -/
theorem after_eq_of_nodup
    (hNodup : xs.Nodup)
    {part front back front' back' : List Placed}
    (hNonempty : part ≠ [])
    (hText : xs = front ++ part ++ back)
    (hText' : xs = front' ++ part ++ back') :
    back = back' := by
  rcases List.eq_nil_or_concat part with hNil | ⟨init, x, rfl⟩
  · exact (hNonempty hNil).elim
  · have hLeft : xs = (front ++ init) ++ x :: back := by
      rw [hText]
      simp
    have hRight : xs = (front' ++ init) ++ x :: back' := by
      rw [hText']
      simp
    exact
      (eq_and_eq_of_append_cons (hLeft ▸ hNodup)
        (hLeft.symm.trans hRight)).2

/- A close behind a lead was there before the passes. -/
theorem hasClose_of_follow
    (hNodup : xs.Nodup)
    {before lead after front back : List Placed}
    (hNonempty : lead ≠ [])
    (hKept : follow rules xs = before ++ lead ++ after)
    (hText : xs = front ++ lead ++ back)
    (hClose : HasClose (chars after)) :
    HasClose (chars back) := by
  rcases exists_close_of_follow hNodup hKept hNonempty
      ⟨front, back, hText.symm⟩ hClose with
    ⟨front', back', hText', hBack⟩
  rw [after_eq_of_nodup hNodup hNonempty hText hText']
  exact hBack

end Directive

end BiomeMigration

------------------------------------------------------------
-- Comments after the Passes
------------------------------------------------------------

namespace BiomeMigration

namespace Directive

variable {cs : List Char} {rule : Rule}

/-
  A directive comment of a part of the source loses a
  character, wherever its form has found it.
-/
theorem not_kept_of_hasComment
    (hRule : rule ∈ Rule.standard)
    {xs comment : List Placed}
    (hComment : rule.form.HasComment xs comment)
    (hInfix : comment <:+: source cs) :
    ¬ ∀ x ∈ comment,
        x ∈ follow Rule.standard (source cs) := by
  intro hKept
  rcases List.append_of_mem hRule with
    ⟨earlier, later, hRules⟩
  rw [hRules] at hKept
  apply not_kept_of_comment (nodup_source cs)
    hComment.ne_nil hInfix hKept
  intro before after _
  rcases hComment.extend
      (Form.worded_of_mem_standard rule hRule) after with
    ⟨more, tail, _, hFound⟩
  rw [hFound]
  rfl

/-
  The lead of a comment that is left was put together by the
  passes, unless the comment is a configuration, whose body
  may have lost a star.
-/
theorem lead_assembled_of_hasComment
    (hRule : rule ∈ Rule.standard)
    (hForm : rule.form ≠ .configuration)
    {comment : List Placed}
    (hComment :
      rule.form.HasComment
        (follow Rule.standard (source cs)) comment) :
    ∃ lead body,
      comment = lead ++ body ∧
        rule.form.IsLead (chars lead) ∧
        ¬ lead <:+: source cs := by
  have hWorded := Form.worded_of_mem_standard rule hRule
  rcases hComment with ⟨before, after, hKept, hFound⟩
  rcases Form.exists_lead_of_comment? hFound with
    ⟨leadChars, bodyChars, hLead, hParts, hBody⟩
  rcases exists_of_chars_eq_append hParts with
    ⟨lead, body, rfl, rfl, rfl⟩
  refine ⟨lead, body, rfl, hLead, ?_⟩
  intro hInfix
  have hNonempty : lead ≠ [] := by
    intro hNil
    have hHead := hLead.head?_eq
    rw [hNil] at hHead
    simp at hHead
  rcases List.append_of_mem hRule with
    ⟨earlier, later, hRules⟩
  have hEarlier := follow_sublist earlier (source cs)
  have hAll :
      ∀ x ∈ lead,
        x ∈ follow (earlier ++ rule :: later) (source cs) := by
    intro x hx
    rw [← hRules, hKept]
    simp [hx]
  have hNodup := (nodup_source cs).sublist hEarlier
  apply not_kept_of_comment (nodup_source cs) hNonempty hInfix
    hAll
  intro front back hText
  rw [chars_append, Form.comment?_lead hWorded hLead,
    Option.isSome_map]
  cases hCase : rule.form with
  | configuration => exact (hForm hCase).elim
  | line word => rfl
  | block word =>
      rw [hCase] at hBody
      have hClose : HasClose (chars (body ++ after)) := by
        rw [chars_append, ← throughClose?_isSome_iff]
        exact Option.isSome_of_mem hBody
      have hLater :
          follow (rule :: later)
              (follow earlier (source cs)) =
            before ++ lead ++ (body ++ after) := by
        rw [← follow_append, ← hRules, hKept]
        simp
      exact (throughClose?_isSome_iff _).mpr
        (hasClose_of_follow hNodup hNonempty hLater hText
          hClose)

/-
  What a second run deletes lies in a piece whose comment
  was no part of the source. If it is a part of the result
  of the first run, it starts a comment there.
-/
theorem exists_assembled_of_second_run
    {x : Placed}
    (hx : x ∈ follow Rule.standard (source cs))
    (hGone :
      x ∉ follow Rule.standard
        (follow Rule.standard (source cs))) :
    ∃ earlier rule later, ∃ o : Occurrence,
      Rule.standard = earlier ++ rule :: later ∧
        o.text =
          follow earlier (follow Rule.standard (source cs)) ∧
        o.FoundBy rule.form ∧
        x ∈ o.piece ∧
        ¬ o.comment <:+: source cs ∧
        (o.comment <:+: follow Rule.standard (source cs) →
          ∃ more,
            rule.form.HasComment
              (follow Rule.standard (source cs))
              (o.comment ++ more)) := by
  have hNodup :=
    (nodup_source cs).sublist (follow_sublist Rule.standard _)
  rcases exists_pass_of_not_mem_follow hx hGone with
    ⟨earlier, rule, later, hRules, hIn, hOut⟩
  have hEarlier :=
    follow_sublist earlier (follow Rule.standard (source cs))
  rcases Form.exists_piece_of_not_mem_pass
      (hNodup.sublist hEarlier) hIn hOut with
    ⟨before, piece, after, hText, hMember, _, hPiece⟩
  rcases exists_occurrence_of_piece? hPiece with
    ⟨o, rfl, rfl, rfl, hFound⟩
  have hRule : rule ∈ Rule.standard := by
    rw [hRules]
    simp
  refine ⟨earlier, rule, later, o, hRules, hText.symm,
    hFound, hMember, ?_, ?_⟩
  · intro hInfix
    apply not_kept_of_hasComment hRule hFound.hasComment hInfix
    intro y hy
    apply hEarlier.subset
    rw [hText]
    simp [Occurrence.piece, hy]
  · rintro ⟨front, back, hKept⟩
    rcases hFound.hasComment.extend
        (Form.worded_of_mem_standard rule hRule) back with
      ⟨more, tail, rfl, hMore⟩
    refine ⟨more, front, tail, ?_, ?_⟩
    · rw [← hKept]
      simp
    · rw [List.append_assoc]
      exact hMore

/-
  No directive comment of the source is left. A comment that
  is left has characters that are no neighbours in the
  source, and for all rules but the one for configurations
  such characters are found in its lead. What a second run
  deletes lies in pieces whose comments were no comments of
  the source; if the characters of such a comment are
  neighbours after the first run, it starts a comment there.
-/
theorem assembled_of_comment_after_follow (cs : List Char) :
    chars (follow Rule.standard (source cs)) =
        (strip Rule.standard cs).text ∧
      let kept := follow Rule.standard (source cs)
      (∀ rule ∈ Rule.standard, ∀ comment,
        rule.form.HasComment (source cs) comment →
          ∃ x ∈ comment, x ∉ kept) ∧
      (∀ rule ∈ Rule.standard, ∀ comment,
        rule.form.HasComment kept comment →
          ¬ comment <:+: source cs ∧
            (rule.form ≠ .configuration →
              ∃ lead body,
                comment = lead ++ body ∧
                  rule.form.IsLead (chars lead) ∧
                  ¬ lead <:+: source cs)) ∧
      (∀ x ∈ kept, x ∉ follow Rule.standard kept →
        ∃ earlier rule later, ∃ o : Occurrence,
          Rule.standard = earlier ++ rule :: later ∧
            o.text = follow earlier kept ∧
            o.FoundBy rule.form ∧
            x ∈ o.piece ∧
            ¬ o.comment <:+: source cs ∧
            (o.comment <:+: kept →
              ∃ more,
                rule.form.HasComment kept
                  (o.comment ++ more))) := by
  constructor
  · rw [chars_follow, chars_source]
  intro kept
  refine ⟨?_, ?_, ?_⟩
  · intro rule hRule comment hComment
    have hInfix : comment <:+: source cs := by
      rcases hComment with ⟨before, after, hText, _⟩
      exact ⟨before, after, hText.symm⟩
    have hLost := not_kept_of_hasComment hRule hComment hInfix
    push Not at hLost
    exact hLost
  · intro rule hRule comment hComment
    refine ⟨?_, ?_⟩
    · intro hInfix
      apply not_kept_of_hasComment hRule hComment hInfix
      intro x hx
      rcases hComment with ⟨before, after, hText, _⟩
      change x ∈ kept
      rw [hText]
      simp [hx]
    · intro hForm
      exact lead_assembled_of_hasComment hRule hForm hComment
  · intro x hx hGone
    exact exists_assembled_of_second_run hx hGone

/-
  A line between the opener and the word of a block, inside
  of the word of another block.
-/
def splitTwice : List Char :=
  ("/* eslint-/*\n// eslint-disable-line\n"
    ++ "eslint-disable */enable foo */").toList

/-
  A second run can delete what no rule matches in the result
  of the first one.
-/
theorem not_inPlace_of_second_run_splitTwice :
    let once := (strip Rule.standard splitTwice).text
    ¬ ∀ x ∈ source once,
        x ∉ follow Rule.standard (source once) →
          InPlace Rule.standard once x.2 := by
  decide +kernel

/- What the second run deletes there was put together. -/
theorem assembled_of_second_run_splitTwice :
    let kept := follow Rule.standard (source splitTwice)
    ('f', 60) ∈ kept ∧
      ('f', 60) ∉ follow Rule.standard kept ∧
      ∃ earlier rule later, ∃ o : Occurrence,
        Rule.standard = earlier ++ rule :: later ∧
          o.text = follow earlier kept ∧
          o.FoundBy rule.form ∧
          ('f', 60) ∈ o.piece ∧
          ¬ o.comment <:+: source splitTwice ∧
          (o.comment <:+: kept →
            ∃ more,
              rule.form.HasComment kept
                (o.comment ++ more)) := by
  intro kept
  have hKept :
      ('f', 60) ∈
        follow Rule.standard (source splitTwice) := by
    decide +kernel
  have hGone :
      ('f', 60) ∉
        follow Rule.standard
          (follow Rule.standard (source splitTwice)) := by
    decide +kernel
  refine ⟨hKept, hGone, ?_⟩
  exact
    (assembled_of_comment_after_follow splitTwice).2.2.2
      ('f', 60) hKept hGone

end Directive

end BiomeMigration
