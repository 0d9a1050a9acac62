import BiomeMigration.Proofs.Directive.Places

/-
  Which characters the passes delete. A character outside of
  all matches in the source is only deleted as part of a
  match that an earlier deletion put together.

  Main declarations:
    * `InPlace`
    * `outside`
    * `Occurrence`
    * `Occurrence.FoundBy`
    * `inPlace_or_assembled_of_deleted`
-/

------------------------------------------------------------
-- Matches in Place
------------------------------------------------------------

namespace BiomeMigration

namespace Directive

/-
  The pieces that a form matches at a place of a text: the
  bare comment, and at the start of a line the comment with
  its line.
-/
def Form.matchesAt
    (form : Form)
    (cs : List Char)
    (start : Nat) : List (List Char) :=
  let bare := form.comment? (cs.drop start)
  let whole :=
    if startsLine true (cs.take start) then
      form.wholeLine? (cs.drop start)
    else none
  (bare.toList ++ whole.toList).map Prod.fst

/-
  A character of a text lies in a piece that one of some
  rules matches where it stands.
-/
def InPlace
    (rules : List Rule)
    (cs : List Char)
    (i : Nat) : Prop :=
  ∃ rule ∈ rules, ∃ start ∈ List.range (i + 1),
    ∃ piece ∈ rule.form.matchesAt cs start,
      i < start + piece.length

instance
    (rules : List Rule)
    (cs : List Char)
    (i : Nat) :
    Decidable (InPlace rules cs i) :=
  inferInstanceAs
    (Decidable
      (∃ rule ∈ rules, ∃ start ∈ List.range (i + 1),
        ∃ piece ∈ rule.form.matchesAt cs start,
          i < start + piece.length))

/- The characters of a source outside of all matches. -/
def outside
    (rules : List Rule)
    (cs : List Char) : List Placed :=
  (source cs).filter fun x => ¬ InPlace rules cs x.2

/- A character of a part of the source stands at its place. -/
theorem bounds_of_mem_source
    {cs : List Char}
    {before part after : List Placed}
    {x : Placed}
    (hSource : source cs = before ++ part ++ after)
    (hMember : x ∈ part) :
    before.length ≤ x.2 ∧
      x.2 < before.length + part.length := by
  rcases List.mem_iff_getElem.mp hMember with ⟨i, hi, rfl⟩
  have hAt :
      (source cs)[before.length + i]? = some part[i] := by
    rw [hSource, List.append_assoc,
      List.getElem?_append_right (Nat.le_add_right _ _),
      Nat.add_sub_cancel_left, List.getElem?_append_left hi]
    exact List.getElem?_eq_getElem hi
  unfold source at hAt
  rw [List.getElem?_zipIdx] at hAt
  rcases Option.map_eq_some_iff.mp hAt with ⟨c, _, hPair⟩
  rw [← hPair]
  constructor
  · simp
  · simpa using hi

/-
  A character of a part of the source that starts a match
  in place lies in place.
-/
theorem inPlace_of_match
    {rules : List Rule}
    {rule : Rule}
    (hRule : rule ∈ rules)
    {cs : List Char}
    {before part after : List Placed}
    (hSource : source cs = before ++ part ++ after)
    {piece : List Char}
    (hPiece :
      piece ∈ rule.form.matchesAt cs before.length)
    (hCovers : part.length ≤ piece.length)
    {x : Placed}
    (hMember : x ∈ part) :
    InPlace rules cs x.2 := by
  rcases bounds_of_mem_source hSource hMember with
    ⟨hLower, hUpper⟩
  refine ⟨rule, hRule, before.length, ?_, piece, hPiece, ?_⟩
  · rw [List.mem_range]
    omega
  · omega

/- The text at the place of a part of the source. -/
theorem take_and_drop_of_source
    {cs : List Char}
    {before rest : List Placed}
    (hSource : source cs = before ++ rest) :
    cs.take before.length = chars before ∧
      cs.drop before.length = chars rest := by
  have hText : cs = chars before ++ chars rest := by
    rw [← chars_source cs, hSource, chars_append]
  have hLength := length_chars before
  constructor
  · rw [hText, ← hLength, List.take_left']
    rfl
  · rw [hText, ← hLength, List.drop_left']
    rfl

------------------------------------------------------------
-- Occurrences
------------------------------------------------------------

/-
  A comment in a placed text, with the margins that go with
  it in front and behind.
-/
structure Occurrence where
  before : List Placed
  lead : List Placed
  comment : List Placed
  trail : List Placed
  after : List Placed

namespace Occurrence

/- The comment with its margins. -/
def piece (o : Occurrence) : List Placed :=
  o.lead ++ o.comment ++ o.trail

/- The text that a comment occurs in. -/
def text (o : Occurrence) : List Placed :=
  o.before ++ o.piece ++ o.after

/- A form finds the comment, and takes its margins along. -/
structure FoundBy
    (o : Occurrence)
    (form : Form) : Prop where
  comment_found :
    form.comment? (chars (o.comment ++ (o.trail ++ o.after))) =
      some (chars o.comment, chars (o.trail ++ o.after))
  piece_found :
    form.piece? (startsLine true (chars o.before))
        (chars (o.piece ++ o.after)) =
      some (chars o.piece, chars o.after)

/-
  The piece stands in the source with the same characters
  before it and behind it: no deletion has touched it.
-/
def Intact
    (o : Occurrence)
    (cs : List Char) : Prop :=
  ∃ before after,
    source cs = before ++ o.piece ++ after ∧
      before.getLast? = o.before.getLast? ∧
      after.head? = o.after.head?

end Occurrence

theorem getLast?_chars
    {xs ys : List Placed}
    (hLast : xs.getLast? = ys.getLast?) :
    (chars xs).getLast? = (chars ys).getLast? := by
  unfold chars
  rw [List.getLast?_map, List.getLast?_map, hLast]

theorem head?_chars
    {xs ys : List Placed}
    (hHead : xs.head? = ys.head?) :
    (chars xs).head? = (chars ys).head? := by
  unfold chars
  rw [List.head?_map, List.head?_map, hHead]

/-
  A piece that a form finds in a text is an occurrence of a
  comment.
-/
theorem exists_occurrence_of_piece?
    {form : Form}
    {before piece after : List Placed}
    (hPiece :
      form.piece? (startsLine true (chars before))
          (chars (piece ++ after)) =
        some (chars piece, chars after)) :
    ∃ o : Occurrence,
      o.before = before ∧
        o.piece = piece ∧
        o.after = after ∧
        o.FoundBy form := by
  rcases Form.piece?_eq_some hPiece with
    ⟨_, hWhole⟩ | hComment
  · rcases Form.wholeLine?_eq_some_iff.mp hWhole with
      ⟨indent, comment, trail, ending, hLine, hParts, _⟩
    rw [List.append_assoc] at hParts
    rcases exists_of_chars_eq_append hParts with
      ⟨front, trail', rfl, hFront, hTrail⟩
    rcases exists_of_chars_eq_append hFront with
      ⟨lead, comment', rfl, hLead, hComment⟩
    refine ⟨⟨before, lead, comment', trail', after⟩,
      rfl, rfl, rfl, ?_, hPiece⟩
    simp only [chars_append, hComment, hTrail]
    exact hLine.comment_found
  · refine ⟨⟨before, [], piece, [], after⟩,
      rfl, by simp [Occurrence.piece], rfl, ?_, ?_⟩
    · simpa using hComment
    · simpa [Occurrence.piece] using hPiece

end Directive

end BiomeMigration

------------------------------------------------------------
-- Deleted Characters
------------------------------------------------------------

namespace BiomeMigration

namespace Directive

namespace Occurrence

variable {o : Occurrence} {rule : Rule} {rules : List Rule}
variable {cs : List Char}

/-
  A comment whose characters are neighbours in the source is
  matched there, too.
-/
theorem inPlace_of_comment_infix
    (hRule : rule ∈ rules)
    (hWorded : rule.form.Worded)
    (hFound : o.FoundBy rule.form)
    (hInfix : o.comment <:+: source cs)
    {x : Placed}
    (hMember : x ∈ o.comment) :
    InPlace rules cs x.2 := by
  rcases hInfix with ⟨before, after, hSource⟩
  have hComment := hFound.comment_found
  rw [chars_append] at hComment
  rcases Form.comment?_extend hWorded hComment (chars after)
    with ⟨more, tail, _, hMore⟩
  have hDrop :=
    (take_and_drop_of_source
      (hSource.symm.trans (List.append_assoc _ _ _))).2
  have hMatch :
      chars o.comment ++ more ∈
        rule.form.matchesAt cs before.length := by
    unfold Form.matchesAt
    rw [hDrop, chars_append, hMore]
    simp
  exact inPlace_of_match hRule hSource.symm hMatch
    (by simp) hMember

/- A piece that no deletion has touched is matched in place. -/
theorem inPlace_of_intact
    (hRule : rule ∈ rules)
    (hWorded : rule.form.Worded)
    (hFound : o.FoundBy rule.form)
    (hIntact : o.Intact cs)
    {x : Placed}
    (hMember : x ∈ o.piece) :
    InPlace rules cs x.2 := by
  rcases hIntact with
    ⟨before, after, hSource, hBefore, hAfter⟩
  have hTexts := take_and_drop_of_source
    (hSource.trans (List.append_assoc _ _ _))
  have hStart :=
    startsLine_eq_of_getLast? true (getLast?_chars hBefore)
  have hHead := head?_chars hAfter
  have hMatch :
      chars o.piece ∈
        rule.form.matchesAt cs before.length := by
    unfold Form.matchesAt
    rw [hTexts.1, hTexts.2, hStart, chars_append]
    have hPiece := hFound.piece_found
    rw [chars_append] at hPiece
    rcases Form.piece?_eq_some hPiece with
      ⟨hLine, hWhole⟩ | hComment
    · rw [hLine,
        Form.wholeLine?_congr hWorded hWhole hHead]
      simp
    · rw [Form.comment?_congr hWorded hComment hHead]
      simp
  exact inPlace_of_match hRule hSource hMatch
    (by simp) hMember

end Occurrence

/-
  What the passes keep is the stripped text, in the order of
  the source. A character that is deleted lies in a match in
  place, or the pass that deletes it finds it in a piece
  that earlier deletions have shaped: the comment has
  characters that are no neighbours in the source, or the
  character belongs to the margins, and a deletion has
  touched the piece or its borders.
-/
theorem inPlace_or_assembled_of_deleted (cs : List Char) :
    chars (follow Rule.standard (source cs)) =
        (strip Rule.standard cs).text ∧
      (follow Rule.standard (source cs)).Sublist
        (source cs) ∧
      ∀ x ∈ source cs,
        x ∉ follow Rule.standard (source cs) →
          InPlace Rule.standard cs x.2 ∨
            ∃ earlier rule later, ∃ o : Occurrence,
              Rule.standard = earlier ++ rule :: later ∧
                o.text = follow earlier (source cs) ∧
                o.FoundBy rule.form ∧
                x ∈ o.piece ∧
                (∀ y ∈ o.piece, y ∉ rule.form.pass o.text) ∧
                (¬ o.comment <:+: source cs ∨
                  (x ∉ o.comment ∧ ¬ o.Intact cs)) := by
  refine ⟨?_, follow_sublist _ _, ?_⟩
  · rw [chars_follow, chars_source]
  · intro x hSource hGone
    rcases exists_pass_of_not_mem_follow hSource hGone with
      ⟨earlier, rule, later, hRules, hIn, hOut⟩
    have hNodup :=
      (nodup_source cs).sublist
        (follow_sublist earlier (source cs))
    rcases Form.exists_piece_of_not_mem_pass hNodup hIn hOut
      with ⟨before, piece, after, hText, hMember, hAll, hPiece⟩
    rcases exists_occurrence_of_piece? hPiece with
      ⟨o, rfl, rfl, rfl, hFound⟩
    have hRule : rule ∈ Rule.standard := by
      rw [hRules]
      simp
    have hWorded := Form.worded_of_mem_standard rule hRule
    by_cases hPlace : InPlace Rule.standard cs x.2
    · exact Or.inl hPlace
    · refine Or.inr ⟨earlier, rule, later, o, hRules,
        hText.symm, hFound, hMember, ?_, ?_⟩
      · unfold Occurrence.text
        rw [← hText]
        exact hAll
      · by_cases hInfix : o.comment <:+: source cs
        · refine Or.inr ⟨?_, ?_⟩
          · intro hComment
            exact hPlace
              (o.inPlace_of_comment_infix hRule hWorded
                hFound hInfix hComment)
          · intro hIntact
            exact hPlace
              (o.inPlace_of_intact hRule hWorded hFound
                hIntact hMember)
        · exact Or.inl hInfix

/-
  A comment inside the word of another one. The other one is
  no directive until the comment is gone.
-/
def splitWord : List Char :=
  "/* eslint-/* eslint-disable */enable code */".toList

/- Characters outside of all matches in place can be lost. -/
theorem not_outside_sublist_strip_splitWord :
    ¬ (chars (outside Rule.standard splitWord)).Sublist
        (strip Rule.standard splitWord).text := by
  decide +kernel

/- The code of the example is lost in an assembled comment. -/
theorem assembled_of_deleted_splitWord :
    ('c', 37) ∈ source splitWord ∧
      ('c', 37) ∉ follow Rule.standard (source splitWord) ∧
      ¬ InPlace Rule.standard splitWord 37 ∧
      ∃ earlier rule later, ∃ o : Occurrence,
        Rule.standard = earlier ++ rule :: later ∧
          o.text = follow earlier (source splitWord) ∧
          o.FoundBy rule.form ∧
          ('c', 37) ∈ o.piece ∧
          (∀ y ∈ o.piece, y ∉ rule.form.pass o.text) ∧
          (¬ o.comment <:+: source splitWord ∨
            (('c', 37) ∉ o.comment ∧
              ¬ o.Intact splitWord)) := by
  have hSource : ('c', 37) ∈ source splitWord := by
    decide +kernel
  have hGone :
      ('c', 37) ∉ follow Rule.standard (source splitWord) := by
    decide +kernel
  have hOutside : ¬ InPlace Rule.standard splitWord 37 := by
    decide +kernel
  refine ⟨hSource, hGone, hOutside, ?_⟩
  exact
    ((inPlace_or_assembled_of_deleted splitWord).2.2
      ('c', 37) hSource hGone).resolve_left hOutside

end Directive

end BiomeMigration
