import BiomeMigration.Proofs.Directive.Segmentation

/-
  The segments of a well-delimited script are in order: the
  state of a line follows its code and comments, and no
  directive comment comes on a line that one has taken.

  Main declarations:
    * `LineState.behindCode`
    * `Delimited`
    * `TakenApart`
    * `fits_segmentsFrom`
-/

------------------------------------------------------------
-- Lines of Code
------------------------------------------------------------

namespace BiomeMigration

namespace Directive

namespace LineState

/- The state behind a piece of code. -/
def behindCode
    (st : LineState)
    (code : List Char) : LineState :=
  code.foldl LineState.next st

@[simp] theorem behindCode_append
    (st : LineState)
    (as bs : List Char) :
    st.behindCode (as ++ bs) =
      (st.behindCode as).behindCode bs :=
  List.foldl_append

/- A line starts behind code if the state says so. -/
theorem startsLine_eq
    (st : LineState)
    (code : List Char) :
    startsLine (st == .start) code =
      (st.behindCode code == .start) := by
  induction code generalizing st with
  | nil => rfl
  | cons c code ih =>
      have hNext : (c == '\n') = (st.next c == .start) := by
        rw [Bool.eq_iff_iff, beq_iff_eq, beq_iff_eq,
          next_eq_start_iff]
      rw [startsLine, hNext, ih]
      rfl

theorem next_ne_blank
    {st : LineState}
    {c : Char}
    (hIndent : isIndent c = false) :
    st.next c ≠ .blank := by
  unfold next
  split
  · simp
  · split
    · simp
    · simp [hIndent]

theorem behind_ne_blank
    (st : LineState)
    (c : Comment) :
    st.behind c ≠ .blank := by
  unfold behind
  split
  · simp
  · split <;> simp

/- Code without a line feed stays on a taken line. -/
theorem behindCode_eq_taken
    {st : LineState}
    {code : List Char}
    (hTaken : st.behindCode code = .taken) :
    st = .taken ∧ '\n' ∉ code := by
  induction code generalizing st with
  | nil => exact ⟨hTaken, by simp⟩
  | cons c code ih =>
      rcases ih hTaken with ⟨hNext, hFeed⟩
      unfold next at hNext
      split at hNext
      · simp at hNext
      · next hOther =>
          split at hNext
          · next hState =>
              refine ⟨hState, ?_⟩
              simp [hFeed, Ne.symm hOther]
          · split at hNext
            · simp at hNext
            · simp at hNext

/- A comment without a line feed stays on a taken line. -/
theorem behind_eq_taken
    {st : LineState}
    {c : Comment}
    (hTaken : st.behind c = .taken) :
    st = .taken ∧ '\n' ∉ c.text := by
  unfold behind at hTaken
  split at hTaken
  · simp at hTaken
  · next hFeed =>
      split at hTaken
      · next hState => exact ⟨hState, hFeed⟩
      · simp at hTaken

/- A line that holds more than blanks is busy or taken. -/
def Filled (st : LineState) : Prop :=
  st = .busy ∨ st = .taken

/- Indentation keeps a line filled. -/
theorem Filled.behindCode
    {st : LineState}
    {code : List Char}
    (hFilled : st.Filled)
    (hIndent : ∀ c ∈ code, isIndent c = true) :
    (st.behindCode code).Filled := by
  induction code generalizing st with
  | nil => exact hFilled
  | cons c code ih =>
      apply ih _ (fun d hd => hIndent d (by simp [hd]))
      have hFeed : c ≠ '\n' := by
        rintro rfl
        have hFalse := hIndent '\n' (by simp)
        simp [isIndent] at hFalse
      rcases hFilled with rfl | rfl
      · exact Or.inl (by simp [next, hFeed])
      · exact Or.inr (by simp [next, hFeed])

/-
  A line that does not start before the indentation of some
  code is filled behind the code.
-/
theorem filled_behindCode
    {st : LineState}
    (hBlank : st ≠ .blank)
    {code : List Char}
    (hLine :
      startsLine (st == .start) (Place.beforeIndent code) =
        false) :
    (st.behindCode code).Filled := by
  rw [startsLine_eq] at hLine
  rw [← Place.beforeIndent_append_indentOf code,
    behindCode_append]
  apply Filled.behindCode
  · have hStart :
        st.behindCode (Place.beforeIndent code) ≠ .start := by
      simpa using hLine
    have hNotBlank :
        st.behindCode (Place.beforeIndent code) ≠ .blank := by
      rcases List.eq_nil_or_concat (Place.beforeIndent code)
        with hNil | ⟨lead, c, hLast⟩
      · rw [hNil]
        exact hBlank
      · have hEnd :
            (Place.beforeIndent code).getLast? = some c := by
          rw [hLast]
          simp
        have hIndent : isIndent c = false :=
          Place.getLast?_beforeIndent hEnd
        rw [hLast, List.concat_eq_append, behindCode_append]
        exact next_ne_blank hIndent
    unfold Filled
    cases hState : st.behindCode (Place.beforeIndent code)
      <;> simp_all
  · intro c hc
    exact Place.isIndent_of_mem_indentOf hc

end LineState

/- Code in front of segments. -/
theorem Fits.of_code
    {st : LineState}
    {code : List Char}
    {ts : List Segment}
    (hCode : '/' ∉ code)
    (hRest : Fits (st.behindCode code) ts) :
    Fits st (code.map .code ++ ts) := by
  induction code generalizing st with
  | nil => exact hRest
  | cons c code ih =>
      simp only [List.mem_cons, not_or] at hCode
      exact .code (Ne.symm hCode.1) (ih hCode.2 hRest)

end Directive

end BiomeMigration

------------------------------------------------------------
-- Well-Delimited Scripts
------------------------------------------------------------

namespace BiomeMigration

namespace Directive

theorem directivesOf_cons_of_pos
    {p : Place}
    (hDirective : p.comment.isDirective = true)
    (places : List Place) :
    directivesOf (p :: places) = p :: directivesOf places :=
  List.filter_cons_of_pos hDirective

theorem directivesOf_cons_of_neg
    {p : Place}
    (hDirective : p.comment.isDirective = false)
    (places : List Place) :
    directivesOf (p :: places) = directivesOf places :=
  List.filter_cons_of_neg (by simp [hDirective])

/-
  What a well-delimited script promises of the part behind
  some text: of a piece of code and what comes behind it.
-/
structure Delimited
    (front code : List Char)
    (rest : List (Comment × List Char)) : Prop where
  code_code : '/' ∉ code
  rest_code : ∀ entry ∈ rest, '/' ∉ entry.2
  comments :
    ∀ p ∈ placesFrom (front ++ code) rest,
      p.comment.Delimits p.after
  returns : ReturnsPaired (code ++ textOf rest)
  apart : Apart (directivesOf (placesFrom (front ++ code) rest))

theorem Script.WellDelimited.delimited
    {s : Script}
    (hScript : s.WellDelimited) :
    Delimited [] s.lead s.rest where
  code_code := hScript.lead_code
  rest_code := hScript.rest_code
  comments := hScript.comments
  returns := hScript.returns
  apart := hScript.lines

namespace Delimited

variable {front code next : List Char}
variable {c : Comment} {rest : List (Comment × List Char)}

/- The part behind the first comment. -/
theorem behind
    (hPart : Delimited front code ((c, next) :: rest)) :
    Delimited (front ++ code ++ c.text) next rest where
  code_code := hPart.rest_code (c, next) (by simp)
  rest_code := fun entry hEntry =>
    hPart.rest_code entry (by simp [hEntry])
  comments := fun p hp =>
    hPart.comments p (List.mem_cons_of_mem _ hp)
  returns := by
    have hReturns := hPart.returns
    rw [textOf_cons] at hReturns
    exact hReturns.of_append.of_append
  apart := by
    have hApart := hPart.apart
    rw [placesFrom] at hApart
    cases hDirective : c.isDirective with
    | true =>
        rw [directivesOf_cons_of_pos hDirective] at hApart
        exact hApart.of_cons
    | false =>
        rw [directivesOf_cons_of_neg hDirective] at hApart
        exact hApart

/- The part behind the beginning of the code. -/
theorem drop
    {part : List Char}
    (hPart : Delimited front (part ++ code) rest) :
    Delimited (front ++ part) code rest where
  code_code := fun hIn =>
    hPart.code_code (List.mem_append_right _ hIn)
  rest_code := hPart.rest_code
  comments := by
    rw [List.append_assoc]
    exact hPart.comments
  returns := by
    have hReturns := hPart.returns
    rw [List.append_assoc] at hReturns
    exact hReturns.of_append
  apart := by
    rw [List.append_assoc]
    exact hPart.apart

/- The first comment is delimited. -/
theorem delimits
    (hPart : Delimited front code ((c, next) :: rest)) :
    c.Delimits (next ++ textOf rest) :=
  hPart.comments _ List.mem_cons_self

/-
  No other directive comment touches the last line of the
  first comment, if that is one.
-/
theorem not_touches_lastLine
    (hPart : Delimited front code ((c, next) :: rest))
    (hDirective : c.isDirective = true) :
    ∀ q ∈ directivesOf
        (placesFrom (front ++ code ++ c.text ++ next) rest),
      ¬ q.Touches ((front ++ code ++ c.text).count '\n') := by
  have hApart := hPart.apart
  rw [placesFrom, directivesOf_cons_of_pos hDirective]
    at hApart
  intro q hq hTouches
  have hOther := (List.pairwise_cons.mp hApart).1 q hq
  apply hOther ((front ++ code ++ c.text).count '\n')
  exact ⟨⟨Place.firstLine_le_lastLine _, Nat.le_refl _⟩,
    hTouches⟩

end Delimited

/-
  No directive comment behind touches a line that is taken.
-/
def TakenApart
    (st : LineState)
    (front code : List Char)
    (rest : List (Comment × List Char)) : Prop :=
  st = .taken →
    ∀ q ∈ directivesOf (placesFrom (front ++ code) rest),
      ¬ q.Touches (front.count '\n')

/- A comment that is no directive keeps the lines apart. -/
theorem TakenApart.behind
    {st : LineState}
    {front code next : List Char}
    {c : Comment}
    {rest : List (Comment × List Char)}
    (hTaken : TakenApart st front code ((c, next) :: rest))
    (hDirective : c.isDirective = false) :
    TakenApart ((st.behindCode code).behind c)
      (front ++ code ++ c.text) next rest := by
  intro hBehind
  rcases LineState.behind_eq_taken hBehind with
    ⟨hBefore, hText⟩
  rcases LineState.behindCode_eq_taken hBefore with
    ⟨hState, hCode⟩
  have hOthers := hTaken hState
  rw [placesFrom, directivesOf_cons_of_neg hDirective]
    at hOthers
  have hCount :
      (front ++ code ++ c.text).count '\n' =
        front.count '\n' := by
    rw [List.count_append, List.count_append,
      List.count_eq_zero_of_not_mem hCode,
      List.count_eq_zero_of_not_mem hText]
    rfl
  rw [hCount]
  exact hOthers

/- A directive comment is not on a taken line. -/
theorem TakenApart.fresh
    {st : LineState}
    {front code next : List Char}
    {c : Comment}
    {rest : List (Comment × List Char)}
    (hTaken : TakenApart st front code ((c, next) :: rest))
    (hDirective : c.isDirective = true) :
    st.behindCode code ≠ .taken := by
  intro hBehind
  rcases LineState.behindCode_eq_taken hBehind with
    ⟨hState, hCode⟩
  have hFirst := hTaken hState
  rw [placesFrom, directivesOf_cons_of_pos hDirective]
    at hFirst
  apply hFirst _ List.mem_cons_self
  have hCount :
      (front ++ code).count '\n' = front.count '\n' := by
    rw [List.count_append,
      List.count_eq_zero_of_not_mem hCode]
    rfl
  constructor
  · exact Nat.le_of_eq hCount
  · exact hCount ▸ Place.firstLine_le_lastLine
      ⟨front ++ code, c, next ++ textOf rest⟩

/- A directive comment that is not alone shares its lines. -/
theorem LineState.shared_of_not_alone
    {st : LineState}
    {code after : List Char}
    (hBlank : st ≠ .blank)
    (hFresh : st.behindCode code ≠ .taken)
    (hShares :
      startsLine (st == .start) (Place.beforeIndent code) =
          true →
        Place.blankRest? after = none) :
    st.behindCode code = .busy ∨
      Place.blankRest? after = none := by
  cases hLine :
      startsLine (st == .start) (Place.beforeIndent code) with
  | true => exact Or.inr (hShares hLine)
  | false =>
      rcases LineState.filled_behindCode hBlank hLine with
        hBusy | hTaken
      · exact Or.inl hBusy
      · exact (hFresh hTaken).elim

/- The segments of a comment alone on its lines are in order. -/
theorem Alone.fits
    {st : LineState}
    {front code next : List Char}
    {c : Comment}
    {rest : List (Comment × List Char)}
    {blanks ending tail : List Char}
    (hAlone :
      Alone (st == .start) code c next rest blanks ending tail)
    (hPart : Delimited front code ((c, next) :: rest))
    (hRest : Fits .start (segmentsFrom true tail rest)) :
    Fits st
      ((Place.beforeIndent code).map .code ++
        .standalone (Place.indentOf code) c blanks ending ::
          segmentsFrom true tail rest) := by
  have hBehind := hPart.behind
  rw [hAlone.next_eq] at hBehind
  have hText :
      render (segmentsFrom true tail rest) =
        tail ++ textOf rest :=
    render_segmentsFrom hBehind.drop.returns
  have hStart :
      st.behindCode (Place.beforeIndent code) = .start := by
    have hLine := hAlone.line_start
    rw [LineState.startsLine_eq] at hLine
    simpa using hLine
  apply Fits.of_code
  · intro hIn
    apply hPart.code_code
    rw [← Place.beforeIndent_append_indentOf code]
    exact List.mem_append_left _ hIn
  · rw [hStart]
    refine .alone hAlone.directive ?_ ?_
      hAlone.blanks_indent ?_ hRest
    · intro d hd
      exact Place.isIndent_of_mem_indentOf hd
    · rw [hText, ← List.append_assoc, ← hAlone.next_eq]
      exact hPart.delimits
    · rcases hAlone.ending_eq with
        hFeed | hBoth | ⟨hNone, hNil, hEnd⟩
      · exact Or.inl hFeed
      · exact Or.inr (Or.inl hBoth)
      · rw [hNil, hEnd]
        exact Or.inr (Or.inr ⟨hNone, rfl⟩)

/- The segments of a delimited part are in order. -/
theorem fits_segmentsFrom
    {st : LineState}
    {front code : List Char}
    {rest : List (Comment × List Char)}
    (hPart : Delimited front code rest)
    (hBlank : st ≠ .blank)
    (hTaken : TakenApart st front code rest) :
    Fits st (segmentsFrom (st == .start) code rest) := by
  induction rest generalizing st front code with
  | nil =>
      have hFits := Fits.of_code hPart.code_code
        (.nil (st.behindCode code))
      rw [List.append_nil] at hFits
      exact hFits
  | cons entry rest ih =>
      rcases entry with ⟨c, next⟩
      have hBehind := hPart.behind
      have hDelimits := hPart.delimits
      rcases segmentsFrom_cons (st == .start) code c
          hBehind.returns with
        ⟨blanks, ending, tail, hAlone, hSegments⟩ |
        ⟨hShares, hSegments⟩
      · rw [hAlone.next_eq] at hBehind
        have hRest :
            Fits .start (segmentsFrom true tail rest) :=
          ih hBehind.drop (by simp)
            (fun hState => by simp at hState)
        rw [hSegments]
        exact hAlone.fits hPart hRest
      · rw [hSegments]
        apply Fits.of_code hPart.code_code
        have hText :
            render (segmentsFrom false next rest) =
              next ++ textOf rest :=
          render_segmentsFrom hBehind.returns
        rw [← hText] at hDelimits hShares
        cases hDirective : c.isDirective with
        | false =>
            have hState :
                ((st.behindCode code).behind c == .start) =
                  false := by
              simpa using LineState.behind_ne_start _ c
            have hRest := ih hBehind
              (LineState.behind_ne_blank _ c)
              (hTaken.behind hDirective)
            rw [hState] at hRest
            exact .plain hDirective hDelimits hRest
        | true =>
            have hTakenBehind :
                TakenApart .taken (front ++ code ++ c.text)
                  next rest :=
              fun _ => hPart.not_touches_lastLine hDirective
            have hRest := ih hBehind (by simp) hTakenBehind
            have hFresh := hTaken.fresh hDirective
            exact .shared hDirective hDelimits hFresh
              (LineState.shared_of_not_alone hBlank hFresh
                (hShares hDirective))
              hRest

end Directive

end BiomeMigration
