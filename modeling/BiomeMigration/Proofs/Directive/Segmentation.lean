import BiomeMigration.Proofs.Directive.Passes

/-
  The segments of a script: a directive comment that is
  alone on its lines makes one segment with them.

  Main declarations:
    * `segmentsFrom`
    * `segmentsFrom_cons`
    * `Script.segments`
    * `render_segmentsFrom`
-/

------------------------------------------------------------
-- Segments of a Script
------------------------------------------------------------

namespace BiomeMigration

namespace Directive

/-
  What a directive comment takes along of the code behind
  it if it is alone on its lines. A line starts before the
  code in front of it or not.
-/
def wholeTrail?
    (lineStart : Bool)
    (code : List Char)
    (c : Comment)
    (after : List Char) : Option (List Char) :=
  if c.isDirective && startsLine lineStart
      (Place.beforeIndent code) then
    Place.blankRest? after
  else none

/-
  The segments of a piece of code, and of the comments and
  the code behind it.
-/
def segmentsFrom
    (lineStart : Bool)
    (code : List Char) :
    List (Comment × List Char) → List Segment
  | [] => code.map .code
  | (c, next) :: rest =>
      match wholeTrail? lineStart code c
          (next ++ textOf rest) with
      | some trail =>
          let (blanks, ending) := run isIndent trail
          (Place.beforeIndent code).map .code ++
            .standalone (Place.indentOf code) c blanks
                ending ::
              segmentsFrom true (next.drop trail.length) rest
      | none =>
          code.map .code ++
            .inline c :: segmentsFrom false next rest

/- The segments of a script. -/
def Script.segments (s : Script) : List Segment :=
  segmentsFrom true s.lead s.rest

------------------------------------------------------------
-- Margins of Code
------------------------------------------------------------

theorem ReturnsPaired.of_append
    {as bs : List Char}
    (hReturns : ReturnsPaired (as ++ bs)) :
    ReturnsPaired bs := by
  intro before after hText
  apply hReturns (as ++ before)
  rw [hText, List.append_assoc]

namespace Place

theorem beforeIndent_append_indentOf (code : List Char) :
    beforeIndent code ++ indentOf code = code := by
  unfold beforeIndent indentOf
  rw [← List.reverse_append, run_append, List.reverse_reverse]

theorem isIndent_of_mem_indentOf
    {code : List Char}
    {c : Char}
    (hMember : c ∈ indentOf code) :
    isIndent c = true := by
  unfold indentOf at hMember
  rw [List.mem_reverse] at hMember
  exact of_mem_run hMember

/- No indentation comes before the indentation. -/
theorem getLast?_beforeIndent
    {code : List Char}
    {c : Char}
    (hLast : (beforeIndent code).getLast? = some c) :
    isIndent c = false := by
  unfold beforeIndent at hLast
  rw [List.getLast?_reverse] at hLast
  rcases List.head?_eq_some_iff.mp hLast with ⟨tail, hTail⟩
  exact head_rest_of_run hTail

/-
  The indentation that a text ends with is that of its last
  piece of code, if what comes before it ends otherwise or
  the code is more than indentation.
-/
theorem margin_append
    {front code : List Char}
    (hSeam :
      (∀ c ∈ front.getLast?, isIndent c = false) ∨
        beforeIndent code ≠ []) :
    indentOf (front ++ code) = indentOf code ∧
      beforeIndent (front ++ code) =
        front ++ beforeIndent code := by
  have hRun :
      run isIndent (front ++ code).reverse =
        ((indentOf code).reverse,
          (front ++ beforeIndent code).reverse) := by
    apply run_eq_iff.mpr
    refine ⟨?_, ?_, ?_⟩
    · rw [← List.reverse_append, List.append_assoc,
        beforeIndent_append_indentOf]
    · intro c hc
      exact isIndent_of_mem_indentOf (List.mem_reverse.mp hc)
    · intro c hc
      rw [List.head?_reverse, List.getLast?_append] at hc
      cases hLast : (beforeIndent code).getLast? with
      | some d =>
          rw [hLast] at hc
          have hEq : d = c := by simpa using hc
          rw [← hEq]
          exact getLast?_beforeIndent hLast
      | none =>
          rw [hLast] at hc
          rcases hSeam with hFront | hCode
          · exact hFront c (by simpa using hc)
          · exact (hCode (List.getLast?_eq_none_iff.mp hLast)).elim
  constructor
  · rw [indentOf, hRun, List.reverse_reverse]
  · rw [beforeIndent, hRun, List.reverse_reverse]

/- The line breaks that a text can start with. -/
theorem lineBreak?_cases
    {cs ending back : List Char}
    (hBreak : lineBreak? cs = some (ending, back)) :
    ending = ['\n'] ∨ ending = ['\r', '\n'] ∨
      (ending = ['\r'] ∧ back.head? ≠ some '\n') ∨
      (ending = [] ∧ back = []) := by
  unfold lineBreak? at hBreak
  split at hBreak
  · simp_all
  · simp_all
  · next rest hOther =>
      simp only [Option.some.injEq, Prod.mk.injEq] at hBreak
      rcases hBreak with ⟨rfl, rfl⟩
      refine Or.inr (Or.inr (Or.inl ⟨rfl, ?_⟩))
      intro hFeed
      rcases List.head?_eq_some_iff.mp hFeed with ⟨tail, rfl⟩
      exact hOther tail rfl
  · simp_all
  · simp at hBreak

/-
  The blank rest of a line is spaces and tabs and a line
  break, or the end of the text.
-/
theorem exists_of_blankRest?
    {after trail : List Char}
    (hTrail : blankRest? after = some trail)
    (hReturns : ReturnsPaired after) :
    ∃ blanks ending back,
      after = blanks ++ ending ++ back ∧
        trail = blanks ++ ending ∧
        run isIndent trail = (blanks, ending) ∧
        (∀ d ∈ blanks, isIndent d = true) ∧
        (ending = ['\n'] ∨ ending = ['\r', '\n'] ∨
          (ending = [] ∧ back = [])) := by
  unfold blankRest? at hTrail
  cases hRun : run isIndent after with
  | mk blanks line =>
      rw [hRun] at hTrail
      rcases Option.map_eq_some_iff.mp hTrail with
        ⟨⟨ending, back⟩, hBreak, hEq⟩
      have hLine := append_of_lineBreak? hBreak
      rcases run_eq_iff.mp hRun with ⟨hAfter, hBlanks, _⟩
      have hText : after = blanks ++ ending ++ back := by
        rw [hAfter, hLine, List.append_assoc]
      have hEnding :
          ending = ['\n'] ∨ ending = ['\r', '\n'] ∨
            (ending = [] ∧ back = []) := by
        rcases lineBreak?_cases hBreak with
          hFeed | hBoth | ⟨hReturn, hOther⟩ | hEnd
        · exact Or.inl hFeed
        · exact Or.inr (Or.inl hBoth)
        · exfalso
          apply hOther
          apply hReturns blanks
          rw [hText, hReturn]
          simp
        · exact Or.inr (Or.inr hEnd)
      refine ⟨blanks, ending, back, hText, hEq.symm, ?_,
        hBlanks, hEnding⟩
      apply run_eq_iff.mpr
      refine ⟨hEq.symm, hBlanks, ?_⟩
      rcases hEnding with rfl | rfl | ⟨rfl, _⟩
      · simp [isIndent]
      · simp [isIndent]
      · simp

end Place

------------------------------------------------------------
-- Comments Alone on Their Lines
------------------------------------------------------------

variable {lineStart : Bool} {code next : List Char}
variable {c : Comment} {rest : List (Comment × List Char)}

@[simp] theorem textOf_nil : textOf [] = [] :=
  rfl

@[simp] theorem textOf_cons
    (c : Comment)
    (code : List Char)
    (rest : List (Comment × List Char)) :
    textOf ((c, code) :: rest) =
      c.text ++ (code ++ textOf rest) := by
  simp [textOf]

/- What comes behind a piece of code starts with a slash. -/
theorem slash_mem_of_textOf_eq_append
    {front back : List Char}
    (hText : textOf rest = front ++ back)
    (hFront : front ≠ []) :
    '/' ∈ front := by
  cases rest with
  | nil => simp_all
  | cons entry rest =>
      rcases entry with ⟨c, code⟩
      rcases c.exists_text_eq with ⟨d, tail, hComment, _⟩
      cases front with
      | nil => exact (hFront rfl).elim
      | cons e front =>
          rw [textOf_cons, hComment] at hText
          have hEq : '/' = e := (List.cons.inj hText).1
          rw [← hEq]
          simp

/-
  A directive comment is alone on its lines: only blanks
  come before it and behind it, which end with the line.
-/
structure Alone
    (lineStart : Bool)
    (code : List Char)
    (c : Comment)
    (next : List Char)
    (rest : List (Comment × List Char))
    (blanks ending tail : List Char) : Prop where
  directive : c.isDirective = true
  line_start :
    startsLine lineStart (Place.beforeIndent code) = true
  next_eq : next = blanks ++ ending ++ tail
  trail_eq :
    Place.blankRest? (next ++ textOf rest) =
      some (blanks ++ ending)
  blanks_indent : ∀ d ∈ blanks, isIndent d = true
  ending_eq :
    ending = ['\n'] ∨ ending = ['\r', '\n'] ∨
      (ending = [] ∧ tail = [] ∧ rest = [])

/- A trail is a part of the code behind its comment. -/
theorem alone_of_wholeTrail?
    {trail : List Char}
    (hTrail :
      wholeTrail? lineStart code c (next ++ textOf rest) =
        some trail)
    (hReturns : ReturnsPaired (next ++ textOf rest)) :
    ∃ blanks ending tail,
      Alone lineStart code c next rest blanks ending tail ∧
        trail = blanks ++ ending ∧
        run isIndent trail = (blanks, ending) := by
  unfold wholeTrail? at hTrail
  split at hTrail
  · next hAlone =>
      rw [Bool.and_eq_true] at hAlone
      rcases Place.exists_of_blankRest? hTrail hReturns with
        ⟨blanks, ending, back, hText, hParts, hRun, hBlanks,
          hEnding⟩
      have hSlash : '/' ∉ blanks ++ ending := by
        intro hIn
        rcases List.mem_append.mp hIn with hIn | hIn
        · have hFalse := hBlanks _ hIn
          simp [isIndent] at hFalse
        · rcases hEnding with rfl | rfl | ⟨rfl, _⟩
          · simp at hIn
          · simp at hIn
          · simp at hIn
      have hNext :
          ∃ tail,
            next = blanks ++ ending ++ tail ∧
              back = tail ++ textOf rest := by
        rcases List.append_eq_append_iff.mp hText with
          ⟨beyond, hOver, hBack⟩ | ⟨beyond, hOver, hBack⟩
        · by_cases hNil : beyond = []
          · rw [hNil, List.append_nil] at hOver
            rw [hNil, List.nil_append] at hBack
            exact ⟨[], by rw [hOver, List.append_nil],
              by rw [hBack, List.nil_append]⟩
          · have hIn :=
              slash_mem_of_textOf_eq_append hBack hNil
            exact (hSlash (by rw [hOver]; simp [hIn])).elim
        · exact ⟨beyond, hOver, hBack⟩
      rcases hNext with ⟨tail, hNext, hBack⟩
      refine ⟨blanks, ending, tail, ?_, hParts, hRun⟩
      refine ⟨hAlone.1, hAlone.2, hNext, by rw [hTrail, hParts],
        hBlanks, ?_⟩
      rcases hEnding with hFeed | hBoth | ⟨hNone, hEnd⟩
      · exact Or.inl hFeed
      · exact Or.inr (Or.inl hBoth)
      · rw [hEnd] at hBack
        have hParts := List.append_eq_nil_iff.mp hBack.symm
        refine Or.inr (Or.inr ⟨hNone, hParts.1, ?_⟩)
        cases rest with
        | nil => rfl
        | cons entry rest =>
            have hText := hParts.2
            rcases entry with ⟨d, behind⟩
            rcases d.exists_text_eq with ⟨e, more, hEq, _⟩
            rw [textOf_cons, hEq] at hText
            simp at hText
  · simp at hTrail

/-
  The first comment makes a segment with its line if it is a
  directive comment alone on its lines, else one without.
-/
theorem segmentsFrom_cons
    (lineStart : Bool)
    (code : List Char)
    (c : Comment)
    (hReturns : ReturnsPaired (next ++ textOf rest)) :
    (∃ blanks ending tail,
      Alone lineStart code c next rest blanks ending tail ∧
        segmentsFrom lineStart code ((c, next) :: rest) =
          (Place.beforeIndent code).map .code ++
            .standalone (Place.indentOf code) c blanks
                ending ::
              segmentsFrom true tail rest) ∨
      (c.isDirective = true →
          startsLine lineStart (Place.beforeIndent code) =
              true →
            Place.blankRest? (next ++ textOf rest) = none) ∧
        segmentsFrom lineStart code ((c, next) :: rest) =
          code.map .code ++
            .inline c :: segmentsFrom false next rest := by
  cases hTrail :
      wholeTrail? lineStart code c (next ++ textOf rest) with
  | some trail =>
      rcases alone_of_wholeTrail? hTrail hReturns with
        ⟨blanks, ending, tail, hAlone, hParts, hRun⟩
      have hTail : next.drop trail.length = tail := by
        rw [hAlone.next_eq, hParts, List.drop_left]
      refine Or.inl ⟨blanks, ending, tail, hAlone, ?_⟩
      rw [segmentsFrom, hTrail]
      simp only [hRun, hTail]
  | none =>
      refine Or.inr ⟨?_, by rw [segmentsFrom, hTrail]⟩
      intro hDirective hLine
      unfold wholeTrail? at hTrail
      rw [hDirective, hLine] at hTrail
      exact hTrail

/- The segments of a script make up its text. -/
theorem render_segmentsFrom
    (hReturns : ReturnsPaired (code ++ textOf rest)) :
    render (segmentsFrom lineStart code rest) =
      code ++ textOf rest := by
  induction rest generalizing lineStart code with
  | nil => simp [segmentsFrom]
  | cons entry rest ih =>
      rcases entry with ⟨c, next⟩
      rw [textOf_cons] at hReturns ⊢
      have hBehind : ReturnsPaired (next ++ textOf rest) :=
        hReturns.of_append.of_append
      rcases segmentsFrom_cons lineStart code c hBehind with
        ⟨blanks, ending, tail, hAlone, hSegments⟩ |
        ⟨_, hSegments⟩
      · have hTail : ReturnsPaired (tail ++ textOf rest) := by
          rw [hAlone.next_eq, List.append_assoc] at hBehind
          exact hBehind.of_append
        rw [hSegments, render_append, render_map_code,
          render_cons, ih hTail, hAlone.next_eq]
        conv_rhs =>
          rw [← Place.beforeIndent_append_indentOf code]
        simp [Segment.text]
      · rw [hSegments, render_append, render_map_code,
          render_cons, ih hBehind]
        rfl

end Directive

end BiomeMigration
