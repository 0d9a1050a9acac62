import BiomeMigration.Proofs.Directive.WellDelimited

/-
  Stripping a well-delimited source text: the passes leave
  the text without what its directive comments take along,
  count each of them once, and leave nothing to a second
  run.

  Main declarations:
    * `spansFrom`
    * `chars_filter_spans`
    * `extents_placesFrom`
    * `strip_eq_cleaned`
-/

------------------------------------------------------------
-- Spans of Segments
------------------------------------------------------------

namespace BiomeMigration

namespace Directive

/-
  Where the segments with a directive comment start and end,
  if the first of the segments starts at a given place.
-/
def spansFrom (n : Nat) : List Segment → List (Nat × Nat)
  | [] => []
  | s :: ts =>
      let spans := spansFrom (n + s.text.length) ts
      if s.isDirective then (n, n + s.text.length) :: spans
      else spans

/- A place lies in one of some spans. -/
def InSpans
    (spans : List (Nat × Nat))
    (i : Nat) : Prop :=
  ∃ span ∈ spans, span.1 ≤ i ∧ i < span.2

instance (spans : List (Nat × Nat)) (i : Nat) :
    Decidable (InSpans spans i) :=
  inferInstanceAs
    (Decidable (∃ span ∈ spans, span.1 ≤ i ∧ i < span.2))

/- Code has no span. -/
@[simp] theorem spansFrom_code
    (n : Nat)
    (cs : List Char)
    (ts : List Segment) :
    spansFrom n (cs.map .code ++ ts) =
      spansFrom (n + cs.length) ts := by
  induction cs generalizing n with
  | nil => rfl
  | cons c cs ih =>
      have hStep :
          spansFrom n ((c :: cs).map .code ++ ts) =
            spansFrom (n + 1) (cs.map .code ++ ts) := rfl
      rw [hStep, ih, List.length_cons]
      congr 1
      omega

theorem le_of_inSpans
    {n i : Nat}
    {ts : List Segment}
    (hSpans : InSpans (spansFrom n ts) i) :
    n ≤ i := by
  induction ts generalizing n with
  | nil =>
      rcases hSpans with ⟨span, hMember, _⟩
      simp [spansFrom] at hMember
  | cons s ts ih =>
      rcases hSpans with ⟨span, hMember, hLow, hHigh⟩
      unfold spansFrom at hMember
      split at hMember
      · rcases List.mem_cons.mp hMember with rfl | hMember
        · exact hLow
        · have hLe := ih ⟨span, hMember, hLow, hHigh⟩
          omega
      · have hLe := ih ⟨span, hMember, hLow, hHigh⟩
        omega

/- A place behind a segment is in the spans behind it. -/
theorem inSpans_cons_iff
    {n i : Nat}
    {s : Segment}
    {ts : List Segment} :
    InSpans (spansFrom n (s :: ts)) i ↔
      (s.isDirective = true ∧ n ≤ i ∧
          i < n + s.text.length) ∨
        InSpans (spansFrom (n + s.text.length) ts) i := by
  unfold InSpans
  rw [spansFrom]
  cases hDirective : s.isDirective with
  | true => simp
  | false => simp

/- As many spans as segments with a directive comment. -/
theorem length_spansFrom
    (n : Nat)
    (ts : List Segment) :
    (spansFrom n ts).length = ts.countP (·.isDirective) := by
  induction ts generalizing n with
  | nil => rfl
  | cons s ts ih =>
      rw [spansFrom]
      cases hDirective : s.isDirective with
      | true =>
          rw [List.countP_cons_of_pos hDirective, if_pos rfl,
            List.length_cons, ih]
      | false =>
          rw [List.countP_cons_of_neg (by simp [hDirective]),
            if_neg (by simp), ih]

/- Characters behind a segment are in the spans behind it. -/
theorem filter_spans_behind
    (n : Nat)
    (s : Segment)
    (ts : List Segment)
    (cs : List Char) :
    ((cs.zipIdx (n + s.text.length)).filter fun x =>
        ¬ InSpans (spansFrom n (s :: ts)) x.2) =
      (cs.zipIdx (n + s.text.length)).filter fun x =>
        ¬ InSpans (spansFrom (n + s.text.length) ts) x.2 := by
  apply List.filter_congr
  rintro ⟨c, i⟩ hMember
  have hLow := List.le_snd_of_mem_zipIdx hMember
  have hIff :
      InSpans (spansFrom n (s :: ts)) i ↔
        InSpans (spansFrom (n + s.text.length) ts) i := by
    rw [inSpans_cons_iff]
    constructor
    · rintro (⟨_, _, hHigh⟩ | hIn)
      · simp only at hLow
        omega
      · exact hIn
    · exact Or.inr
  simp [hIff]

/- A segment with a directive comment lies in its span. -/
theorem filter_spans_of_directive
    (n : Nat)
    {s : Segment}
    (hDirective : s.isDirective = true)
    (ts : List Segment) :
    ((s.text.zipIdx n).filter fun x =>
      ¬ InSpans (spansFrom n (s :: ts)) x.2) = [] := by
  apply List.filter_eq_nil_iff.mpr
  intro x hMember
  have hLow := List.le_snd_of_mem_zipIdx hMember
  have hHigh := List.snd_lt_add_of_mem_zipIdx hMember
  have hIn : InSpans (spansFrom n (s :: ts)) x.2 :=
    inSpans_cons_iff.mpr
      (Or.inl ⟨hDirective, hLow, by omega⟩)
  simp [hIn]

/- Any other segment lies in no span. -/
theorem filter_spans_of_not_directive
    (n : Nat)
    {s : Segment}
    (hDirective : s.isDirective = false)
    (ts : List Segment) :
    ((s.text.zipIdx n).filter fun x =>
        ¬ InSpans (spansFrom n (s :: ts)) x.2) =
      s.text.zipIdx n := by
  apply List.filter_eq_self.mpr
  intro x hMember
  have hHigh := List.snd_lt_add_of_mem_zipIdx hMember
  have hOut : ¬ InSpans (spansFrom n (s :: ts)) x.2 := by
    rw [inSpans_cons_iff]
    rintro (⟨hFalse, _⟩ | hIn)
    · rw [hDirective] at hFalse
      simp at hFalse
    · have hLow := le_of_inSpans hIn
      omega
  simp [hOut]

/-
  The characters outside of the spans are those of the
  segments without a directive comment.
-/
theorem chars_filter_spans
    (n : Nat)
    (ts : List Segment) :
    chars
        (((render ts).zipIdx n).filter fun x =>
          ¬ InSpans (spansFrom n ts) x.2) =
      render (ts.filter fun s => !s.isDirective) := by
  induction ts generalizing n with
  | nil => rfl
  | cons s ts ih =>
      rw [render_cons, List.zipIdx_append, List.filter_append,
        chars_append, filter_spans_behind, ih]
      cases hDirective : s.isDirective with
      | true =>
          rw [List.filter_cons_of_neg (by simp [hDirective]),
            filter_spans_of_directive n hDirective]
          rfl
      | false =>
          have hChars : chars (s.text.zipIdx n) = s.text :=
            List.zipIdx_map_fst n s.text
          rw [List.filter_cons_of_pos (by simp [hDirective]),
            filter_spans_of_not_directive n hDirective, hChars,
            render_cons]

end Directive

end BiomeMigration

------------------------------------------------------------
-- Extents of Comments
------------------------------------------------------------

namespace BiomeMigration

namespace Directive

/-
  Where a piece of code meets the text in front of it, it is
  known whether a line starts, and the text does not end
  with indentation that would go on in the code.
-/
structure Seam
    (lineStart : Bool)
    (front code : List Char) : Prop where
  line : startsLine true front = lineStart
  margin :
    (∀ c ∈ front.getLast?, isIndent c = false) ∨
      Place.beforeIndent code ≠ []

variable {lineStart : Bool}
variable {front code next : List Char} {c : Comment}
variable {rest : List (Comment × List Char)}

theorem Seam.startsLine_eq
    (hSeam : Seam lineStart front code) :
    startsLine true (Place.beforeIndent (front ++ code)) =
      startsLine lineStart (Place.beforeIndent code) := by
  rw [(Place.margin_append hSeam.margin).2, startsLine_append,
    hSeam.line]

/- The extent of a comment alone on its lines. -/
theorem Seam.extent_of_alone
    {blanks ending tail : List Char}
    (hSeam : Seam lineStart front code)
    (hAlone :
      Alone lineStart code c next rest blanks ending tail) :
    Place.extent ⟨front ++ code, c, next ++ textOf rest⟩ =
      (front.length + (Place.beforeIndent code).length,
        front.length + (Place.beforeIndent code).length +
          (Segment.standalone (Place.indentOf code) c blanks
            ending).text.length) := by
  have hMargins :
      Place.margins ⟨front ++ code, c, next ++ textOf rest⟩ =
        (Place.indentOf code, blanks ++ ending) := by
    unfold Place.margins
    simp only [hAlone.trail_eq, hSeam.startsLine_eq,
      hAlone.line_start, if_pos,
      (Place.margin_append hSeam.margin).1]
  have hCode :=
    congrArg List.length
      (Place.beforeIndent_append_indentOf code)
  rw [List.length_append] at hCode
  unfold Place.extent
  rw [hMargins]
  simp only [Segment.text, List.length_append]
  congr 1
  · omega
  · omega

/- The extent of a comment that shares its lines. -/
theorem Seam.extent_of_shared
    (hSeam : Seam lineStart front code)
    (hShares :
      startsLine lineStart (Place.beforeIndent code) =
          true →
        Place.blankRest? (next ++ textOf rest) = none) :
    Place.extent ⟨front ++ code, c, next ++ textOf rest⟩ =
      ((front ++ code).length,
        (front ++ code).length + c.text.length) := by
  have hMargins :
      Place.margins ⟨front ++ code, c, next ++ textOf rest⟩ =
        ([], []) := by
    unfold Place.margins
    cases hTrail : Place.blankRest? (next ++ textOf rest) with
    | none => rfl
    | some trail =>
        cases hLine :
            startsLine lineStart (Place.beforeIndent code) with
        | true =>
            rw [hShares hLine] at hTrail
            simp at hTrail
        | false =>
            simp only [hSeam.startsLine_eq, hLine]
            rfl
  unfold Place.extent
  rw [hMargins]
  rfl

/- The seam behind a comment that another one follows. -/
theorem Delimited.seam_behind
    (hPart : Delimited front code ((c, next) :: rest))
    (hRest : rest ≠ []) :
    Seam false (front ++ code ++ c.text) next := by
  have hDelimits := hPart.delimits
  constructor
  · rw [startsLine_append]
    exact Comment.startsLine_text hDelimits _
  · cases c with
    | block body =>
        left
        intro d hd
        have hText :
            front ++ code ++ (Comment.block body).text =
              front ++ code ++ '/' :: '*' :: (body ++ ['*']) ++
                ['/'] := by
          simp [Comment.text]
        rw [hText, List.getLast?_concat] at hd
        rw [← Option.some.inj hd]
        decide
    | line body =>
        right
        intro hNil
        rcases hDelimits with ⟨_, _, _, _, _, hEnds⟩
        have hIndent : ∀ d ∈ next, isIndent d = true := by
          intro d hd
          rw [← Place.beforeIndent_append_indentOf next, hNil]
            at hd
          exact Place.isIndent_of_mem_indentOf hd
        cases next with
        | nil =>
            cases rest with
            | nil => exact hRest rfl
            | cons entry rest =>
                rcases entry with ⟨e, code⟩
                rw [textOf_cons] at hEnds
                exact e.not_endsLine_text _ hEnds
        | cons d next =>
            exact not_endsLine_of_isIndent
              (hIndent d (by simp)) _ hEnds

/- The seam behind the line of a comment alone on it. -/
theorem Alone.seam_behind
    {blanks ending tail : List Char}
    (hAlone :
      Alone lineStart code c next rest blanks ending tail)
    (hRest : rest ≠ []) :
    Seam true (front ++ (blanks ++ ending)) tail := by
  rcases hAlone.ending_eq with rfl | rfl | ⟨_, _, hNil⟩
  · exact ⟨by simp [startsLine], Or.inl (by simp [isIndent])⟩
  · exact ⟨by simp [startsLine], Or.inl (by simp [isIndent])⟩
  · exact (hRest hNil).elim

/-
  The extents of the directive comments are the spans of the
  segments that have one.
-/
theorem extents_placesFrom
    (hPart : Delimited front code rest)
    (hSeam : rest ≠ [] → Seam lineStart front code) :
    (directivesOf (placesFrom (front ++ code) rest)).map
        Place.extent =
      spansFrom front.length
        (segmentsFrom lineStart code rest) := by
  induction rest generalizing lineStart front code with
  | nil =>
      have hCode := spansFrom_code front.length code []
      rw [List.append_nil] at hCode
      rw [segmentsFrom, hCode]
      rfl
  | cons entry rest ih =>
      rcases entry with ⟨c, next⟩
      have hBehind := hPart.behind
      have hHere := hSeam (by simp)
      rcases segmentsFrom_cons lineStart code c
          hBehind.returns with
        ⟨blanks, ending, tail, hAlone, hSegments⟩ |
        ⟨hShares, hSegments⟩
      · have hRest := ih
          (by
            have hTail := hBehind
            rw [hAlone.next_eq] at hTail
            exact hTail.drop)
          hAlone.seam_behind
        rw [List.append_assoc, ← hAlone.next_eq] at hRest
        rw [placesFrom,
          directivesOf_cons_of_pos hAlone.directive,
          List.map_cons, hHere.extent_of_alone hAlone, hRest,
          hSegments, spansFrom_code, spansFrom]
        simp only [Segment.isDirective, hAlone.directive,
          if_pos]
        congr 2
        have hCode :=
          congrArg List.length
            (Place.beforeIndent_append_indentOf code)
        rw [List.length_append] at hCode
        simp only [Segment.text, List.length_append]
        omega
      · have hRest := ih hBehind hPart.seam_behind
        rw [hSegments, spansFrom_code, spansFrom, placesFrom]
        have hLength :
            (front ++ code ++ c.text).length =
              front.length + code.length +
                (Segment.inline c).text.length := by
          simp [Segment.text, Nat.add_assoc]
        rw [hLength] at hRest
        cases hDirective : c.isDirective with
        | false =>
            rw [directivesOf_cons_of_neg hDirective, hRest]
            simp only [Segment.isDirective, hDirective]
            rfl
        | true =>
            rw [directivesOf_cons_of_pos hDirective,
              List.map_cons, hRest,
              hHere.extent_of_shared (hShares hDirective)]
            simp only [Segment.isDirective, hDirective, if_pos,
              List.length_append]
            rfl

end Directive

end BiomeMigration

------------------------------------------------------------
-- Exactness
------------------------------------------------------------

namespace BiomeMigration

namespace Directive

namespace Script.WellDelimited

variable {s : Script}

theorem render_segments
    (hScript : s.WellDelimited) :
    render s.segments = s.text :=
  render_segmentsFrom hScript.returns

theorem fits_segments
    (hScript : s.WellDelimited) :
    Fits .start s.segments :=
  fits_segmentsFrom hScript.delimited (by simp)
    (fun hState => by simp at hState)

theorem spans_segments
    (hScript : s.WellDelimited) :
    s.directives.map Place.extent = spansFrom 0 s.segments :=
  extents_placesFrom hScript.delimited
    (fun _ => ⟨rfl, Or.inl (by simp)⟩)

/- The segments without a directive comment are what stays. -/
theorem render_kept
    (hScript : s.WellDelimited) :
    render (s.segments.filter fun x => !x.isDirective) =
      s.cleaned := by
  rw [← chars_filter_spans 0, hScript.render_segments,
    ← hScript.spans_segments]
  unfold Script.cleaned source
  congr 1
  apply List.filter_congr
  intro x _
  have hIff :
      InSpans (s.directives.map Place.extent) x.2 ↔
        s.Removes x.2 := by
    unfold InSpans Script.Removes Place.Covers
    simp
  simp [hIff]

theorem length_directives
    (hScript : s.WellDelimited) :
    s.directives.length =
      s.segments.countP (·.isDirective) := by
  rw [← length_spansFrom 0, ← hScript.spans_segments,
    List.length_map]

end Script.WellDelimited

/- The standard passes over segments that fit. -/
theorem strip_standard_render
    {ts : List Segment}
    (hFits : Fits .start ts) :
    (strip Rule.standard (render ts)).text =
        render (ts.filter fun s => !s.isDirective) ∧
      (strip Rule.standard (render ts)).removed =
        ts.countP (·.isDirective) := by
  have hStrip := strip_render (List.Subset.refl _) hFits
  simp only [Segment.takenByOne_standard] at hStrip
  exact hStrip

/-
  On a well-delimited source text the passes leave the text
  without its directive comments and what these take along,
  they count each directive comment once, and a second run
  removes nothing.
-/
theorem strip_eq_cleaned
    {s : Script}
    (hScript : s.WellDelimited) :
    (strip Rule.standard s.text).text = s.cleaned ∧
      (strip Rule.standard s.text).removed =
        s.directives.length ∧
      (strip Rule.standard
          (strip Rule.standard s.text).text).removed = 0 := by
  have hFits := hScript.fits_segments
  rcases strip_standard_render hFits with ⟨hText, hCount⟩
  rw [hScript.render_segments] at hText hCount
  refine ⟨?_, ?_, ?_⟩
  · rw [hText, hScript.render_kept]
  · rw [hCount, hScript.length_directives]
  · have hKept :
        Fits .start (s.segments.filter fun x => !x.isDirective) :=
      hFits.filter (by simp)
    rw [hText, (strip_standard_render hKept).2,
      List.countP_eq_zero]
    intro x hx
    simpa using (List.mem_filter.mp hx).2

/-
  A script with a directive comment over two lines and one
  at the end of the text, both alone, and with two that
  share their lines.
-/
def mixedScript : Script where
  lead := "a\r\n  ".toList
  rest :=
    [(.block " eslint-disable\r\n x ".toList,
        " \t\r\n b(); ".toList),
      (.line " eslint-disable-line".toList, "\r\n".toList),
      (.line " note".toList, "\r\n".toList),
      (.block " eslint no-x: 0 ".toList, " c\n".toList),
      (.line "eslint-foo".toList, [])]

theorem strip_mixedScript :
    mixedScript.WellDelimited ∧
      mixedScript.directives.length = 4 ∧
      (strip Rule.standard mixedScript.text).text =
        "a\r\n b(); \r\n// note\r\n c\n".toList := by
  have hScript : mixedScript.WellDelimited := by
    decide +kernel
  have hCount : mixedScript.directives.length = 4 := by
    decide +kernel
  have hCleaned :
      mixedScript.cleaned =
        "a\r\n b(); \r\n// note\r\n c\n".toList := by
    decide +kernel
  refine ⟨hScript, hCount, ?_⟩
  rw [(strip_eq_cleaned hScript).1]
  exact hCleaned

end Directive

end BiomeMigration
