import BiomeMigration.Proofs.Directive.LineCuts
import BiomeMigration.Proofs.Directive.Removal

/-
  Rules for lines whose words go on with the word of another
  one. What they cut, the other one cuts as well, so that
  they change nothing about what is left once the other one
  has had its pass, whether before or behind it.

  Main declarations:
    * `Form.left_line_of_prefix`
    * `FilledLines.left_left_short`
    * `FilledLines.left_left_long`
    * `FilledLines.cuts_le`
    * `lineRules`
    * `strip_lineRules`
-/

------------------------------------------------------------
-- Two Words on a Line
------------------------------------------------------------

namespace BiomeMigration

namespace Directive

theorem isSome_after?_of_prefix
    {short long cs : List Char}
    (hShort : short <+: long)
    (hFound : (after? long cs).isSome = true) :
    (after? short cs).isSome = true := by
  rcases hShort with ⟨more, rfl⟩
  rcases Option.isSome_iff_exists.mp hFound with ⟨rest, hRest⟩
  rw [append_of_after? hRest, List.append_assoc, after?_append]
  rfl

namespace Form

variable {short long content : List Char}

/- Where the longer word is found, the shorter one is. -/
theorem isSome_comment?_of_prefix
    (hShort : short <+: long)
    {cs : List Char}
    (hFound : ((line long).comment? cs).isSome = true) :
    ((line short).comment? cs).isSome = true := by
  rw [isSome_comment?_line] at hFound ⊢
  cases hInside : after? ['/', '/'] cs with
  | none =>
      rw [hInside] at hFound
      cases hFound
  | some inside =>
      rw [hInside] at hFound
      exact isSome_after?_of_prefix hShort hFound

theorem before?_eq_none_of_prefix
    (hShort : short <+: long)
    (hNone : (line short).before? content = none) :
    (line long).before? content = none := by
  cases hBefore : (line long).before? content with
  | none => rfl
  | some before =>
      exfalso
      rcases exists_of_before? hBefore with
        ⟨rest, hText, hComment, _⟩
      have hFound := isSome_comment?_of_prefix hShort hComment
      rw [comment?_eq_none_of_before? hNone before rest hText]
        at hFound
      cases hFound

/- Before a comment there are no others but further before. -/
theorem before?_of_prefix
    (hPlain : (line short).Plain)
    (hShort : short <+: long)
    (hFilled : OpenersFilled content)
    {before : List Char}
    (hBefore : (line long).before? content = some before) :
    (line short).before? content =
      ((line short).before? before).or (some before) := by
  rcases exists_of_before? hBefore with
    ⟨rest, rfl, hComment, _⟩
  have hStops := stops_of_comment? hComment
  have hFound := isSome_comment?_of_prefix hShort hComment
  have hRest : (line short).before? rest = some [] := by
    cases rest with
    | nil =>
        rw [comment?_eq_none_of_head (by simp)] at hFound
        cases hFound
    | cons c rest => rw [before?, if_pos hFound]
  rw [before?_append hPlain (hFilled.of_append_left hStops)
    hStops, hRest, Option.map_some, List.append_nil]

/- There is no comment in the text before the first one. -/
theorem before?_before
    (hPlain : (line short).Plain)
    (hFilled : OpenersFilled content)
    {before : List Char}
    (hBefore : (line short).before? content = some before) :
    (line short).before? before = none := by
  have hAgain :=
    before?_of_prefix hPlain List.prefix_rfl hFilled hBefore
  rw [hBefore] at hAgain
  cases hInner : (line short).before? before with
  | none => rfl
  | some inner =>
      exfalso
      rw [hInner] at hAgain
      have hSame : before = inner := Option.some.inj hAgain
      rcases exists_of_before? hInner with
        ⟨rest, hText, hComment, _⟩
      have hNone : rest = [] := by
        rw [← hSame] at hText
        exact List.append_right_eq_self.mp hText.symm
      rw [hNone, comment?_eq_none_of_head (by simp)] at hComment
      cases hComment

/- Indentation holds no comment. -/
theorem before?_of_indent
    {form : Form}
    {before : List Char}
    (hIndent : ∀ c ∈ before, isIndent c = true) :
    form.before? before = none := by
  cases hBefore : form.before? before with
  | none => rfl
  | some inner =>
      exfalso
      rcases exists_of_before? hBefore with
        ⟨rest, hText, hComment, _⟩
      rcases Option.isSome_iff_exists.mp hComment with
        ⟨⟨comment, tail⟩, hFound⟩
      rcases List.head?_eq_some_iff.mp
          (head?_of_comment? hFound) with
        ⟨body, rfl⟩
      have hSlash : '/' ∈ before := by
        rw [hText, append_of_comment? hFound]
        simp
      cases hIndent '/' hSlash

/- A line with less behind a comment is cut as before. -/
theorem cutLine_before
    {form : Form}
    {before : List Char}
    (hSplit :
      form.before? content =
        (form.before? before).or (some before))
    (hShared : ¬ ∀ c ∈ before, isIndent c = true)
    (ending : List Char) :
    form.cutLine before ending =
      form.cutLine content ending := by
  cases hInner : form.before? before with
  | none =>
      rw [hInner, Option.none_or] at hSplit
      rw [cutLine_of_none hInner,
        cutLine_of_shared hSplit hShared]
  | some inner =>
      rw [hInner, Option.some_or] at hSplit
      unfold cutLine
      rw [hInner, hSplit]

end Form

end Directive

end BiomeMigration

------------------------------------------------------------
-- Two Words in a Text
------------------------------------------------------------

namespace BiomeMigration

namespace Directive

variable {short long content ending rest : List Char}

namespace Form

/-
  The shorter word finds of a line that the longer one has
  cut what it finds of the line.
-/
theorem left_line_of_prefix
    (hPlain : (line short).Plain)
    (hShort : short <+: long)
    (hUnbroken : ∀ c ∈ content, isLineEnd c = false)
    (hFilled : OpenersFilled content)
    (hEnding : EndsBefore ending rest) :
    (line short).left
          ((line long).cutLine content ending ++ rest) =
        (line short).cutLine content ending ++
          (line short).left rest ∧
      ((line short).before? content).toList.length +
          (line short).cuts rest ≤
        ((line long).before? content).toList.length +
          (line short).cuts
            ((line long).cutLine content ending ++ rest) := by
  cases hBefore : (line long).before? content with
  | none =>
      rcases pass_line hPlain hUnbroken hFilled hEnding with
        ⟨hLeft, hCuts⟩
      rw [cutLine_of_none hBefore, List.append_assoc]
      refine ⟨hLeft, ?_⟩
      rw [hCuts]
      simp
  | some before =>
      have hSplit :=
        before?_of_prefix hPlain hShort hFilled hBefore
      have hOnce :
          ((line short).before? content).toList.length ≤ 1 :=
        Option.length_toList_le
      by_cases hIndent : ∀ c ∈ before, isIndent c = true
      · rw [before?_of_indent hIndent, Option.none_or] at hSplit
        rw [cutLine_of_indent hBefore hIndent,
          cutLine_of_indent hSplit hIndent]
        refine ⟨rfl, ?_⟩
        simp
      · rcases exists_of_before? hBefore with
          ⟨comment, rfl, hComment, _⟩
        have hStops := stops_of_comment? hComment
        rcases pass_line hPlain
            (fun c hc =>
              hUnbroken c (List.mem_append_left _ hc))
            (hFilled.of_append_left hStops) hEnding with
          ⟨hLeft, hCuts⟩
        rw [cutLine_of_shared hBefore hIndent,
          List.append_assoc]
        constructor
        · rw [hLeft, cutLine_before hSplit hIndent]
        · rw [hCuts]
          simp
          omega

/- Nothing is left for the longer word by the shorter one. -/
theorem left_line_of_shorter
    (hShortPlain : (line short).Plain)
    (hPlain : (line long).Plain)
    (hShort : short <+: long)
    (hUnbroken : ∀ c ∈ content, isLineEnd c = false)
    (hFilled : OpenersFilled content)
    (hEnding : EndsBefore ending rest) :
    (line long).left
        ((line short).cutLine content ending ++ rest) =
      (line short).cutLine content ending ++
        (line long).left rest := by
  cases hBefore : (line short).before? content with
  | none =>
      have hNone := before?_eq_none_of_prefix hShort hBefore
      rw [cutLine_of_none hBefore, List.append_assoc,
        (pass_line hPlain hUnbroken hFilled hEnding).1,
        cutLine_of_none hNone, List.append_assoc]
  | some before =>
      by_cases hIndent : ∀ c ∈ before, isIndent c = true
      · rw [cutLine_of_indent hBefore hIndent]
        rfl
      · have hNone :=
          before?_eq_none_of_prefix hShort
            (before?_before hShortPlain hFilled hBefore)
        rcases exists_of_before? hBefore with
          ⟨comment, rfl, hComment, _⟩
        have hStops := stops_of_comment? hComment
        rw [cutLine_of_shared hBefore hIndent,
          List.append_assoc,
          (pass_line hPlain
            (fun c hc =>
              hUnbroken c (List.mem_append_left _ hc))
            (hFilled.of_append_left hStops) hEnding).1,
          cutLine_of_none hNone, List.append_assoc]

end Form

namespace FilledLines

variable {cs : List Char}

/- A pass for the longer word before the shorter one's. -/
theorem left_left_short
    (hShortPlain : (Form.line short).Plain)
    (hPlain : (Form.line long).Plain)
    (hShort : short <+: long)
    (hLines : FilledLines cs) :
    (Form.line short).left ((Form.line long).left cs) =
        (Form.line short).left cs ∧
      (Form.line short).cuts cs ≤
        (Form.line long).cuts cs +
          (Form.line short).cuts ((Form.line long).left cs) := by
  induction hLines with
  | nil => exact ⟨rfl, Nat.le_refl _⟩
  | @line content ending rest hUnbroken hFilled hEnding hRest ih =>
      rcases Form.left_line_of_prefix hShortPlain hShort
          hUnbroken hFilled
          (Form.endsBefore_left hEnding (Form.line long)) with
        ⟨hLeft, hCuts⟩
      rcases Form.pass_line hPlain hUnbroken hFilled hEnding with
        ⟨hLongLeft, hLongCuts⟩
      rcases Form.pass_line hShortPlain hUnbroken hFilled
          hEnding with
        ⟨hShortLeft, hShortCuts⟩
      rw [hLongLeft, hLongCuts, hShortLeft, hShortCuts, hLeft,
        ih.1]
      refine ⟨rfl, ?_⟩
      have hBehind := ih.2
      omega

/- A pass for the longer word behind the shorter one's. -/
theorem left_left_long
    (hShortPlain : (Form.line short).Plain)
    (hPlain : (Form.line long).Plain)
    (hShort : short <+: long)
    (hLines : FilledLines cs) :
    (Form.line long).left ((Form.line short).left cs) =
      (Form.line short).left cs := by
  induction hLines with
  | nil => rfl
  | @line content ending rest hUnbroken hFilled hEnding hRest ih =>
      rw [(Form.pass_line hShortPlain hUnbroken hFilled
          hEnding).1,
        Form.left_line_of_shorter hShortPlain hPlain hShort
          hUnbroken hFilled
          (Form.endsBefore_left hEnding (Form.line short)),
        ih]

end FilledLines

end Directive

end BiomeMigration

------------------------------------------------------------
-- Rules for Lines
------------------------------------------------------------

namespace BiomeMigration

namespace Directive

/- A text that a pass leaves as it is has no comment. -/
theorem Form.comment?_eq_none_of_left
    {form : Form}
    {cs front back : List Char}
    (hLeft : form.left cs = cs)
    (hText : cs = front ++ back) :
    form.comment? back = none := by
  have hLength := form.length_keep_add_mul_le cs
  have hSame : keep (form.marks cs) cs = cs := hLeft
  have hShortest := form.two_le_shortest
  rw [hSame] at hLength
  have hNone : pieces (form.marks cs) = 0 := by
    apply Nat.eq_zero_of_not_pos
    intro hPositive
    have hMore := Nat.mul_le_mul hShortest hPositive
    omega
  exact comment?_eq_none_of_pieces_eq_zero hNone hText

/- The rules for lines, in the order they are applied. -/
def lineRules : List Rule :=
  Rule.standard.filter (·.form.opener == ['/', '/'])

/- The rule that takes every word. -/
def genericRule : Rule :=
  Rule.line "line-generic" "eslint-"

theorem form_of_mem_lineRules :
    ∀ rule ∈ lineRules,
      rule.form = .line rule.form.word ∧
        "eslint-".toList <+: rule.form.word ∧
        (Form.line rule.form.word).Plain := by
  decide

theorem plain_generic : (Form.line "eslint-".toList).Plain := by
  decide

section Rules

variable {rules : List Rule} {cs : List Char}

/- Rules for lines leave what the generic rule has left. -/
theorem text_strip_of_left
    (hRules : ∀ rule ∈ rules, rule ∈ lineRules)
    (hLines : FilledLines cs)
    (hLeft : genericRule.form.left cs = cs) :
    (strip rules cs).text = cs := by
  induction rules with
  | nil => rfl
  | cons rule rules ih =>
      rcases form_of_mem_lineRules rule
          (hRules rule List.mem_cons_self) with
        ⟨hForm, hWord, hPlain⟩
      have hRest := fun other hOther =>
        hRules other (List.mem_cons_of_mem rule hOther)
      have hSame : rule.form.left cs = cs := by
        have hBehind :=
          hLines.left_left_long plain_generic hPlain hWord
        rw [← hForm] at hBehind
        exact (congrArg rule.form.left hLeft).symm.trans
          (hBehind.trans hLeft)
      have hText :
          (strip (rule :: rules) cs).text =
            (strip rules (rule.form.left cs)).text :=
        text_strip_cons rule rules cs
      rw [hText, hSame]
      exact ih hRest

/-
  Rules for lines of which one is the generic rule leave
  what it leaves alone, and count no less.
-/
theorem text_strip_of_mem
    (hRules : ∀ rule ∈ rules, rule ∈ lineRules)
    (hGeneric : genericRule ∈ rules)
    (hLines : FilledLines cs) :
    (strip rules cs).text = genericRule.form.left cs ∧
      genericRule.form.cuts cs ≤ (strip rules cs).removed := by
  induction rules generalizing cs with
  | nil => cases hGeneric
  | cons rule rules ih =>
      rcases form_of_mem_lineRules rule
          (hRules rule List.mem_cons_self) with
        ⟨hForm, hWord, hPlain⟩
      have hRest := fun other hOther =>
        hRules other (List.mem_cons_of_mem rule hOther)
      have hText :
          (strip (rule :: rules) cs).text =
            (strip rules (rule.form.left cs)).text :=
        text_strip_cons rule rules cs
      have hCount :
          (strip (rule :: rules) cs).removed =
            rule.form.cuts cs +
              (strip rules (rule.form.left cs)).removed :=
        removed_cons rule rules cs
      rw [hText, hCount]
      have hLeft : FilledLines (rule.form.left cs) := by
        rw [hForm]
        exact hLines.left hPlain
      rcases List.mem_cons.mp hGeneric with rfl | hLater
      · have hStable :
            genericRule.form.left (genericRule.form.left cs) =
              genericRule.form.left cs :=
          hLines.left_left_long plain_generic hPlain hWord
        rw [text_strip_of_left hRest hLeft hStable]
        exact ⟨rfl, Nat.le_add_right _ _⟩
      · rcases ih hRest hLater hLeft with ⟨hSame, hMore⟩
        have hBefore :=
          hLines.left_left_short plain_generic hPlain hWord
        rw [← hForm] at hBefore
        rcases hBefore with ⟨hShort, hFewer⟩
        constructor
        · exact hSame.trans hShort
        · exact hFewer.trans (Nat.add_le_add_left hMore _)

/-
  The rules for lines on a text with paired returns and
  filled slashes. In any order, and with any repetition,
  they leave what the generic rule leaves alone, they count
  no less than it does, and behind them none of them finds a
  comment anywhere.
-/
theorem strip_lineRules
    (hRules : ∀ rule ∈ rules, rule ∈ lineRules)
    (hGeneric : genericRule ∈ rules)
    (hReturns : ReturnsPaired cs)
    (hFilled : OpenersFilled cs) :
    (strip rules cs).text = (strip [genericRule] cs).text ∧
      (strip [genericRule] cs).removed ≤
        (strip rules cs).removed ∧
      ∀ rule ∈ lineRules, ∀ front back,
        (strip rules cs).text = front ++ back →
          rule.form.comment? back = none := by
  have hLines := filledLines_of_openersFilled hReturns hFilled
  rcases text_strip_of_mem hRules hGeneric hLines with
    ⟨hText, hCount⟩
  refine ⟨hText, hCount, ?_⟩
  intro rule hRule front back hParts
  rcases form_of_mem_lineRules rule hRule with
    ⟨hForm, hWord, hPlain⟩
  have hStable :
      rule.form.left (genericRule.form.left cs) =
        genericRule.form.left cs := by
    rw [hForm]
    exact hLines.left_left_long plain_generic hPlain hWord
  apply Form.comment?_eq_none_of_left hStable
  rw [← hText]
  exact hParts

/- A directive inside of another, and one on its own line. -/
def nestedText : List Char :=
  "a(); // eslint-disable x // eslint-env\r\n\t// eslint-enable\nb();".toList

/- The four rules, with the generic one in the middle. -/
def mingledRules : List Rule :=
  [Rule.line "line-env" "eslint-env", genericRule,
    Rule.line "line-enable" "eslint-enable",
    Rule.line "line-disable" "eslint-disable"]

/- They count one more than the generic rule alone. -/
theorem strip_nestedText :
    ((∀ rule ∈ mingledRules, rule ∈ lineRules) ∧
        genericRule ∈ mingledRules ∧
        ReturnsPaired nestedText ∧
        OpenersFilled nestedText) ∧
      (strip [genericRule] nestedText).removed = 2 ∧
      (strip mingledRules nestedText).removed = 3 ∧
      (strip mingledRules nestedText).text =
        "a(); \r\nb();".toList := by
  have hRules : ∀ rule ∈ mingledRules, rule ∈ lineRules := by
    decide
  have hGeneric : genericRule ∈ mingledRules := by
    decide
  have hReturns : ReturnsPaired nestedText := by
    decide +kernel
  have hFilled : OpenersFilled nestedText := by
    decide +kernel
  have hAlone :
      strip [genericRule] nestedText =
        ⟨"a(); \r\nb();".toList, [2]⟩ := by
    decide +kernel
  have hCount : (strip mingledRules nestedText).removed = 3 := by
    decide +kernel
  refine ⟨⟨hRules, hGeneric, hReturns, hFilled⟩, ?_, hCount, ?_⟩
  · rw [hAlone]
    rfl
  · rw [(strip_lineRules hRules hGeneric hReturns hFilled).1,
      hAlone]

end Rules

end Directive

end BiomeMigration
