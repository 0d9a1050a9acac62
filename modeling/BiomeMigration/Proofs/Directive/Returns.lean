import BiomeMigration.Proofs.Directive.Lines
import BiomeMigration.Proofs.Directive.Removal

/-
  Line breaks written with a return and a line feed. Every
  reader of the scan answers for such a text as it answers
  for the text with line feeds alone, so that the passes
  count the same pieces and leave the same text, up to the
  way its line breaks are written.

  Main declarations:
    * `withReturns`
    * `Form.comment?_withReturns`
    * `Form.piece?_withReturns`
    * `Form.Scan.marksFrom_withReturns`
    * `strip_withReturns`
-/

------------------------------------------------------------
-- Returns before Line Feeds
------------------------------------------------------------

namespace BiomeMigration

namespace Directive

/- A text with a return in front of each line feed. -/
def withReturns : List Char → List Char
  | [] => []
  | c :: cs =>
      if c = '\n' then '\r' :: '\n' :: withReturns cs
      else c :: withReturns cs

@[simp] theorem withReturns_nil : withReturns [] = [] :=
  rfl

theorem withReturns_feed (cs : List Char) :
    withReturns ('\n' :: cs) = '\r' :: '\n' :: withReturns cs :=
  rfl

theorem withReturns_cons
    {c : Char}
    (hFeed : c ≠ '\n')
    (cs : List Char) :
    withReturns (c :: cs) = c :: withReturns cs := by
  rw [withReturns, if_neg hFeed]

@[simp] theorem withReturns_append (as bs : List Char) :
    withReturns (as ++ bs) = withReturns as ++ withReturns bs := by
  induction as with
  | nil => rfl
  | cons a as ih =>
      by_cases hFeed : a = '\n'
      · subst hFeed
        simp [withReturns_feed, ih]
      · simp [withReturns_cons hFeed, ih]

/- Without a line feed nothing is changed. -/
theorem withReturns_eq_self
    {cs : List Char}
    (hFeed : '\n' ∉ cs) :
    withReturns cs = cs := by
  induction cs with
  | nil => rfl
  | cons c cs ih =>
      simp only [List.mem_cons, not_or] at hFeed
      rw [withReturns_cons (Ne.symm hFeed.1), ih hFeed.2]

/- A line feed may become a return as the first character. -/
theorem head?_withReturns (cs : List Char) :
    (withReturns cs).head? =
      cs.head?.map fun c => if c = '\n' then '\r' else c := by
  cases cs with
  | nil => rfl
  | cons c cs =>
      by_cases hFeed : c = '\n'
      · subst hFeed
        rfl
      · simp [withReturns_cons hFeed, hFeed]

theorem head?_any_withReturns
    {allowed : Char → Bool}
    (hReturn : allowed '\r' = allowed '\n')
    (cs : List Char) :
    (withReturns cs).head?.any allowed =
      cs.head?.any allowed := by
  rw [head?_withReturns]
  cases cs with
  | nil => rfl
  | cons c cs =>
      by_cases hFeed : c = '\n'
      · simp [hFeed, hReturn]
      · simp [hFeed]

/- A text without line ends has no line feed. -/
theorem not_mem_of_unbroken
    {cs : List Char}
    (hAll : ∀ c ∈ cs, isLineEnd c = false) :
    '\n' ∉ cs := by
  intro hFeed
  cases hAll '\n' hFeed

/- A property of both line ends carries over. -/
theorem forall_mem_withReturns
    {allowed : Char → Bool}
    (hReturn : allowed '\r' = allowed '\n')
    {cs : List Char}
    (hAll : ∀ c ∈ cs, allowed c = true) :
    ∀ c ∈ withReturns cs, allowed c = true := by
  induction cs with
  | nil => simp
  | cons d cs ih =>
      have hHead := hAll d List.mem_cons_self
      have hTail := ih fun c hc =>
        hAll c (List.mem_cons_of_mem d hc)
      by_cases hFeed : d = '\n'
      · subst hFeed
        simpa [withReturns_feed, hReturn, hHead] using hTail
      · simpa [withReturns_cons hFeed, hHead] using hTail

/- A text and what is behind it, with returns. -/
def Pair.withReturns
    (parts : List Char × List Char) :
    List Char × List Char :=
  (Directive.withReturns parts.1, Directive.withReturns parts.2)

@[simp] theorem Pair.withReturns_mk (as bs : List Char) :
    Pair.withReturns (as, bs) =
      (Directive.withReturns as, Directive.withReturns bs) :=
  rfl

end Directive

end BiomeMigration

------------------------------------------------------------
-- Readers of Comments
------------------------------------------------------------

namespace BiomeMigration

namespace Directive

/- A run that treats both line ends alike. -/
theorem run_withReturns
    {allowed : Char → Bool}
    (hReturn : allowed '\r' = allowed '\n')
    (cs : List Char) :
    run allowed (withReturns cs) =
      Pair.withReturns (run allowed cs) := by
  rcases run_eq_iff.mp (Eq.refl (run allowed cs)) with
    ⟨_, hLead, hRest⟩
  apply run_eq_iff.mpr
  refine ⟨?_, forall_mem_withReturns hReturn hLead, ?_⟩
  · rw [← withReturns_append, run_append]
  · intro c hc
    rw [head?_withReturns] at hc
    rcases Option.map_eq_some_iff.mp hc with ⟨d, hd, rfl⟩
    have hStop := hRest d hd
    by_cases hFeed : d = '\n'
    · subst hFeed
      rw [if_pos rfl, hReturn]
      exact hStop
    · rw [if_neg hFeed]
      exact hStop

/- A beginning that holds no line end. -/
theorem after?_withReturns
    {lead : List Char}
    (hLead : ∀ c ∈ lead, isLineEnd c = false)
    (cs : List Char) :
    after? lead (withReturns cs) =
      (after? lead cs).map withReturns := by
  induction lead generalizing cs with
  | nil => rfl
  | cons a lead ih =>
      have hFirst := hLead a List.mem_cons_self
      have hMore := fun c hc =>
        hLead c (List.mem_cons_of_mem a hc)
      cases cs with
      | nil => rfl
      | cons c cs =>
          by_cases hFeed : c = '\n'
          · subst hFeed
            have hNot : a ≠ '\n' ∧ a ≠ '\r' := by
              simpa [isLineEnd] using hFirst
            simp [withReturns_feed, after?, hNot]
          · rw [withReturns_cons hFeed]
            by_cases hSame : a = c
            · simp [after?, hSame, ih hMore]
            · simp [after?, hSame]

theorem throughClose?_cons
    {c : Char}
    {cs : List Char}
    (hOpen : ¬ (c = '*' ∧ cs.head? = some '/')) :
    throughClose? (c :: cs) =
      (throughClose? cs).map fun (body, rest) =>
        (c :: body, rest) := by
  rw [throughClose?]
  intro rest hStar hRest
  exact hOpen ⟨hStar, by rw [hRest]; rfl⟩

/- The end of a block. -/
theorem throughClose?_withReturns (cs : List Char) :
    throughClose? (withReturns cs) =
      (throughClose? cs).map Pair.withReturns := by
  induction cs with
  | nil => rfl
  | cons c cs ih =>
      by_cases hClose : c = '*' ∧ cs.head? = some '/'
      · rcases hClose with ⟨rfl, hHead⟩
        rcases List.head?_eq_some_iff.mp hHead with
          ⟨rest, rfl⟩
        rfl
      · rw [throughClose?_cons hClose]
        by_cases hFeed : c = '\n'
        · subst hFeed
          rw [withReturns_feed, throughClose?_cons (by simp),
            throughClose?_cons (by simp), ih]
          cases throughClose? cs with
          | none => rfl
          | some result => rfl
        · have hOpen :
              ¬ (c = '*' ∧
                (withReturns cs).head? = some '/') := by
            rintro ⟨hStar, hHead⟩
            apply hClose
            refine ⟨hStar, ?_⟩
            rw [head?_withReturns] at hHead
            rcases Option.map_eq_some_iff.mp hHead with
              ⟨d, hd, hEq⟩
            by_cases hLine : d = '\n'
            · simp [hLine] at hEq
            · rw [if_neg hLine] at hEq
              rw [hd, hEq]
          rw [withReturns_cons hFeed, throughClose?_cons hOpen,
            ih]
          cases throughClose? cs with
          | none => rfl
          | some result =>
              simp [Pair.withReturns, withReturns_cons hFeed]

/- The body of a configuration by its two parts. -/
theorem blankThroughClose?_eq (cs : List Char) :
    blankThroughClose? cs =
      if (run (· != '*') cs).1.head?.any isBlank then
        (after? ['*', '/'] (run (· != '*') cs).2).map
          fun rest =>
            ((run (· != '*') cs).1 ++ ['*', '/'], rest)
      else none := by
  unfold blankThroughClose?
  cases hRun : run (· != '*') cs with
  | mk inner rest =>
      cases inner with
      | nil => rfl
      | cons c inner =>
          have hFirst :
              (c :: inner).head?.any isBlank = isBlank c :=
            rfl
          rw [hFirst]
          cases hAfter : after? ['*', '/'] rest with
          | some tail =>
              rw [append_of_after? hAfter]
              rfl
          | none =>
              have hOther :
                  ∀ tail, rest ≠ '*' :: '/' :: tail := by
                rintro tail rfl
                simp [after?] at hAfter
              split
              · next hEq =>
                  exact (hOther _ (Prod.mk.inj hEq).2).elim
              · simp

/- The blanks and the body of a configuration. -/
theorem blankThroughClose?_withReturns (cs : List Char) :
    blankThroughClose? (withReturns cs) =
      (blankThroughClose? cs).map Pair.withReturns := by
  have hRun :
      run (· != '*') (withReturns cs) =
        Pair.withReturns (run (· != '*') cs) :=
    run_withReturns rfl cs
  have hClose :
      ∀ c ∈ ['*', '/'], isLineEnd c = false := by
    simp [isLineEnd]
  rw [blankThroughClose?_eq, blankThroughClose?_eq, hRun]
  have hBlanks : isBlank '\r' = isBlank '\n' := rfl
  simp only [Pair.withReturns, head?_any_withReturns hBlanks,
    after?_withReturns hClose]
  by_cases hBlank :
      (run (· != '*') cs).1.head?.any isBlank = true
  · rw [if_pos hBlank, if_pos hBlank]
    cases after? ['*', '/'] (run (· != '*') cs).2 with
    | none => rfl
    | some rest =>
        simp [Pair.withReturns, withReturns_cons]
  · rw [if_neg hBlank, if_neg hBlank]
    rfl

namespace Form

variable {form : Form}

/- What follows the word of a form. -/
theorem body?_withReturns (cs : List Char) :
    form.body? (withReturns cs) =
      (form.body? cs).map Pair.withReturns := by
  cases form with
  | block word => exact throughClose?_withReturns cs
  | configuration => exact blankThroughClose?_withReturns cs
  | line word =>
      exact congrArg some (run_withReturns rfl cs)

theorem isLineEnd_opener (form : Form) :
    ∀ c ∈ form.opener, isLineEnd c = false := by
  cases form with
  | block word => simp [opener, isLineEnd]
  | configuration => simp [opener, isLineEnd]
  | line word => simp [opener, isLineEnd]

/- The comment of a form. -/
theorem comment?_withReturns
    (hPlain : form.Plain)
    (cs : List Char) :
    form.comment? (withReturns cs) =
      (form.comment? cs).map Pair.withReturns := by
  have hOpener := form.isLineEnd_opener
  have hWord := hPlain.isLineEnd_eq_false
  unfold comment?
  rw [after?_withReturns hOpener]
  cases after? form.opener cs with
  | none => rfl
  | some inside =>
      have hRun :
          run isBlank (withReturns inside) =
            Pair.withReturns (run isBlank inside) :=
        run_withReturns rfl inside
      simp only [Option.map_some, Option.bind_eq_bind,
        Option.bind_some, hRun, Pair.withReturns,
        after?_withReturns hWord]
      cases after? form.word (run isBlank inside).2 with
      | none => rfl
      | some rest =>
          simp only [Option.map_some, Option.bind_some,
            body?_withReturns]
          cases form.body? rest with
          | none => rfl
          | some result =>
              simp [Pair.withReturns,
                withReturns_eq_self (not_mem_of_unbroken hOpener),
                withReturns_eq_self (not_mem_of_unbroken hWord)]

end Form

end Directive

end BiomeMigration

------------------------------------------------------------
-- Pieces
------------------------------------------------------------

namespace BiomeMigration

namespace Directive

/- A line break, where returns stand before feeds only. -/
theorem lineBreak?_withReturns
    {cs : List Char}
    (hReturn : '\r' ∉ cs) :
    lineBreak? (withReturns cs) =
      (lineBreak? cs).map Pair.withReturns := by
  cases cs with
  | nil => rfl
  | cons c cs =>
      by_cases hFeed : c = '\n'
      · subst hFeed
        rfl
      · have hOther : c ≠ '\r' := by
          rintro rfl
          exact hReturn List.mem_cons_self
        rw [withReturns_cons hFeed]
        simp [lineBreak?, hFeed, hOther]

@[simp] theorem startsLine_withReturns
    (lineStart : Bool)
    (cs : List Char) :
    startsLine lineStart (withReturns cs) =
      startsLine lineStart cs := by
  induction cs generalizing lineStart with
  | nil => rfl
  | cons c cs ih =>
      by_cases hFeed : c = '\n'
      · subst hFeed
        exact ih true
      · rw [withReturns_cons hFeed]
        exact ih (c == '\n')

namespace Form

variable {form : Form}

/- A comment alone on its line. -/
theorem wholeLine?_withReturns
    (hPlain : form.Plain)
    {cs : List Char}
    (hReturn : '\r' ∉ cs) :
    form.wholeLine? (withReturns cs) =
      (form.wholeLine? cs).map Pair.withReturns := by
  have hIndent : ∀ cs : List Char,
      run isIndent (withReturns cs) =
        Pair.withReturns (run isIndent cs) :=
    run_withReturns rfl
  have hBehind :
      ∀ {cs : List Char},
        '\r' ∉ cs → '\r' ∉ (run isIndent cs).2 :=
    fun hNot hIn => hNot ((List.dropWhile_sublist _).subset hIn)
  unfold wholeLine?
  simp only [hIndent, Pair.withReturns,
    comment?_withReturns hPlain]
  cases hComment : form.comment? (run isIndent cs).2 with
  | none => rfl
  | some result =>
      have hRest : '\r' ∉ result.2 := by
        intro hIn
        apply hBehind hReturn
        rw [append_of_comment? hComment]
        exact List.mem_append_right _ hIn
      simp only [Option.map_some, Option.bind_eq_bind,
        Option.bind_some, Pair.withReturns, hIndent,
        lineBreak?_withReturns (hBehind hRest)]
      cases lineBreak? (run isIndent result.2).2 with
      | none => rfl
      | some ending => simp [Pair.withReturns]

/- The piece that a text starts with. -/
theorem piece?_withReturns
    (hPlain : form.Plain)
    (lineStart : Bool)
    {cs : List Char}
    (hReturn : '\r' ∉ cs) :
    form.piece? lineStart (withReturns cs) =
      (form.piece? lineStart cs).map Pair.withReturns := by
  unfold piece?
  rw [comment?_withReturns hPlain,
    wholeLine?_withReturns hPlain hReturn]
  cases lineStart with
  | false => rfl
  | true => exact Option.map_or.symm

/-
  The scan goes over the text with returns as over the text
  without them. In front of a line feed it passes two
  characters, of which neither starts a piece.
-/
theorem Scan.marksFrom_withReturns
    {α : Type}
    {lineStart : Bool}
    {xs kept : List (Char × α)}
    {cut : List (List (Char × α))}
    (hPlain : form.Plain)
    (hScan : form.Scan lineStart xs kept cut)
    (hReturn : '\r' ∉ chars xs) :
    keep (form.marksFrom lineStart 0 (withReturns (chars xs)))
          (withReturns (chars xs)) =
        withReturns (chars kept) ∧
      pieces
          (form.marksFrom lineStart 0
            (withReturns (chars xs))) =
        cut.length := by
  induction hScan with
  | done lineStart => exact ⟨rfl, rfl⟩
  | @stays lineStart x xs kept cut hPiece hRest ih =>
      have hFound :=
        piece?_withReturns hPlain lineStart hReturn
      rw [hPiece] at hFound
      rw [chars_cons, List.mem_cons, not_or] at hReturn
      rcases ih hReturn.2 with ⟨hKept, hCount⟩
      rw [chars_cons] at hFound ⊢
      rw [chars_cons]
      by_cases hFeed : x.1 = '\n'
      · rw [hFeed] at hFound hKept hCount ⊢
        have hSecond :
            form.piece? ('\r' == '\n')
                ('\n' :: withReturns (chars xs)) =
              none :=
          (piece?_false form _).trans
            (comment?_eq_none_of_head (by simp))
        rw [withReturns_feed] at hFound ⊢
        rw [marksFrom_stays hFound, marksFrom_stays hSecond,
          withReturns_feed]
        constructor
        · simp only [keep, hKept]
        · rw [pieces_stays, pieces_stays, hCount]
      · rw [withReturns_cons hFeed] at hFound ⊢
        rw [marksFrom_stays hFound, withReturns_cons hFeed]
        constructor
        · simp only [keep, hKept]
        · rw [pieces_stays, hCount]
  | @cuts lineStart piece xs kept cut hPiece hRest ih =>
      have hFound :=
        piece?_withReturns hPlain lineStart hReturn
      rw [hPiece] at hFound
      rw [chars_append, List.mem_append, not_or] at hReturn
      rcases ih hReturn.2 with ⟨hKept, hCount⟩
      rw [chars_append, withReturns_append] at hFound ⊢
      rw [marksFrom_piece hFound, startsLine_withReturns]
      constructor
      · rw [keep_piece (ne_nil_of_piece? hFound), hKept]
      · rw [pieces_piece, hCount, List.length_cons]

/- One pass. -/
theorem marks_withReturns
    (hPlain : form.Plain)
    {cs : List Char}
    (hReturn : '\r' ∉ cs) :
    keep (form.marks (withReturns cs)) (withReturns cs) =
        withReturns (keep (form.marks cs) cs) ∧
      pieces (form.marks (withReturns cs)) =
        pieces (form.marks cs) := by
  rcases form.exists_scan_marks cs with
    ⟨xs, kept, cut, rfl, hKept, hCount, hScan⟩
  rw [← hKept, hCount]
  exact hScan.marksFrom_withReturns hPlain hReturn

end Form

/-
  All passes of some rules, in any order. On a text without
  returns whose line breaks are written with returns they
  count what they count on the text, and leave what they
  leave of it, with its line breaks written likewise.
-/
theorem strip_withReturns
    {rules : List Rule}
    {cs : List Char}
    (hRules : ∀ rule ∈ rules, rule ∈ Rule.standard)
    (hReturn : '\r' ∉ cs) :
    strip rules (withReturns cs) =
      ⟨withReturns (strip rules cs).text,
        (strip rules cs).counts⟩ := by
  induction rules generalizing cs with
  | nil => rfl
  | cons rule rules ih =>
      have hPlain :=
        Form.plain_of_mem_standard rule
          (hRules rule List.mem_cons_self)
      have hRest := fun other hOther =>
        hRules other (List.mem_cons_of_mem rule hOther)
      have hKept : '\r' ∉ keep (rule.form.marks cs) cs :=
        fun hIn => hReturn ((keep_sublist _ _).subset hIn)
      rcases Form.marks_withReturns hPlain hReturn with
        ⟨hText, hCount⟩
      simp only [strip, hText, hCount, ih hRest hKept]

/- A text with a directive over two lines and one in code. -/
def feedsText : List Char :=
  "a();\n\t/* eslint-env\nnode */\nb(); // eslint-disable\n".toList

/- Two rules, of which one comes twice. -/
def mixedRules : List Rule :=
  [Rule.line "line-generic" "eslint-",
    Rule.block "block-env" "eslint-env",
    Rule.line "line-generic" "eslint-"]

/- With returns it loses the same comments. -/
theorem strip_withReturns_feedsText :
    (∀ rule ∈ mixedRules, rule ∈ Rule.standard) ∧
      '\r' ∉ feedsText ∧
      strip mixedRules (withReturns feedsText) =
        ⟨"a();\r\nb(); \r\n".toList, [1, 1, 0]⟩ := by
  have hRules : ∀ rule ∈ mixedRules, rule ∈ Rule.standard := by
    decide +kernel
  have hReturn : '\r' ∉ feedsText := by
    decide +kernel
  have hLeft :
      strip mixedRules feedsText =
        ⟨"a();\nb(); \n".toList, [1, 1, 0]⟩ := by
    decide +kernel
  have hText :
      withReturns "a();\nb(); \n".toList =
        "a();\r\nb(); \r\n".toList := by
    decide +kernel
  refine ⟨hRules, hReturn, ?_⟩
  rw [strip_withReturns hRules hReturn, hLeft, hText]

end Directive

end BiomeMigration
