import Mathlib.Data.List.Basic
import BiomeMigration.Yaml.Layout

/-
  Texts of rows, each of which gives a word to a key, plain
  or in double quotes. The tokens of such a text are those
  of one block mapping.

  Main declarations:
    * `Yaml.Row`
    * `Yaml.Row.IsSound`
    * `Yaml.Row.textOf`
    * `Yaml.tokens_textOf`
-/

------------------------------------------------------------
-- Rows
------------------------------------------------------------

namespace BiomeMigration

namespace Yaml

/- A key with a word as its value, which may be quoted. -/
structure Row where
  key : List Char
  quoted : Bool
  word : List Char
  deriving DecidableEq

namespace Row

/- A character of a key: a letter, a digit or an underscore. -/
def isKeyChar (c : Char) : Bool :=
  c.isAlphanum || c == '_'

/- A character of a word, which may also be a point. -/
def isWordChar (c : Char) : Bool :=
  isKeyChar c || c == '.'

/- The value as it is written. -/
def value (r : Row) : List Char :=
  if r.quoted then '"' :: (r.word ++ ['"']) else r.word

/- The line of a row, in front of a text. -/
def lineBefore
    (r : Row)
    (rest : List Char) : List Char :=
  r.key ++ ':' :: ' ' :: (r.value ++ '\n' :: rest)

/- The text of some rows. -/
def textOf : List Row → List Char
  | [] => []
  | r :: rows => r.lineBefore (textOf rows)

/- A row whose key can be read before its colon. -/
structure IsSound (r : Row) : Prop where
  key_ne_nil : r.key ≠ []
  key_length : r.key.length ≤ 1024
  key : ∀ c ∈ r.key, isKeyChar c = true
  word_ne_nil : r.word ≠ []
  word : ∀ c ∈ r.word, isWordChar c = true

theorem isSound_iff (r : Row) :
    r.IsSound ↔
      r.key ≠ [] ∧ r.key.length ≤ 1024 ∧
        (∀ c ∈ r.key, isKeyChar c = true) ∧
        r.word ≠ [] ∧ ∀ c ∈ r.word, isWordChar c = true :=
  ⟨fun h => ⟨h.1, h.2, h.3, h.4, h.5⟩,
    fun ⟨h₁, h₂, h₃, h₄, h₅⟩ => ⟨h₁, h₂, h₃, h₄, h₅⟩⟩

instance (r : Row) : Decidable r.IsSound :=
  decidable_of_iff _ (isSound_iff r).symm

/- The tokens of a row. -/
def tokens (r : Row) : List Token :=
  [.key, .scalar true (Text.ofChars r.key), .value,
    .scalar (!r.quoted) (Text.ofChars r.word)]

end Row

------------------------------------------------------------
-- Characters of Words
------------------------------------------------------------

/-
  A character without a meaning of its own: no blank, no
  sign that starts or ends a token, and no byte order mark.
-/
structure IsClear (c : Char) : Prop where
  space : c ≠ ' '
  tab : c ≠ '\t'
  inLine : isBreak c = false
  sign : Lexeme.indicators.contains c = false
  backslash : c ≠ '\\'
  mark : c.toNat ≠ 0xFEFF

theorem isClear_iff (c : Char) :
    IsClear c ↔
      c ≠ ' ' ∧ c ≠ '\t' ∧ isBreak c = false ∧
        Lexeme.indicators.contains c = false ∧ c ≠ '\\' ∧
        c.toNat ≠ 0xFEFF :=
  ⟨fun h => ⟨h.1, h.2, h.3, h.4, h.5, h.6⟩,
    fun ⟨h₁, h₂, h₃, h₄, h₅, h₆⟩ => ⟨h₁, h₂, h₃, h₄, h₅, h₆⟩⟩

instance (c : Char) : Decidable (IsClear c) :=
  decidable_of_iff _ (isClear_iff c).symm

namespace Row

theorem isWordChar_of_isKeyChar
    {c : Char}
    (hKey : isKeyChar c = true) :
    isWordChar c = true := by
  simp [isWordChar, hKey]

/- Words are written in ASCII. -/
theorem toNat_lt_of_isWordChar
    {c : Char}
    (hWord : isWordChar c = true) :
    c.toNat < 128 := by
  have hRange :
      ((((decide (65 ≤ c.val ∧ c.val ≤ 90) ||
            (97 ≤ c.val && c.val ≤ 122)) ||
          (48 ≤ c.val && c.val ≤ 57)) || c == '_') ||
        c == '.') = true := hWord
  simp only [UInt32.le_iff_toNat_le, Bool.or_eq_true,
    Bool.and_eq_true, decide_eq_true_eq, beq_iff_eq] at hRange
  have hValue : c.val.toNat = c.toNat := rfl
  rcases hRange with ((hLetter | hDigit) | rfl) | rfl
  · simp only [hValue] at hLetter
    simp at hLetter
    omega
  · simp only [hValue] at hDigit
    simp at hDigit
    omega
  · decide
  · decide

/- Characters of words are allowed and have no meaning. -/
theorem isClear_of_isWordChar
    {c : Char}
    (hWord : isWordChar c = true) :
    IsClear c ∧ isAllowed c = true := by
  have hAll :
      ∀ n < 128, isWordChar (Char.ofNat n) = true →
        IsClear (Char.ofNat n) ∧
          isAllowed (Char.ofNat n) = true := by
    decide
  have hSame := hAll c.toNat (toNat_lt_of_isWordChar hWord)
  rw [Char.ofNat_toNat] at hSame
  exact hSame hWord

theorem ne_point_of_isKeyChar
    {c : Char}
    (hKey : isKeyChar c = true) :
    c ≠ '.' := by
  rintro rfl
  exact absurd hKey (by decide)

end Row

------------------------------------------------------------
-- Positions
------------------------------------------------------------

namespace Cursor

variable {at_ : Cursor} {lead rest : List Char} {c : Char}

theorem rest_step : (at_.step c).rest = at_.rest.drop 1 := by
  unfold step
  dsimp only
  split
  · rfl
  · split
    · rfl
    · rfl

theorem rest_foldl_step (hRest : at_.rest = lead ++ rest) :
    (lead.foldl step at_).rest = rest := by
  induction lead generalizing at_ with
  | nil => exact hRest
  | cons d lead ih =>
      rw [List.foldl_cons]
      apply ih
      rw [rest_step, hRest]
      rfl

/- To move on is to step over the characters in between. -/
theorem moveTo_eq (hRest : at_.rest = lead ++ rest) :
    at_.moveTo rest = lead.foldl step at_ := by
  unfold moveTo
  rw [hRest, List.length_append, Nat.add_sub_cancel_right,
    List.take_left]

theorem moveTo_rest : at_.moveTo at_.rest = at_ :=
  moveTo_eq (List.nil_append at_.rest).symm

/- A character that neither ends a line nor is a mark. -/
theorem step_inLine
    (hLine : isBreak c = false)
    (hMark : c.toNat ≠ 0xFEFF) :
    at_.step c =
      ⟨at_.rest.drop 1, at_.index + 1, at_.line,
        at_.column + 1⟩ := by
  simp [step, hLine, hMark]

theorem step_break (hBreak : isBreak c = true) :
    at_.step c =
      ⟨at_.rest.drop 1, at_.index + 1, at_.line + 1, 0⟩ := by
  simp [step, hBreak]

/- To move on inside of a line. -/
theorem moveTo_inLine
    (hLead :
      ∀ d ∈ lead, isBreak d = false ∧ d.toNat ≠ 0xFEFF)
    (hRest : at_.rest = lead ++ rest) :
    at_.moveTo rest =
      ⟨rest, at_.index + lead.length, at_.line,
        at_.column + lead.length⟩ := by
  rw [moveTo_eq hRest]
  induction lead generalizing at_ with
  | nil =>
      rw [List.nil_append] at hRest
      subst hRest
      rfl
  | cons d lead ih =>
      rcases List.forall_mem_cons.mp hLead with ⟨hFirst, hMore⟩
      rw [List.foldl_cons, step_inLine hFirst.1 hFirst.2,
        ih hMore (by rw [hRest]; rfl)]
      simp only [List.length_cons, Nat.add_assoc,
        Nat.add_comm 1]

/- To move on to the next line. -/
theorem moveTo_nextLine
    (hRest : at_.rest = lead ++ '\n' :: rest) :
    (at_.moveTo rest).rest = rest ∧
      (at_.moveTo rest).column = 0 := by
  have hAll : at_.rest = (lead ++ ['\n']) ++ rest := by
    rw [hRest]
    simp
  rw [moveTo_eq hAll]
  refine ⟨rest_foldl_step hAll, ?_⟩
  rw [List.foldl_append, List.foldl_cons, List.foldl_nil,
    step_break (by decide)]

/- A text that does not start with blanks or a comment. -/
def StartsClear (cs : List Char) : Prop :=
  ∀ c ∈ cs.head?,
    c ≠ ' ' ∧ c ≠ '#' ∧ isBreak c = false ∧ c.toNat ≠ 0xFEFF

theorem gapFrom_clear
    {broken : Bool}
    (hClear : StartsClear rest) :
    gapFrom broken false rest = (broken, rest) := by
  cases rest with
  | nil => rfl
  | cons c rest =>
      rcases hClear c rfl with ⟨hSpace, hComment, hBreak, _⟩
      simp [gapFrom, hSpace, hComment, hBreak]

/- A mark is passed over at the start of a text only. -/
theorem gap_eq
    (hMark : ∀ c ∈ at_.rest.head?, c.toNat ≠ 0xFEFF) :
    at_.gap =
      ((gapFrom false false at_.rest).1,
        at_.moveTo (gapFrom false false at_.rest).2) := by
  unfold gap
  rcases at_ with ⟨_ | ⟨c, rest⟩, _ | index, line, column⟩
  · rfl
  · rfl
  · have hFirst := hMark c rfl
    simp [hFirst]
  · rfl

/- No gap is in front of a token. -/
theorem gap_clear (hClear : StartsClear at_.rest) :
    at_.gap = (false, at_) := by
  rw [gap_eq fun c hFirst => (hClear c hFirst).2.2.2,
    gapFrom_clear hClear, moveTo_rest]

/- The gap of a space. -/
theorem gap_space
    (hRest : at_.rest = ' ' :: rest)
    (hClear : StartsClear rest) :
    at_.gap =
      (false,
        ⟨rest, at_.index + 1, at_.line, at_.column + 1⟩) := by
  have hMove :
      at_.moveTo rest =
        ⟨rest, at_.index + [' '].length, at_.line,
          at_.column + [' '].length⟩ :=
    moveTo_inLine (by decide) hRest
  have hGap : gapFrom false false (' ' :: rest) = (false, rest) :=
    gapFrom_clear hClear
  rw [gap_eq (by rw [hRest]; simp), hRest, hGap, hMove]
  rfl

/- The gap of a line break. -/
theorem gap_break
    (hRest : at_.rest = '\n' :: rest)
    (hClear : StartsClear rest) :
    at_.gap = (true, at_.moveTo rest) := by
  have hGap : gapFrom false false ('\n' :: rest) = (true, rest) :=
    gapFrom_clear hClear
  rw [gap_eq (by rw [hRest]; simp), hRest, hGap]

end Cursor

------------------------------------------------------------
-- Scalars
------------------------------------------------------------

namespace Lexeme

variable {w rest : List Char}

/- A character of a word goes on with a plain scalar. -/
theorem plainFrom_cons
    {c : Char}
    (hClear : IsClear c)
    (indent : Int)
    (cs : List Char) :
    plainFrom false indent .word (c :: cs) =
      { plainFrom false indent .word cs with
        content := c :: (plainFrom false indent .word cs).content } := by
  have hColon : (c == ':') = false := by
    rw [beq_eq_false_iff_ne]
    rintro rfl
    exact absurd hClear.sign (by decide)
  rw [plainFrom]
  simp [hClear.space, hClear.tab, hClear.inLine, endsPlain, hColon]

/- A word in front of a text that ends it. -/
theorem plainFrom_word
    (hWord : ∀ c ∈ w, IsClear c)
    (indent : Int)
    {cs : List Char}
    {atLineStart : Bool}
    (hEnd :
      plainFrom false indent .word cs = ⟨[], atLineStart, rest⟩) :
    plainFrom false indent .word (w ++ cs) =
      ⟨w, atLineStart, rest⟩ := by
  induction w with
  | nil => exact hEnd
  | cons c w ih =>
      rcases List.forall_mem_cons.mp hWord with ⟨hFirst, hMore⟩
      rw [List.cons_append, plainFrom_cons hFirst, ih hMore]

/- The colon after a key ends it. -/
theorem plain_key
    (hWord : ∀ c ∈ w, IsClear c)
    (indent : Int) :
    plain false indent (w ++ ':' :: ' ' :: rest) =
      ⟨w, false, ':' :: ' ' :: rest⟩ := by
  apply plainFrom_word hWord
  rw [plainFrom]
  simp [endsPlain, endsWord, isBreak]

/- The line of a key, or the end of the text. -/
def StartsRow (cs : List Char) : Prop :=
  ∀ c ∈ cs.head?, IsClear c ∧ c ≠ '.'

theorem StartsRow.startsClear
    {cs : List Char}
    (hStarts : StartsRow cs) :
    Cursor.StartsClear cs := by
  intro c hFirst
  have hClear := (hStarts c hFirst).1
  refine ⟨hClear.space, ?_, hClear.inLine, hClear.mark⟩
  rintro rfl
  exact absurd hClear.sign (by decide)

theorem StartsRow.atMarker
    {cs : List Char}
    (hStarts : StartsRow cs) :
    atMarker cs = false := by
  cases cs with
  | nil => rfl
  | cons c cs =>
      rcases hStarts c rfl with ⟨hClear, hPoint⟩
      have hDash : c ≠ '-' := by
        rintro rfl
        exact absurd hClear.sign (by decide)
      unfold Yaml.atMarker
      split
      · next hSame =>
          cases hSame
          exact (hDash rfl).elim
      · next hSame =>
          cases hSame
          exact (hPoint rfl).elim
      · rfl

/- The end of its line ends a word in front of the next key. -/
theorem plain_value
    (hWord : ∀ c ∈ w, IsClear c)
    (hStarts : StartsRow rest) :
    plain false 1 (w ++ '\n' :: rest) = ⟨w, true, rest⟩ := by
  apply plainFrom_word hWord
  have hBreak : isBreak '\n' = true := by decide
  rw [plainFrom]
  simp only [hBreak, hStarts.atMarker]
  cases rest with
  | nil => rfl
  | cons c rest =>
      have hClear := (hStarts c rfl).1
      simp [plainFrom, hClear.space, hClear.inLine]

/- A word between double quotes. -/
theorem quoted_word
    (hWord : ∀ c ∈ w, IsClear c) :
    quoted .double (w ++ '"' :: rest) =
      .ok (Text.ofChars w, rest) := by
  unfold quoted
  induction w with
  | nil => rfl
  | cons c w ih =>
      rcases List.forall_mem_cons.mp hWord with ⟨hFirst, hMore⟩
      have hQuote : c ≠ '"' := by
        rintro rfl
        exact absurd hFirst.sign (by decide)
      have hStep :
          Quote.double.step .text c (w ++ '"' :: rest) =
            .ok ([.scalar c], .goOn .text) := by
        simp [Quote.step, Quote.textStep, hFirst.space, hFirst.tab,
          hFirst.inLine, hQuote, hFirst.backslash]
      rw [List.cons_append, quotedFrom, hStep]
      show (quotedFrom .double .text (w ++ '"' :: rest)).bind _ = _
      rw [ih hMore]
      rfl

end Lexeme

namespace Row

open Lexeme (StartsRow)

/- The line of a row starts with its key. -/
theorem IsSound.startsRow
    {r : Row}
    (hSound : r.IsSound)
    (rest : List Char) :
    StartsRow (r.lineBefore rest) := by
  intro c hFirst
  rcases List.exists_cons_of_ne_nil hSound.key_ne_nil with
    ⟨d, key, hCons⟩
  rw [lineBefore, hCons] at hFirst
  rcases Option.mem_some.mp hFirst with rfl
  have hKey := hSound.key d (by simp [hCons])
  exact ⟨(isClear_of_isWordChar (isWordChar_of_isKeyChar hKey)).1,
    ne_point_of_isKeyChar hKey⟩

theorem startsRow_textOf
    {rows : List Row}
    (hSound : ∀ r ∈ rows, r.IsSound) :
    StartsRow (textOf rows) := by
  cases rows with
  | nil =>
      intro c hFirst
      cases hFirst
  | cons r rows => exact (hSound r (by simp)).startsRow _

/- The signs in the text of rows, besides keys and words. -/
def textSigns : List Char :=
  [':', ' ', '"', '\n']

/- The text of rows is made of words and signs. -/
theorem mem_textOf
    {rows : List Row}
    (hSound : ∀ r ∈ rows, r.IsSound) :
    ∀ c ∈ textOf rows, isWordChar c = true ∨ c ∈ textSigns := by
  induction rows with
  | nil =>
      intro c hMem
      cases hMem
  | cons r rows ih =>
      rcases List.forall_mem_cons.mp hSound with ⟨hRow, hMore⟩
      have hValue :
          ∀ c ∈ r.value, isWordChar c = true ∨ c ∈ textSigns := by
        intro c hMem
        unfold value at hMem
        split at hMem
        · simp only [List.mem_cons, List.mem_append,
            List.not_mem_nil, or_false] at hMem
          rcases hMem with rfl | hWord | rfl
          · exact Or.inr (by decide)
          · exact Or.inl (hRow.word c hWord)
          · exact Or.inr (by decide)
        · exact Or.inl (hRow.word c hMem)
      intro c hMem
      unfold textOf lineBefore at hMem
      simp only [List.mem_append, List.mem_cons] at hMem
      rcases hMem with hKey | rfl | rfl | hIn | rfl | hRest
      · exact Or.inl (isWordChar_of_isKeyChar (hRow.key c hKey))
      · exact Or.inr (by decide)
      · exact Or.inr (by decide)
      · exact hValue c hIn
      · exact Or.inr (by decide)
      · exact ih hMore c hRest

/- The text of rows is made of characters that may occur. -/
theorem all_isAllowed_textOf
    {rows : List Row}
    (hSound : ∀ r ∈ rows, r.IsSound) :
    (textOf rows).all isAllowed = true := by
  have hSigns : ∀ c ∈ textSigns, isAllowed c = true := by decide
  rw [List.all_eq_true]
  intro c hMem
  rcases mem_textOf hSound c hMem with hWord | hSign
  · exact (isClear_of_isWordChar hWord).2
  · exact hSigns c hSign

/- The lines of rows end with line feeds alone. -/
theorem return_not_mem_textOf
    {rows : List Row}
    (hSound : ∀ r ∈ rows, r.IsSound) :
    '\r' ∉ textOf rows := by
  intro hMem
  rcases mem_textOf hSound '\r' hMem with hWord | hSign
  · exact absurd hWord (by decide)
  · exact absurd hSign (by decide)

end Row

------------------------------------------------------------
-- Steps
------------------------------------------------------------

namespace Layout

open Lexeme (StartsRow)

variable {l : Layout} {c : Char} {rest w : List Char}

/- Read a token. -/
def advance (l : Layout) : Except Fault Layout := do
  let l ← l.dropStale
  l.next

theorem tokensFrom_advance
    {next : Layout}
    (hAdvance : l.advance = .ok next)
    (hEnd : next.tokens.getLast? ≠ some .streamEnd)
    (count : Nat) :
    tokensFrom l (count + 1) = tokensFrom next count := by
  unfold advance at hAdvance
  rw [tokensFrom]
  cases hStale : l.dropStale with
  | error fault =>
      rw [hStale] at hAdvance
      cases hAdvance
  | ok fresh =>
      rw [hStale] at hAdvance
      have hNext : fresh.next = .ok next := hAdvance
      have hOther :
          (next.tokens.getLast? == some .streamEnd) = false :=
        beq_eq_false_iff_ne.mpr hEnd
      simp only [hNext, hOther]
      rfl

theorem tokensFrom_end
    {next : Layout}
    (hAdvance : l.advance = .ok next)
    (hEnd : next.tokens.getLast? = some .streamEnd)
    (count : Nat) :
    tokensFrom l (count + 1) = ⟨next.tokens, none⟩ := by
  unfold advance at hAdvance
  rw [tokensFrom]
  cases hStale : l.dropStale with
  | error fault =>
      rw [hStale] at hAdvance
      cases hAdvance
  | ok fresh =>
      rw [hStale] at hAdvance
      have hNext : fresh.next = .ok next := hAdvance
      simp only [hNext, hEnd]
      rfl

/- No candidate is dropped as long as none is stale. -/
theorem dropStale_eq
    (hFresh : ∀ p ∈ l.candidates, l.isStale p.2 = false) :
    l.dropStale = .ok l := by
  unfold dropStale
  dsimp only
  rw [List.filter_eq_nil_iff.mpr, List.filter_eq_self.mpr]
  · rfl
  · intro p hMem
    simp [hFresh p hMem]
  · intro p hMem
    simp [hFresh p hMem]

/- No block is closed by a line that is not further out. -/
theorem unwind_eq
    {column : Int}
    (hColumn : l.indent ≤ column) :
    l.unwind column = l := by
  have hClose :
      closeTo column l.indent l.outer l.tokens =
        (l.indent, l.outer, l.tokens) := by
    cases l.outer with
    | nil => rfl
    | cons above outer =>
        rw [closeTo, if_neg (Int.not_lt.mpr hColumn)]
  unfold unwind
  split
  · rfl
  · rw [hClose]

/- The state after a gap, in which a line may end. -/
def afterGap
    (l : Layout)
    (broken : Bool)
    (at_ : Cursor) : Layout :=
  { l with cursor := at_, keyAllowed := broken || l.keyAllowed }

/- The next token, outside brackets, after a gap. -/
theorem next_eq
    {broken : Bool}
    {at_ : Cursor}
    (hGap : l.cursor.gap = (broken, at_))
    (hDepth : l.depth = 0)
    (hFresh :
      ∀ p ∈ l.candidates,
        (l.afterGap broken at_).isStale p.2 = false)
    (hColumn : l.indent ≤ at_.column) :
    l.next =
      match at_.rest with
      | [] => (l.afterGap broken at_).finish
      | c :: rest => (l.afterGap broken at_).tokenAt c rest := by
  have hFlow : { l with cursor := at_ }.inFlow = false := by
    simp [inFlow, hDepth]
  have hAllow :
      (if (broken && !{ l with cursor := at_ }.inFlow) = true then
          { l with cursor := at_ }.allowKey true
        else { l with cursor := at_ }) =
        l.afterGap broken at_ := by
    rw [hFlow]
    cases broken with
    | true => rfl
    | false => rfl
  have hStale :
      (l.afterGap broken at_).dropStale =
        .ok (l.afterGap broken at_) :=
    dropStale_eq hFresh
  have hUnwind :
      (l.afterGap broken at_).unwind at_.column =
        l.afterGap broken at_ :=
    unwind_eq hColumn
  unfold next
  rw [hGap]
  dsimp only
  rw [hAllow, hStale]
  show (match at_.rest with
    | [] => Layout.finish (unwind _ _)
    | c :: rest => Layout.tokenAt (unwind _ _) c rest) = _
  rw [hUnwind]

/- A character without a meaning starts a plain scalar. -/
theorem tokenAt_clear
    (hClear : IsClear c)
    (hMarker :
      (l.cursor.column == 0 && atMarker (c :: rest)) = false) :
    l.tokenAt c rest = l.plain := by
  have hSign := hClear.sign
  have hNe :
      ∀ d, Lexeme.indicators.contains d = true →
        (c == d) = false := by
    intro d hIndicator
    rw [beq_eq_false_iff_ne]
    rintro rfl
    rw [hSign] at hIndicator
    cases hIndicator
  have hStarts :
      Lexeme.startsPlain l.inFlow (c :: rest) = true := by
    have hWord : endsWord [c] = false := by
      simp [endsWord, hClear.space, hClear.tab, hClear.inLine]
    simp only [Lexeme.startsPlain, hSign, hWord]
    rfl
  unfold tokenAt
  simp only [hNe '%' (by decide), hNe '[' (by decide),
    hNe '\x7b' (by decide), hNe ']' (by decide),
    hNe '\x7d' (by decide), hNe ',' (by decide),
    hNe '-' (by decide), hNe '?' (by decide),
    hNe ':' (by decide), hNe '*' (by decide),
    hNe '&' (by decide), hNe '!' (by decide),
    hNe '|' (by decide), hNe '>' (by decide),
    hNe '\'' (by decide), hNe '"' (by decide), hMarker, hStarts,
    Bool.false_and, if_true, Bool.false_eq_true, if_false]

theorem tokenAt_colon :
    l.tokenAt ':' (' ' :: rest) = l.value := by
  have hMarker : atMarker (':' :: ' ' :: rest) = false := rfl
  have hWord : endsWord (' ' :: rest) = true := rfl
  unfold tokenAt
  simp only [hMarker, hWord, Bool.and_false, Bool.or_true]
  rfl

theorem tokenAt_quote :
    l.tokenAt '"' rest =
      l.part
        (found (.scalar false) (Lexeme.quoted .double rest)) := by
  have hMarker : atMarker ('"' :: rest) = false := rfl
  unfold tokenAt
  simp only [hMarker, Bool.and_false]
  rfl

/- A plain scalar, which no candidate comes before. -/
theorem plain_eq
    {found : Lexeme.Plain}
    (hFound :
      Lexeme.plain false (l.indent + 1) l.cursor.rest = found)
    (hDepth : l.depth = 0)
    (hNone : l.candidates = []) :
    l.plain =
      .ok
        { l with
          cursor := l.cursor.moveTo found.rest
          keyAllowed := found.atLineStart
          candidates :=
            if l.keyAllowed then
              [(0, ⟨l.tokens.length, l.indent == l.cursor.column,
                l.cursor.index, l.cursor.line, l.cursor.column⟩)]
            else []
          tokens :=
            l.tokens ++
              [.scalar true (Text.ofChars found.content)] } := by
  have hFlow : l.inFlow = false := by
    simp [inFlow, hDepth]
  subst hFound
  rcases l with
    ⟨at_, indent, outer, depth, keyAllowed, candidates, tokens⟩
  dsimp only at hDepth hNone
  subst hDepth
  subst hNone
  unfold plain
  rw [hFlow]
  cases keyAllowed with
  | false => rfl
  | true => rfl

/-
  The start of a line outside brackets, where `cs` follows.
  The block mapping of the text is open or not.
-/
structure AtRow
    (opened : Bool)
    (cs : List Char)
    (done : List Token)
    (l : Layout) : Prop where
  indent : l.indent = if opened then 0 else -1
  outer : l.outer = if opened then [-1] else []
  depth : l.depth = 0
  candidates : l.candidates = []
  tokens : l.tokens = done
  gap :
    ∃ broken at_,
      l.cursor.gap = (broken, at_) ∧ at_.rest = cs ∧
        at_.column = 0 ∧ (broken || l.keyAllowed) = true

/- The start of the line of a row whose line comes next. -/
theorem atRow_start
    {at_ : Cursor}
    {cs : List Char}
    (done : List Token)
    (hRest : at_.rest = cs)
    (hColumn : at_.column = 0)
    (hStarts : StartsRow cs) :
    AtRow true cs done ⟨at_, 0, [-1], 0, true, [], done⟩ := by
  subst hRest
  exact ⟨rfl, rfl, rfl, rfl, rfl, false, at_,
    Cursor.gap_clear hStarts.startsClear, rfl, hColumn, rfl⟩

/- The end of the line in front of a row. -/
theorem atRow_break
    {at_ : Cursor}
    {cs : List Char}
    (done : List Token)
    (hRest : at_.rest = '\n' :: cs)
    (hStarts : StartsRow cs) :
    AtRow true cs done ⟨at_, 0, [-1], 0, false, [], done⟩ := by
  have hMove :=
    Cursor.moveTo_nextLine (show at_.rest = [] ++ '\n' :: cs from hRest)
  exact ⟨rfl, rfl, rfl, rfl, rfl, true, at_.moveTo cs,
    Cursor.gap_break hRest hStarts.startsClear, hMove.1, hMove.2,
    rfl⟩

/- The state between a key and its colon. -/
def keyRead
    (opened : Bool)
    (done : List Token)
    (key rest : List Char)
    (index line : Nat) : Layout where
  cursor :=
    ⟨':' :: ' ' :: rest, index + key.length, line, key.length⟩
  indent := if opened then 0 else -1
  outer := if opened then [-1] else []
  depth := 0
  keyAllowed := false
  candidates := [(0, ⟨done.length, opened, index, line, 0⟩)]
  tokens := done ++ [.scalar true (Text.ofChars key)]

theorem advance_key
    {opened : Bool}
    {done : List Token}
    {key : List Char}
    (hStarts : StartsRow (key ++ ':' :: ' ' :: rest))
    (hKey : ∀ c ∈ key, IsClear c)
    (hRow : l.AtRow opened (key ++ ':' :: ' ' :: rest) done) :
    ∃ index line,
      l.advance = .ok (keyRead opened done key rest index line) := by
  rcases hRow.gap with ⟨broken, at_, hGap, hRest, hColumn, hAllowed⟩
  have hFresh : l.dropStale = .ok l :=
    dropStale_eq (by simp [hRow.candidates])
  have hIndent : l.indent ≤ at_.column := by
    rw [hRow.indent, hColumn]
    cases opened with
    | true => decide
    | false => decide
  have hNext :=
    next_eq hGap hRow.depth (by simp [hRow.candidates]) hIndent
  have hMove :=
    Cursor.moveTo_inLine
      (fun d hMem => ⟨(hKey d hMem).inLine, (hKey d hMem).mark⟩)
      hRest
  refine ⟨at_.index, at_.line, ?_⟩
  unfold advance
  rw [hFresh]
  show l.next = _
  rw [hNext, hRest]
  have hStop :
      Lexeme.plain false ((l.afterGap broken at_).indent + 1)
          (l.afterGap broken at_).cursor.rest =
        ⟨key, false, ':' :: ' ' :: rest⟩ := by
    show Lexeme.plain false (l.indent + 1) at_.rest = _
    rw [hRest, Lexeme.plain_key hKey]
  have hPlain :=
    plain_eq (l := l.afterGap broken at_) hStop hRow.depth
      hRow.candidates
  cases hCons : key ++ ':' :: ' ' :: rest with
  | nil => simp at hCons
  | cons c more =>
      rw [hCons] at hStarts
      show (l.afterGap broken at_).tokenAt c more = _
      rw [tokenAt_clear (hStarts c rfl).1
        (by rw [hStarts.atMarker, Bool.and_false]), hPlain]
      unfold keyRead afterGap
      dsimp only
      rw [hMove, hAllowed, hRow.indent, hRow.outer, hRow.depth,
        hRow.tokens, hColumn]
      cases opened with
      | true => simp
      | false => simp

/- The state between a colon and its value. -/
def colonRead
    (done : List Token)
    (rest : List Char)
    (index line column : Nat) : Layout where
  cursor := ⟨' ' :: rest, index, line, column⟩
  indent := 0
  outer := [-1]
  depth := 0
  keyAllowed := false
  candidates := []
  tokens := done

/- The first key of a text opens its mapping. -/
def opening (opened : Bool) : List Token :=
  if opened then [] else [.blockMapping]

theorem advance_colon
    (opened : Bool)
    (done : List Token)
    (rest : List Char)
    {key : List Char}
    (hLength : key.length ≤ 1024)
    (index line : Nat) :
    (keyRead opened done key rest index line).advance =
      .ok
        (colonRead
          (done ++ opening opened ++
            [.key, .scalar true (Text.ofChars key), .value])
          rest (index + key.length + 1) line (key.length + 1)) := by
  have hIsFresh :
      ∀ p ∈ (keyRead opened done key rest index line).candidates,
        (keyRead opened done key rest index line).isStale p.2 =
          false := by
    intro p hMem
    rcases List.mem_singleton.mp hMem with rfl
    simp [isStale, keyRead]
    omega
  have hGap :
      (keyRead opened done key rest index line).cursor.gap =
        (false, (keyRead opened done key rest index line).cursor) :=
    Cursor.gap_clear (by
      intro c hFirst
      rcases Option.mem_some.mp hFirst with rfl
      decide)
  have hIndent :
      (keyRead opened done key rest index line).indent ≤
        (keyRead opened done key rest index line).cursor.column := by
    cases opened with
    | true => simp [keyRead]
    | false =>
        simp only [keyRead]
        omega
  have hMove :
      (keyRead opened done key rest index line).cursor.moveTo
          (' ' :: rest) =
        ⟨' ' :: rest, index + key.length + [':'].length, line,
          key.length + [':'].length⟩ :=
    Cursor.moveTo_inLine (by decide) rfl
  unfold advance
  rw [dropStale_eq hIsFresh]
  show (keyRead opened done key rest index line).next = _
  rw [next_eq hGap rfl hIsFresh hIndent]
  show (keyRead opened done key rest index line).tokenAt ':'
    (' ' :: rest) = _
  rw [tokenAt_colon]
  show Except.ok
    ((keyRead opened done key rest index line).valueOf
      ⟨done.length, opened, index, line, 0⟩) = _
  unfold keyRead at hMove
  cases opened with
  | true =>
      simp [valueOf, forget, insert, opens, inFlow, allowKey, push,
        skip, Cursor.skip, hMove, keyRead, colonRead, opening]
  | false =>
      simp [valueOf, forget, insert, opens, inFlow, allowKey, push,
        skip, Cursor.skip, hMove, keyRead, colonRead, opening,
        indentTo]

/- The state at a value, after the space in front of it. -/
def valueAhead
    (done : List Token)
    (cs : List Char)
    (index line column : Nat) : Layout where
  cursor := ⟨cs, index, line, column⟩
  indent := 0
  outer := [-1]
  depth := 0
  keyAllowed := false
  candidates := []
  tokens := done

theorem advance_space
    (done : List Token)
    (index line column : Nat)
    (hClear : Cursor.StartsClear (c :: rest)) :
    (colonRead done (c :: rest) index line column).advance =
      (valueAhead done (c :: rest) (index + 1) line
        (column + 1)).tokenAt c rest := by
  have hGap :
      (colonRead done (c :: rest) index line column).cursor.gap =
        (false, ⟨c :: rest, index + 1, line, column + 1⟩) :=
    Cursor.gap_space rfl hClear
  have hNext :=
    next_eq hGap rfl (fun p hMem => by cases hMem)
      (by simp [colonRead]; omega)
  unfold advance
  rw [dropStale_eq fun p hMem => by cases hMem]
  exact hNext

/- A value without quotes ends with its line. -/
theorem tokenAt_plain
    (done : List Token)
    (index line column : Nat)
    (hWord : ∀ d ∈ c :: w, IsClear d)
    (hStarts : StartsRow rest) :
    ∃ next,
      (valueAhead done (c :: (w ++ '\n' :: rest)) index line
          (column + 1)).tokenAt c (w ++ '\n' :: rest) = .ok next ∧
        next.AtRow true rest
          (done ++ [.scalar true (Text.ofChars (c :: w))]) := by
  have hPlain :=
    plain_eq
      (l :=
        valueAhead done (c :: (w ++ '\n' :: rest)) index line
          (column + 1))
      (Lexeme.plain_value hWord hStarts) rfl rfl
  have hRest :
      (Cursor.mk (c :: (w ++ '\n' :: rest)) index line
        (column + 1)).rest = (c :: w) ++ '\n' :: rest := rfl
  have hMove := Cursor.moveTo_nextLine hRest
  rw [tokenAt_clear (hWord c (by simp)) rfl, hPlain]
  exact ⟨_, rfl, atRow_start _ hMove.1 hMove.2 hStarts⟩

/- A quoted value ends with its second quote. -/
theorem tokenAt_quoted
    (done : List Token)
    (index line column : Nat)
    (hWord : ∀ d ∈ w, IsClear d)
    (hStarts : StartsRow rest) :
    ∃ next,
      (valueAhead done ('"' :: (w ++ '"' :: '\n' :: rest)) index
          line column).tokenAt '"' (w ++ '"' :: '\n' :: rest) =
          .ok next ∧
        next.AtRow true rest
          (done ++ [.scalar false (Text.ofChars w)]) := by
  have hRest :
      (Cursor.mk ('"' :: (w ++ '"' :: '\n' :: rest)) index line
        column).rest =
        ('"' :: (w ++ ['"'])) ++ '\n' :: rest := by
    simp
  have hMove :
      ((Cursor.mk ('"' :: (w ++ '"' :: '\n' :: rest)) index line
        column).moveTo ('\n' :: rest)).rest = '\n' :: rest := by
    rw [Cursor.moveTo_eq hRest]
    exact Cursor.rest_foldl_step hRest
  rw [tokenAt_quote, Lexeme.quoted_word hWord]
  exact ⟨_, rfl, atRow_break _ hMove hStarts⟩

/- The end of the text closes its mapping. -/
theorem advance_end
    {done : List Token}
    (hRow : l.AtRow true [] done) :
    ∃ next,
      l.advance = .ok next ∧
        next.tokens = done ++ [.blockEnd, .streamEnd] := by
  rcases hRow.gap with ⟨broken, at_, hGap, hRest, hColumn, _⟩
  have hNext :=
    next_eq hGap hRow.depth (by simp [hRow.candidates])
      (by rw [hRow.indent, hColumn]; decide)
  have hFresh : l.dropStale = .ok l :=
    dropStale_eq (by simp [hRow.candidates])
  rcases l with
    ⟨cursor, indent, outer, depth, keyAllowed, candidates, tokens⟩
  rcases hRow with ⟨hIndent, hOuter, hDepth, hNone, hTokens, _⟩
  dsimp only at hIndent hOuter hDepth hNone hTokens
  subst hIndent hOuter hDepth hNone hTokens
  unfold advance
  rw [hFresh]
  show ∃ next, Layout.next _ = .ok next ∧ _
  rw [hNext, hRest]
  refine ⟨_, rfl, ?_⟩
  simp [push, afterGap, unwind, inFlow, closeTo, forget]

------------------------------------------------------------
-- Runs
------------------------------------------------------------

/- Reading a value gives its token. -/
theorem advance_value
    {r : Row}
    (hSound : r.IsSound)
    (done : List Token)
    (index line column : Nat)
    (hStarts : StartsRow rest) :
    ∃ next,
      (colonRead done (r.value ++ '\n' :: rest) index line
          column).advance = .ok next ∧
        next.AtRow true rest
          (done ++ [.scalar (!r.quoted) (Text.ofChars r.word)]) := by
  have hWord : ∀ d ∈ r.word, IsClear d := fun d hMem =>
    (Row.isClear_of_isWordChar (hSound.word d hMem)).1
  have hStartsClear :
      ∀ {c : Char} {more : List Char},
        c ≠ '#' → c ≠ ' ' → isBreak c = false →
          c.toNat ≠ 0xFEFF → Cursor.StartsClear (c :: more) := by
    intro c more hComment hSpace hLine hMark d hFirst
    rcases Option.mem_some.mp hFirst with rfl
    exact ⟨hSpace, hComment, hLine, hMark⟩
  cases hQuoted : r.quoted with
  | false =>
      cases hCons : r.word with
      | nil => exact (hSound.word_ne_nil hCons).elim
      | cons c w =>
          rw [hCons] at hWord
          have hClear := hWord c (by simp)
          have hComment : c ≠ '#' := by
            rintro rfl
            exact absurd hClear.sign (by decide)
          rw [Row.value, hQuoted, hCons]
          show ∃ next,
            (colonRead done (c :: (w ++ '\n' :: rest)) index line
              column).advance = .ok next ∧ _
          rw [advance_space _ _ _ _
            (hStartsClear hComment hClear.space hClear.inLine
              hClear.mark)]
          exact tokenAt_plain done _ _ _ hWord hStarts
  | true =>
      have hText :
          r.value ++ '\n' :: rest =
            '"' :: (r.word ++ '"' :: '\n' :: rest) := by
        simp [Row.value, hQuoted]
      rw [hText, advance_space _ _ _ _
        (hStartsClear (by decide) (by decide) (by decide)
          (by decide))]
      exact tokenAt_quoted done _ _ _ hWord hStarts

/- Reading the line of a row gives its tokens. -/
theorem tokensFrom_row
    {r : Row}
    (hSound : r.IsSound)
    {opened : Bool}
    {done : List Token}
    (hStarts : StartsRow rest)
    (hRow : l.AtRow opened (r.lineBefore rest) done)
    (count : Nat) :
    ∃ next,
      tokensFrom l (count + 3) = tokensFrom next count ∧
        next.AtRow true rest
          (done ++ opening opened ++ r.tokens) := by
  have hKey : ∀ d ∈ r.key, IsClear d := fun d hMem =>
    (Row.isClear_of_isWordChar
      (Row.isWordChar_of_isKeyChar (hSound.key d hMem))).1
  have hFirst := hSound.startsRow rest
  rcases advance_key hFirst hKey hRow with ⟨index, line, hOne⟩
  have hTwo :=
    advance_colon opened done (r.value ++ '\n' :: rest)
      hSound.key_length index line
  rcases advance_value hSound
      (done ++ opening opened ++
        [.key, .scalar true (Text.ofChars r.key), .value])
      (index + r.key.length + 1) line (r.key.length + 1) hStarts with
    ⟨next, hThree, hNext⟩
  refine ⟨next, ?_, ?_⟩
  · rw [tokensFrom_advance hOne (by simp [keyRead]),
      tokensFrom_advance hTwo (by simp [colonRead]),
      tokensFrom_advance hThree (by simp [hNext.tokens])]
  · rw [List.append_assoc (done ++ opening opened)] at hNext
    exact hNext

theorem tokensFrom_rows
    {rows : List Row}
    (hSound : ∀ r ∈ rows, r.IsSound)
    {done : List Token}
    (hRow : l.AtRow true (Row.textOf rows) done)
    (count : Nat) :
    tokensFrom l (3 * rows.length + (count + 1)) =
      ⟨done ++ rows.flatMap Row.tokens ++ [.blockEnd, .streamEnd],
        none⟩ := by
  induction rows generalizing l done with
  | nil =>
      rcases advance_end hRow with ⟨next, hAdvance, hTokens⟩
      rw [List.length_nil, Nat.mul_zero, Nat.zero_add,
        tokensFrom_end hAdvance (by simp [hTokens]), hTokens,
        List.flatMap_nil, List.append_nil]
  | cons r rows ih =>
      rcases List.forall_mem_cons.mp hSound with ⟨hFirst, hMore⟩
      rcases tokensFrom_row hFirst (Row.startsRow_textOf hMore) hRow
          (3 * rows.length + (count + 1)) with
        ⟨next, hRead, hNext⟩
      have hCount :
          3 * (r :: rows).length + (count + 1) =
            3 * rows.length + (count + 1) + 3 := by
        simp only [List.length_cons]
        omega
      rw [hCount, hRead, ih hMore hNext]
      simp [opening]

end Layout

/- The line of a row has more characters than tokens to read. -/
theorem Row.length_textOf
    {rows : List Row}
    (hSound : ∀ r ∈ rows, r.IsSound) :
    3 * rows.length ≤ (Row.textOf rows).length := by
  induction rows with
  | nil => exact Nat.le_refl _
  | cons r rows ih =>
      rcases List.forall_mem_cons.mp hSound with ⟨_, hMore⟩
      have hLe := ih hMore
      simp only [Row.textOf, Row.lineBefore, List.length_append,
        List.length_cons]
      omega

/-
  The tokens of the text of some rows: one block mapping
  that holds the tokens of the rows in order.
-/
theorem tokens_textOf
    {r : Row}
    {rows : List Row}
    (hSound : ∀ s ∈ r :: rows, s.IsSound) :
    tokens (Row.textOf (r :: rows)) =
      ⟨.blockMapping ::
          ((r :: rows).flatMap Row.tokens ++
            [.blockEnd, .streamEnd]),
        none⟩ := by
  rcases List.forall_mem_cons.mp hSound with ⟨hFirst, hMore⟩
  have hStarts := Row.startsRow_textOf hSound
  have hRow :
      (Layout.ofText (Row.textOf (r :: rows))).AtRow false
        (r.lineBefore (Row.textOf rows)) [] :=
    ⟨rfl, rfl, rfl, rfl, rfl, false, _,
      Cursor.gap_clear hStarts.startsClear, rfl, rfl, rfl⟩
  have hLength := Row.length_textOf hSound
  rw [List.length_cons] at hLength
  obtain ⟨count, hCount⟩ :
      ∃ count,
        (Row.textOf (r :: rows)).length + 1 =
          3 * rows.length + (count + 1) + 3 :=
    ⟨(Row.textOf (r :: rows)).length - 3 * rows.length - 3,
      by omega⟩
  rcases Layout.tokensFrom_row hFirst (Row.startsRow_textOf hMore)
      hRow (3 * rows.length + (count + 1)) with
    ⟨next, hRead, hNext⟩
  unfold tokens
  rw [if_pos (Row.all_isAllowed_textOf hSound), hCount, hRead,
    Layout.tokensFrom_rows hMore hNext]
  simp [Layout.opening]

end Yaml

end BiomeMigration
