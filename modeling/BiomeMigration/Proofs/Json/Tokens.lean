import BiomeMigration.Json.Parser
import BiomeMigration.Proofs.Json.Numeral
import BiomeMigration.Proofs.Json.Quoted

/-
  The tokens that printed text is made of, in front of more
  text: blanks, single characters, quoted strings, words and
  numbers.

  Main declarations:
    * `Json.Shows`
    * `Json.shows_quote`
    * `Json.shows_numeral`
    * `Json.Shows.scanFrom_eq`
-/

------------------------------------------------------------
-- Scanning
------------------------------------------------------------

namespace BiomeMigration

namespace Json

/- Characters of a token that has been read. -/
theorem scanFrom_skip
    (pos : Nat)
    (part rest : List Char) :
    scanFrom pos part.length (part ++ rest) =
      scanFrom (pos + part.length) 0 rest := by
  induction part generalizing pos with
  | nil => rfl
  | cons c part ih =>
      rw [List.length_cons, List.cons_append, scanFrom_succ, ih]
      congr 1
      omega

/- Blanks are passed over. -/
theorem scanFrom_spaces
    {part : List Char}
    (hSpaces : ∀ c ∈ part, isSpace c = true)
    (pos : Nat)
    (rest : List Char) :
    scanFrom pos 0 (part ++ rest) =
      scanFrom (pos + part.length) 0 rest := by
  induction part generalizing pos with
  | nil => rfl
  | cons c part ih =>
      rw [List.cons_append, scanFrom_zero,
        if_pos (hSpaces c (by simp)),
        ih (fun d hd => hSpaces d (by simp [hd]))]
      congr 1
      simp only [List.length_cons]
      omega

/-
  In front of some text, characters are read as one token.
-/
def Shows
    (part : List Char)
    (token : Token)
    (rest : List Char) : Prop :=
  part ≠ [] ∧
    (∀ c ∈ part.head?, isSpace c = false) ∧
    ∀ pos, tokenAt pos (part ++ rest) = (token, part.length)

theorem Shows.scanFrom_eq
    {part rest : List Char}
    {token : Token}
    (hShows : Shows part token rest)
    (pos : Nat) :
    scanFrom pos 0 (part ++ rest) =
      (pos, token) :: scanFrom (pos + part.length) 0 rest := by
  rcases hShows with ⟨hPart, hSpace, hToken⟩
  cases part with
  | nil => exact (hPart rfl).elim
  | cons c part =>
      have hStart : isSpace c = false := hSpace c rfl
      have hHere := hToken pos
      rw [List.cons_append] at hHere ⊢
      rw [scanFrom_zero]
      simp only [hStart, hHere, Bool.false_eq_true, if_false,
        List.length_cons, Nat.add_sub_cancel]
      rw [scanFrom_skip]
      congr 2
      omega

------------------------------------------------------------
-- Tokens
------------------------------------------------------------

/- A character that is a token of its own. -/
theorem shows_punctuation
    {c : Char}
    {token : Token}
    (hToken : punctuation? c = some token)
    (rest : List Char) :
    Shows [c] token rest := by
  refine ⟨by simp, ?_, ?_⟩
  · intro d hd
    have hEq : c = d := by simpa using hd
    rw [← hEq]
    unfold punctuation? at hToken
    split at hToken
    case h_7 => simp at hToken
    all_goals rfl
  · intro pos
    rw [List.cons_append, tokenAt, hToken]
    rfl

/- A quoted text is the token of that text. -/
theorem shows_quote
    (charset : Charset)
    {t : Text}
    (hPlain : t.IsPlain)
    (rest : List Char) :
    Shows (quote charset t).plain (.string t) rest := by
  have hText := hPlain.ofChars_plain
  have hQuote :
      (quote charset t).plain =
        '"' ::
          (Text.plain (t.flatMap (quotePoint charset)) ++
            ['"']) := by
    unfold quote
    simp
  rw [hQuote]
  refine ⟨by simp, ?_, ?_⟩
  · intro c hc
    have hEq : '"' = c := by simpa using hc
    rw [← hEq]
    rfl
  · intro pos
    have hRead := stringFrom_quoted charset t.plain pos
      (pos + 1) rest
    rw [hText] at hRead
    rw [List.cons_append, List.append_assoc,
      List.cons_append, List.nil_append, tokenAt]
    have hNone : punctuation? '"' = none := rfl
    simp only [hNone, hRead]
    simp

/- Words are values. -/
theorem shows_word
    {word : List Char}
    {v : Json}
    (hWord : (word, v) ∈ words)
    (rest : List Char) :
    Shows word (.scalar v) rest := by
  unfold words at hWord
  simp only [List.mem_cons, Prod.mk.injEq,
    List.not_mem_nil, or_false] at hWord
  rcases hWord with
    ⟨rfl, rfl⟩ | ⟨rfl, rfl⟩ | ⟨rfl, rfl⟩ | ⟨rfl, rfl⟩ |
      ⟨rfl, rfl⟩ | ⟨rfl, rfl⟩
  all_goals
    refine ⟨List.cons_ne_nil _ _, ?_, fun pos => rfl⟩
    rintro c ⟨rfl⟩
    decide

/-
  A number starts with a digit, or with a sign and a digit.
-/
def NumeralHead (cs : List Char) : Prop :=
  ∃ c tail,
    cs = c :: tail ∧
      (isDigit c = true ∨
        (c = '-' ∧ ∃ d more,
          tail = d :: more ∧ isDigit d = true))

theorem numeralHead_of_numeral?
    {cs more : List Char}
    {n : Numeral}
    (hNumeral : numeral? cs = some (n, more)) :
    NumeralHead cs := by
  rcases numeral?_eq_some_iff.mp hNumeral with
    ⟨tail, hWhole, _⟩
  have hDigit :
      ∀ {c : Char} {ds : List Char},
        wholePart? (c :: ds) = some (n.whole, tail) →
          isDigit c = true := by
    intro c ds hWhole
    rw [wholePart?_cons] at hWhole
    split at hWhole
    · next hZero =>
        rw [hZero]
        decide
    · split at hWhole
      · next hDigit => exact hDigit
      · simp at hWhole
  cases cs with
  | nil => simp [signPart, wholePart?] at hWhole
  | cons c cs =>
      refine ⟨c, cs, rfl, ?_⟩
      rw [signPart_cons] at hWhole
      split at hWhole
      · next hMinus =>
          right
          refine ⟨hMinus, ?_⟩
          cases cs with
          | nil => simp [wholePart?] at hWhole
          | cons d cs => exact ⟨d, cs, rfl, hDigit hWhole⟩
      · exact Or.inl (hDigit hWhole)

theorem ne_of_isDigit
    {c d : Char}
    (hDigit : isDigit c = true)
    (hOther : isDigit d = false) :
    c ≠ d := by
  rintro rfl
  rw [hDigit] at hOther
  simp at hOther

/- What starts like a number is no sign and no string. -/
theorem NumeralHead.punctuation?_eq_none
    {c : Char}
    {tail : List Char}
    (hHead : NumeralHead (c :: tail)) :
    punctuation? c = none ∧ c ≠ '"' ∧ isSpace c = false := by
  rcases hHead with ⟨d, more, hText, hDigit | ⟨hMinus, _⟩⟩
  · rcases List.cons.inj hText with ⟨rfl, rfl⟩
    have hNe :
        ∀ e, isDigit e = false → c ≠ e :=
      fun e => ne_of_isDigit hDigit
    refine ⟨?_, hNe '"' (by decide), ?_⟩
    · simp [punctuation?, hNe '[' (by decide),
        hNe ']' (by decide), hNe '{' (by decide),
        hNe '}' (by decide), hNe ':' (by decide),
        hNe ',' (by decide)]
    · simp [isSpace, hNe ' ' (by decide),
        hNe '\t' (by decide), hNe '\n' (by decide),
        hNe '\r' (by decide)]
  · rcases List.cons.inj hText with ⟨rfl, rfl⟩
    rw [hMinus]
    decide

/- Neither is it a word. -/
theorem NumeralHead.find?_words
    {cs : List Char}
    (hHead : NumeralHead cs) :
    words.find? (·.1.isPrefixOf cs) = none := by
  apply List.find?_eq_none.mpr
  intro entry hEntry hPrefix
  rcases List.isPrefixOf_iff_prefix.mp hPrefix with
    ⟨after, hAfter⟩
  rcases hHead with ⟨c, tail, rfl, hStart⟩
  unfold words at hEntry
  simp only [List.mem_cons, List.not_mem_nil, or_false]
    at hEntry
  have hLetter :
      ∀ {d : Char} {ds : List Char},
        d :: (ds ++ after) = c :: tail →
          isDigit d = false → d ≠ '-' → False := by
    intro d ds hText hDigit hMinus
    have hEq : d = c := (List.cons.inj hText).1
    rcases hStart with hStart | ⟨hStart, _⟩
    · exact ne_of_isDigit hStart hDigit hEq.symm
    · exact hMinus (hEq.trans hStart)
  rcases hEntry with rfl | rfl | rfl | rfl | rfl | rfl
  · exact hLetter hAfter (by decide) (by decide)
  · exact hLetter hAfter (by decide) (by decide)
  · exact hLetter hAfter (by decide) (by decide)
  · exact hLetter hAfter (by decide) (by decide)
  · exact hLetter hAfter (by decide) (by decide)
  · rcases List.cons.inj hAfter with ⟨hMinus, hTail⟩
    rcases hStart with hStart | ⟨_, d, more, hMore, hDigit⟩
    · exact ne_of_isDigit hStart (by decide) hMinus.symm
    · rw [hMore] at hTail
      have hEq : 'I' = d := (List.cons.inj hTail).1
      exact ne_of_isDigit hDigit (by decide) hEq.symm

/- What is no sign, no string and no word is a number. -/
theorem tokenAt_of_find?_words
    {c : Char}
    {tail : List Char}
    (hNone : punctuation? c = none)
    (hQuote : c ≠ '"')
    (hWords :
      words.find? (·.1.isPrefixOf (c :: tail)) = none)
    (pos : Nat) :
    tokenAt pos (c :: tail) =
      match numeral? (c :: tail) with
      | some (n, rest) =>
          (n.token, (c :: tail).length - rest.length)
      | none => (.stray, 1) := by
  cases hNumeral : numeral? (c :: tail) with
  | none =>
      simp only [tokenAt, hNone, beq_iff_eq, hQuote, if_false,
        hWords, hNumeral]
  | some parts =>
      simp only [tokenAt, hNone, beq_iff_eq, hQuote, if_false,
        hWords, hNumeral]

theorem NumeralHead.append
    {cs : List Char}
    (hHead : NumeralHead cs)
    (rest : List Char) :
    NumeralHead (cs ++ rest) := by
  rcases hHead with ⟨c, tail, rfl, hDigit | hSigned⟩
  · exact ⟨c, tail ++ rest, rfl, Or.inl hDigit⟩
  · rcases hSigned with ⟨hMinus, d, more, rfl, hDigit⟩
    exact ⟨c, d :: (more ++ rest), rfl,
      Or.inr ⟨hMinus, d, more ++ rest, rfl, hDigit⟩⟩

/- A number is the token of its value. -/
theorem shows_numeral
    {part rest : List Char}
    {n : Numeral}
    (hNumeral : numeral? part = some (n, []))
    (hRest : EndsToken rest) :
    Shows part n.token rest := by
  have hHead := numeralHead_of_numeral? hNumeral
  have hLonger := numeral?_append hRest hNumeral
  refine ⟨?_, ?_, ?_⟩
  · rcases hHead with ⟨c, tail, rfl, _⟩
    simp
  · intro c hc
    rcases List.head?_eq_some_iff.mp hc with ⟨tail, rfl⟩
    exact hHead.punctuation?_eq_none.2.2
  · intro pos
    have hWords := (hHead.append rest).find?_words
    rcases hHead with ⟨c, tail, rfl, hStart⟩
    rcases (show NumeralHead (c :: tail) from
        ⟨c, tail, rfl, hStart⟩).punctuation?_eq_none with
      ⟨hNone, hQuote, _⟩
    rw [List.cons_append] at hWords hLonger ⊢
    rw [tokenAt_of_find?_words hNone hQuote hWords, hLonger]
    simp only [List.nil_append, List.length_cons,
      List.length_append, Prod.mk.injEq, true_and]
    omega

end Json

end BiomeMigration
