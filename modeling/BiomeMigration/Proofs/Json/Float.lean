import BiomeMigration.Proofs.Json.Tokens

/-
  Floating-point numbers in JSON text. Whether the decimal
  that is written for a number is read as that number is
  left open; if it is, it is so in front of other text too.

  Main declarations:
    * `Binary64.Survives`
    * `Json.isNumeric_of_mem_write`
    * `Json.shows_number`
-/

------------------------------------------------------------
-- Characters of a Number
------------------------------------------------------------

namespace BiomeMigration

/- A number is read back from the text that is written for it. -/
def Binary64.Survives (x : Binary64) : Prop :=
  ∀ room,
    Json.parse room (Json.numberFormat.write x).toList =
      .ok (.number x)

namespace Json

/- The characters that the text of a finite number has. -/
def isNumeric (c : Char) : Bool :=
  isDigit c || c == '.' || c == 'e' || c == '+' || c == '-'

theorem isNumeric_of_isDigit
    {c : Char}
    (hDigit : isDigit c = true) :
    isNumeric c = true := by
  simp [isNumeric, hDigit]

theorem isNumeric_of_mem_digits
    {n : Nat}
    {c : Char}
    (hMember : c ∈ NumberFormat.digits n) :
    isNumeric c = true := by
  apply isNumeric_of_isDigit
  apply isDigit_of_mem_toDigits (n := n)
  unfold NumberFormat.digits at hMember
  rw [Nat.toString_eq_repr, Nat.toList_repr] at hMember
  exact hMember

theorem mem_of_mem_significant
    {ds : List Char}
    {c : Char}
    (hMember : c ∈ NumberFormat.significant ds) :
    c ∈ ds := by
  unfold NumberFormat.significant at hMember
  have hReversed := List.mem_reverse.mp hMember
  have hAll := (List.dropWhile_sublist _).subset hReversed
  exact List.mem_reverse.mp hAll

theorem isNumeric_of_mem_positional
    {ds : List Char}
    (hDigits : ∀ c ∈ ds, isNumeric c = true)
    {places : Int}
    {c : Char}
    (hMember : c ∈ NumberFormat.positional ds places) :
    isNumeric c = true := by
  unfold NumberFormat.positional at hMember
  split at hMember
  · simp only [List.mem_cons, List.mem_append,
      List.mem_replicate] at hMember
    rcases hMember with (rfl | rfl | ⟨_, rfl⟩) | hMember
    · decide
    · decide
    · decide
    · exact hDigits c hMember
  · simp only [List.mem_append, List.mem_cons,
      List.mem_replicate] at hMember
    rcases hMember with (hMember | ⟨_, rfl⟩) | rfl | hMember
    · exact hDigits c (List.mem_of_mem_take hMember)
    · decide
    · decide
    · split at hMember
      · have hZero : c = '0' := by simpa using hMember
        rw [hZero]
        decide
      · exact hDigits c (List.mem_of_mem_drop hMember)

theorem isNumeric_of_mem_scientific
    {f : NumberFormat}
    {ds : List Char}
    (hDigits : ∀ c ∈ ds, isNumeric c = true)
    {exponent : Int}
    {c : Char}
    (hMember : c ∈ f.scientific ds exponent) :
    isNumeric c = true := by
  unfold NumberFormat.scientific at hMember
  simp only [List.mem_append, List.mem_cons] at hMember
  rcases hMember with hMember | rfl | rfl | hMember
  · split at hMember
    · simp at hMember
    · exact hDigits c hMember
    · next d rest _ =>
        simp only [List.mem_cons] at hMember
        rcases hMember with rfl | rfl | hMember
        · exact hDigits _ (by simp)
        · decide
        · exact hDigits c (by simp [hMember])
  · decide
  · split
    · decide
    · decide
  · unfold NumberFormat.padded at hMember
    rcases List.mem_append.mp hMember with hMember | hMember
    · rw [(List.mem_replicate.mp hMember).2]
      decide
    · exact isNumeric_of_mem_digits hMember

theorem isNumeric_of_mem_layout
    {f : NumberFormat}
    {d : Decimal}
    {c : Char}
    (hMember : c ∈ f.layout d) :
    isNumeric c = true := by
  have hDigits :
      ∀ e ∈ NumberFormat.significant
          (NumberFormat.digits d.digits),
        isNumeric e = true :=
    fun e he =>
      isNumeric_of_mem_digits (mem_of_mem_significant he)
  unfold NumberFormat.layout at hMember
  simp only at hMember
  split at hMember
  · exact isNumeric_of_mem_positional hDigits hMember
  · exact isNumeric_of_mem_scientific hDigits hMember

theorem isNumeric_of_mem_write
    {negative : Bool}
    {mantissa : Nat}
    {exponent : Int}
    {c : Char}
    (hMember :
      c ∈ (numberFormat.write
        (.finite negative mantissa exponent)).toList) :
    isNumeric c = true := by
  have hSize :
      ∀ e ∈
        (if mantissa == 0 then ['0', '.', '0']
          else numberFormat.layout
            (.shortest mantissa exponent)),
        isNumeric e = true := by
    intro e he
    split at he
    · simp only [List.mem_cons, List.not_mem_nil, or_false]
        at he
      rcases he with rfl | rfl | rfl
      · decide
      · decide
      · decide
    · exact isNumeric_of_mem_layout he
  unfold NumberFormat.write at hMember
  simp only [String.toList_ofList] at hMember
  split at hMember
  · rcases List.mem_cons.mp hMember with rfl | hMember
    · decide
    · exact hSize c hMember
  · exact hSize c hMember

------------------------------------------------------------
-- Texts with a Single Token
------------------------------------------------------------

variable {cs : List Char} {v : Json}

theorem ne_of_isNumeric
    {c d : Char}
    (hNumeric : isNumeric c = true)
    (hOther : isNumeric d = false) :
    c ≠ d := by
  rintro rfl
  rw [hNumeric] at hOther
  simp at hOther

theorem isSpace_of_isNumeric
    {c : Char}
    (hNumeric : isNumeric c = true) :
    isSpace c = false := by
  have hNe : ∀ d, isNumeric d = false → c ≠ d :=
    fun d => ne_of_isNumeric hNumeric
  simp [isSpace, hNe ' ' (by decide), hNe '\t' (by decide),
    hNe '\n' (by decide), hNe '\r' (by decide)]

/- Numeric characters leave tokens behind. -/
theorem scanFrom_ne_nil
    (hNumeric : ∀ c ∈ cs, isNumeric c = true)
    {pos skip : Nat}
    (hLength : skip < cs.length) :
    scanFrom pos skip cs ≠ [] := by
  induction cs generalizing pos skip with
  | nil => simp at hLength
  | cons c cs ih =>
      cases skip with
      | succ skip =>
          rw [scanFrom_succ]
          apply ih (fun d hd => hNumeric d (by simp [hd]))
          simpa using hLength
      | zero =>
          rw [scanFrom_zero,
            isSpace_of_isNumeric (hNumeric c (by simp))]
          simp

/- Behind a value no token is read. -/
theorem eq_nil_of_read_after
    {room size : Nat}
    {w : Json}
    {tokens : List (Nat × Token)}
    (hRead : read room size (.after [] w) tokens = .ok v) :
    tokens = [] ∧ w = v := by
  cases tokens with
  | nil =>
      simp only [read, Stage.finish, Except.ok.injEq] at hRead
      exact ⟨rfl, hRead⟩
  | cons entry tokens =>
      rcases entry with ⟨pos, token⟩
      cases token <;> simp [read, Stage.next] at hRead

/- Each word has a character that no number has. -/
theorem find?_words_of_isNumeric
    (hNumeric : ∀ c ∈ cs, isNumeric c = true) :
    words.find? (·.1.isPrefixOf cs) = none := by
  apply List.find?_eq_none.mpr
  intro entry hEntry hPrefix
  have hSubset :=
    (List.isPrefixOf_iff_prefix.mp hPrefix).subset
  have hAll : entry.1.all isNumeric = true :=
    List.all_eq_true.mpr fun c hc => hNumeric c (hSubset hc)
  have hWords :
      ∀ entry ∈ words, entry.1.all isNumeric = false := by
    decide
  rw [hWords entry hEntry] at hAll
  cases hAll

/- A numeric text starts with a number or no token. -/
theorem tokenAt_of_isNumeric
    {c : Char}
    (hNumeric : ∀ d ∈ c :: cs, isNumeric d = true)
    (pos : Nat) :
    tokenAt pos (c :: cs) =
      match numeral? (c :: cs) with
      | some (n, rest) =>
          (n.token, (c :: cs).length - rest.length)
      | none => (.stray, 1) := by
  have hNe :
      ∀ d, isNumeric d = false → c ≠ d :=
    fun d => ne_of_isNumeric (hNumeric c (by simp))
  apply tokenAt_of_find?_words
  · simp [punctuation?, hNe '[' (by decide),
      hNe ']' (by decide), hNe '{' (by decide),
      hNe '}' (by decide), hNe ':' (by decide),
      hNe ',' (by decide)]
  · exact hNe '"' (by decide)
  · exact find?_words_of_isNumeric hNumeric

/- A number that makes up a whole text. -/
theorem numeral?_of_parse
    {room : Nat}
    (hNumeric : ∀ c ∈ cs, isNumeric c = true)
    (hParse : parse room cs = .ok v) :
    ∃ n, numeral? cs = some (n, []) ∧ n.token = .scalar v := by
  have hRead :
      read room cs.length (.value []) (scanFrom 0 0 cs) =
        .ok v := by
    unfold parse at hParse
    split at hParse
    · simp at hParse
    · exact hParse
  cases cs with
  | nil => simp [scanFrom, read, Stage.finish] at hRead
  | cons c cs =>
      have hSpace :=
        isSpace_of_isNumeric (hNumeric c (by simp))
      have hToken := tokenAt_of_isNumeric hNumeric 0
      rw [scanFrom_zero] at hRead
      simp only [hSpace, Bool.false_eq_true, if_false]
        at hRead
      cases hNumeral : numeral? (c :: cs) with
      | none =>
          rw [hNumeral] at hToken
          rw [hToken] at hRead
          simp [read, Stage.next, Stage.start] at hRead
      | some result =>
          rcases result with ⟨n, more⟩
          have hLength := length_numeral? hNumeral
          rw [hNumeral] at hToken
          rw [hToken] at hRead
          simp only [read, Stage.next] at hRead
          have hScalar :
              ∃ w, n.token = .scalar w := by
            rcases n.token_cases with
              ⟨x, hx⟩ | ⟨k, hk, _⟩ | ⟨fault, hFault⟩
            · exact ⟨_, hx⟩
            · exact ⟨_, hk⟩
            · rw [hFault] at hRead
              simp [Stage.start] at hRead
          rcases hScalar with ⟨w, hValue⟩
          rw [hValue] at hRead
          rcases eq_nil_of_read_after hRead with
            ⟨hTokens, rfl⟩
          cases more with
          | nil => exact ⟨n, rfl, hValue⟩
          | cons d more =>
              exfalso
              apply scanFrom_ne_nil
                (fun e he => hNumeric e (by simp [he]))
                _ hTokens
              simp only [List.length_cons] at hLength ⊢
              omega

/-
  A number that survives is read in front of other text as
  it is on its own.
-/
theorem shows_number
    {x : Binary64}
    (hSurvives : x.Survives)
    {rest : List Char}
    (hRest : EndsToken rest) :
    Shows (numberFormat.write x).toList (.scalar (.number x))
      rest := by
  cases x with
  | nan =>
      have hWord : ("NaN".toList, Json.number .nan) ∈ words := by
        simp [words]
      exact shows_word hWord rest
  | infinite negative =>
      cases negative with
      | false =>
          have hWord :
              ("Infinity".toList, Json.number (.infinite false))
                ∈ words := by
            simp [words]
          exact shows_word hWord rest
      | true =>
          have hWord :
              ("-Infinity".toList, Json.number (.infinite true))
                ∈ words := by
            simp [words]
          exact shows_word hWord rest
  | finite negative mantissa exponent =>
      rcases numeral?_of_parse
          (fun c hc => isNumeric_of_mem_write hc)
          (hSurvives 0) with
        ⟨n, hNumeral, hToken⟩
      rw [← hToken]
      exact shows_numeral hNumeral hRest

end Json

end BiomeMigration
