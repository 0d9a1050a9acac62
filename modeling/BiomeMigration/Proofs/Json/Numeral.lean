import BiomeMigration.Json.Token

/-
  Numbers in front of other text: a number that is read from
  a text is read in the same way if the text goes on behind
  it, and whole numbers read back as they are written.

  Main declarations:
    * `Json.EndsToken`
    * `Json.numeral?_append`
    * `Json.numeral?_int`
-/

------------------------------------------------------------
-- Numbers and the Text behind Them
------------------------------------------------------------

namespace BiomeMigration

namespace Json

/-
  A text that does not go on with a number: it is over, or
  starts with a comma or a line feed.
-/
def EndsToken (rest : List Char) : Prop :=
  ∀ c ∈ rest.head?, c = ',' ∨ c = '\n'

variable {cs rest : List Char}

/- No digit stands at the end of a number. -/
theorem EndsToken.not_isDigit
    (hRest : EndsToken rest) :
    ∀ c ∈ rest.head?, isDigit c = false := by
  intro c hc
  rcases hRest c hc with rfl | rfl
  · decide
  · decide

theorem wholePart?_cons
    (c : Char)
    (cs : List Char) :
    wholePart? (c :: cs) =
      if c = '0' then some (['0'], cs)
      else if isDigit c then some (run isDigit (c :: cs))
      else none := by
  by_cases hZero : c = '0'
  · rw [hZero]
    rfl
  · simp [wholePart?, hZero]

theorem decimalPart_cons
    (c : Char)
    (cs : List Char) :
    decimalPart (c :: cs) =
      if c = '.' then
        if (run isDigit cs).1 = [] then ([], c :: cs)
        else run isDigit cs
      else ([], c :: cs) := by
  by_cases hPoint : c = '.'
  · rw [hPoint, if_pos rfl]
    unfold decimalPart
    cases hRun : run isDigit cs with
    | mk digits more =>
        cases digits with
        | nil => simp [hRun]
        | cons d digits => simp [hRun]
  · simp [decimalPart, hPoint]

theorem exponentDigits_cons
    (c : Char)
    (cs : List Char) :
    exponentDigits (c :: cs) =
      if c = '-' then (true, run isDigit cs)
      else if c = '+' then (false, run isDigit cs)
      else (false, run isDigit (c :: cs)) := by
  by_cases hMinus : c = '-'
  · rw [hMinus]
    rfl
  · by_cases hPlus : c = '+'
    · rw [hPlus]
      rfl
    · simp [exponentDigits, hMinus, hPlus]

theorem exponentPart_cons
    (c : Char)
    (cs : List Char) :
    exponentPart (c :: cs) =
      if c = 'e' ∨ c = 'E' then
        if (exponentDigits cs).2.1 = [] then (none, c :: cs)
        else
          (some ((exponentDigits cs).1,
            (exponentDigits cs).2.1),
            (exponentDigits cs).2.2)
      else (none, c :: cs) := by
  unfold exponentPart
  by_cases hLetter : c = 'e' ∨ c = 'E'
  · have hTest : (c == 'e' || c == 'E') = true := by
      simpa using hLetter
    rw [if_pos hLetter]
    simp only [hTest, if_true]
    rcases exponentDigits cs with ⟨negative, digits, more⟩
    cases digits with
    | nil => rfl
    | cons d digits => simp
  · have hTest : (c == 'e' || c == 'E') = false := by
      simpa using hLetter
    rw [if_neg hLetter]
    simp [hTest]

theorem wholePart?_append
    (hRest : EndsToken rest)
    {whole more : List Char}
    (hWhole : wholePart? cs = some (whole, more)) :
    wholePart? (cs ++ rest) = some (whole, more ++ rest) := by
  cases cs with
  | nil => simp [wholePart?] at hWhole
  | cons c cs =>
      rw [List.cons_append]
      rw [wholePart?_cons] at hWhole ⊢
      split at hWhole
      · next hZero =>
          simp only [Option.some.injEq, Prod.mk.injEq]
            at hWhole
          rcases hWhole with ⟨rfl, rfl⟩
          rw [if_pos hZero]
      · next hOther =>
          split at hWhole
          · next hDigit =>
              have hRun := run_append_right
                hRest.not_isDigit (c :: cs)
              rw [Option.some.inj hWhole] at hRun
              rw [if_neg hOther, if_pos hDigit,
                ← List.cons_append, hRun]
          · simp at hWhole

theorem decimalPart_append
    (hRest : EndsToken rest)
    (cs : List Char) :
    decimalPart (cs ++ rest) =
      ((decimalPart cs).1, (decimalPart cs).2 ++ rest) := by
  cases cs with
  | nil =>
      cases rest with
      | nil => rfl
      | cons c rest =>
          rcases hRest c rfl with rfl | rfl
          · rfl
          · rfl
  | cons c cs =>
      rw [List.cons_append, decimalPart_cons,
        decimalPart_cons, run_append_right hRest.not_isDigit]
      split
      · split
        · rfl
        · rfl
      · rfl

theorem exponentDigits_append
    (hRest : EndsToken rest)
    (cs : List Char) :
    exponentDigits (cs ++ rest) =
      ((exponentDigits cs).1, (exponentDigits cs).2.1,
        (exponentDigits cs).2.2 ++ rest) := by
  cases cs with
  | nil =>
      cases rest with
      | nil => rfl
      | cons c rest =>
          rcases hRest c rfl with rfl | rfl
          · rfl
          · rfl
  | cons c cs =>
      rw [List.cons_append, exponentDigits_cons,
        exponentDigits_cons, ← List.cons_append,
        run_append_right hRest.not_isDigit,
        run_append_right hRest.not_isDigit]
      split
      · rfl
      · split
        · rfl
        · rfl

theorem exponentPart_append
    (hRest : EndsToken rest)
    (cs : List Char) :
    exponentPart (cs ++ rest) =
      ((exponentPart cs).1, (exponentPart cs).2 ++ rest) := by
  cases cs with
  | nil =>
      cases rest with
      | nil => rfl
      | cons c rest =>
          rcases hRest c rfl with rfl | rfl
          · rfl
          · rfl
  | cons c cs =>
      rw [List.cons_append, exponentPart_cons,
        exponentPart_cons, exponentDigits_append hRest]
      split
      · split
        · rfl
        · rfl
      · rfl

/- The sign of a number, and the text behind it. -/
def signPart : List Char → Bool × List Char
  | '-' :: rest => (true, rest)
  | cs => (false, cs)

theorem signPart_cons
    (c : Char)
    (cs : List Char) :
    signPart (c :: cs) =
      if c = '-' then (true, cs) else (false, c :: cs) := by
  by_cases hMinus : c = '-'
  · rw [hMinus]
    rfl
  · simp [signPart, hMinus]

/- A number is made of its parts, one behind the other. -/
theorem numeral?_eq_some_iff
    {n : Numeral}
    {more : List Char} :
    numeral? cs = some (n, more) ↔
      ∃ tail,
        wholePart? (signPart cs).2 = some (n.whole, tail) ∧
          n.negative = (signPart cs).1 ∧
          n.decimals = (decimalPart tail).1 ∧
          exponentPart (decimalPart tail).2 =
            (n.exponent, more) := by
  have hDef :
      numeral? cs =
        (wholePart? (signPart cs).2).bind fun parts =>
          some
            (⟨(signPart cs).1, parts.1,
              (decimalPart parts.2).1,
              (exponentPart (decimalPart parts.2).2).1⟩,
              (exponentPart (decimalPart parts.2).2).2) := by
    cases cs with
    | nil => rfl
    | cons c cs =>
        by_cases hMinus : c = '-'
        · rw [hMinus]
          rfl
        · unfold numeral?
          simp [signPart, hMinus]
  rw [hDef, Option.bind_eq_some_iff]
  constructor
  · rintro ⟨⟨whole, tail⟩, hWhole, hParts⟩
    simp only [Option.some.injEq, Prod.mk.injEq] at hParts
    rcases hParts with ⟨rfl, rfl⟩
    exact ⟨tail, hWhole, rfl, rfl, rfl⟩
  · rintro ⟨tail, hWhole, hSign, hDecimals, hExponent⟩
    refine ⟨(n.whole, tail), hWhole, ?_⟩
    simp only [hExponent, ← hSign, ← hDecimals]

/-
  A number that a text starts with is read in the same way
  if other text comes behind.
-/
theorem numeral?_append
    (hRest : EndsToken rest)
    {n : Numeral}
    {more : List Char}
    (hNumeral : numeral? cs = some (n, more)) :
    numeral? (cs ++ rest) = some (n, more ++ rest) := by
  rcases numeral?_eq_some_iff.mp hNumeral with
    ⟨tail, hWhole, hSign, hDecimals, hExponent⟩
  apply numeral?_eq_some_iff.mpr
  have hSignPart :
      signPart (cs ++ rest) =
        ((signPart cs).1, (signPart cs).2 ++ rest) := by
    cases cs with
    | nil => simp [signPart, wholePart?] at hWhole
    | cons c cs =>
        rw [List.cons_append, signPart_cons, signPart_cons]
        split
        · rfl
        · rfl
  refine ⟨tail ++ rest, ?_, ?_, ?_, ?_⟩
  · rw [hSignPart]
    exact wholePart?_append hRest hWhole
  · rw [hSignPart, hSign]
  · rw [decimalPart_append hRest, hDecimals]
  · rw [decimalPart_append hRest, exponentPart_append hRest,
      hExponent]

------------------------------------------------------------
-- The Rest behind a Number
------------------------------------------------------------

theorem length_wholePart?
    {whole more : List Char}
    (hWhole : wholePart? cs = some (whole, more)) :
    more.length < cs.length := by
  cases cs with
  | nil => simp [wholePart?] at hWhole
  | cons c cs =>
      rw [wholePart?_cons] at hWhole
      split at hWhole
      · rw [← (Prod.mk.inj (Option.some.inj hWhole)).2]
        simp
      · split at hWhole
        · next hDigit =>
            have hRun := Option.some.inj hWhole
            have hMore : cs.dropWhile isDigit = more := by
              have hRest := congrArg Prod.snd hRun
              simpa [run, hDigit] using hRest
            have hLe := (List.dropWhile_sublist
              (l := cs) isDigit).length_le
            rw [hMore] at hLe
            simp only [List.length_cons]
            omega
        · simp at hWhole

theorem length_run_le
    (allowed : Char → Bool)
    (cs : List Char) :
    (run allowed cs).2.length ≤ cs.length :=
  (List.dropWhile_sublist allowed).length_le

theorem length_decimalPart_le (cs : List Char) :
    (decimalPart cs).2.length ≤ cs.length := by
  cases cs with
  | nil => simp [decimalPart]
  | cons c cs =>
      have hRun := length_run_le isDigit cs
      rw [decimalPart_cons]
      split
      · split
        · exact Nat.le_refl _
        · simp only [List.length_cons]
          omega
      · exact Nat.le_refl _

theorem length_exponentPart_le (cs : List Char) :
    (exponentPart cs).2.length ≤ cs.length := by
  cases cs with
  | nil => simp [exponentPart]
  | cons c cs =>
      have hDigits :
          (exponentDigits cs).2.2.length ≤ cs.length := by
        cases cs with
        | nil => simp [exponentDigits, run]
        | cons d cs =>
            have hRun := length_run_le isDigit cs
            have hAll := length_run_le isDigit (d :: cs)
            rw [exponentDigits_cons]
            split
            · simp only [List.length_cons]
              omega
            · split
              · simp only [List.length_cons]
                omega
              · exact hAll
      rw [exponentPart_cons]
      split
      · split
        · exact Nat.le_refl _
        · simp only [List.length_cons]
          omega
      · exact Nat.le_refl _

/- A number has characters. -/
theorem length_numeral?
    {n : Numeral}
    {more : List Char}
    (hNumeral : numeral? cs = some (n, more)) :
    more.length < cs.length := by
  rcases numeral?_eq_some_iff.mp hNumeral with
    ⟨tail, hWhole, _, _, hExponent⟩
  have hSign : (signPart cs).2.length ≤ cs.length := by
    cases cs with
    | nil => simp [signPart]
    | cons c cs =>
        rw [signPart_cons]
        split
        · simp
        · exact Nat.le_refl _
  have hTail := length_wholePart? hWhole
  have hDecimals := length_decimalPart_le tail
  have hMore := length_exponentPart_le (decimalPart tail).2
  rw [hExponent] at hMore
  simp only at hMore
  omega

------------------------------------------------------------
-- Whole Numbers
------------------------------------------------------------

theorem isDigit_eq (c : Char) : isDigit c = c.isDigit := by
  unfold isDigit Char.isDigit
  rw [Bool.eq_iff_iff]
  simp [Char.le_def]

theorem isDigit_of_mem_toDigits
    {n : Nat}
    {c : Char}
    (hMember : c ∈ Nat.toDigits 10 n) :
    isDigit c = true := by
  rw [isDigit_eq]
  exact Nat.isDigit_of_mem_toDigits (by decide) (by decide)
    hMember

/- No zero comes first in the digits of a positive number. -/
theorem head?_toDigits_ne
    {n : Nat}
    (hPositive : 0 < n) :
    (Nat.toDigits 10 n).head? ≠ some '0' := by
  induction n using Nat.strongRecOn with
  | _ n ih =>
      by_cases hSmall : n < 10
      · rw [Nat.toDigits_of_lt_base hSmall]
        intro hZero
        have hDigit : n.digitChar = '0' := by simpa using hZero
        have hValue := Nat.toNat_digitChar_sub_48_of_lt_ten hSmall
        rw [hDigit] at hValue
        have hNone : n = 0 := hValue.symm
        omega
      · rw [Nat.toDigits_of_base_le (by decide) (by omega)]
        have hRest := ih (n / 10) (by omega) (by omega)
        cases hDigits : Nat.toDigits 10 (n / 10) with
        | nil => exact (Nat.toDigits_ne_nil hDigits).elim
        | cons d digits =>
            rw [hDigits] at hRest
            simpa using hRest

/- The digits of a number are read as its whole part. -/
theorem wholePart?_toDigits (n : Nat) :
    wholePart? (Nat.toDigits 10 n) =
      some (Nat.toDigits 10 n, []) := by
  have hRun :
      run isDigit (Nat.toDigits 10 n) =
        (Nat.toDigits 10 n, []) := by
    apply run_eq_iff.mpr
    refine ⟨by simp, ?_, by simp⟩
    intro c hc
    exact isDigit_of_mem_toDigits hc
  rcases Nat.eq_zero_or_pos n with rfl | hPositive
  · rfl
  · have hZero := head?_toDigits_ne hPositive
    cases hDigits : Nat.toDigits 10 n with
    | nil => exact (Nat.toDigits_ne_nil hDigits).elim
    | cons d digits =>
        rw [hDigits] at hRun hZero
        have hDigit : isDigit d = true := by
          apply isDigit_of_mem_toDigits (n := n)
          rw [hDigits]
          simp
        rw [wholePart?_cons, if_neg (by simpa using hZero),
          if_pos hDigit, hRun]

theorem digitsValue_toDigits (n : Nat) :
    digitsValue (Nat.toDigits 10 n) = n := by
  have hValue : Nat.ofDigitChars 10 (Nat.toDigits 10 n) 0 = n :=
    Nat.ofDigitChars_ten_toDigits
  rw [Nat.ofDigitChars_eq_foldl] at hValue
  unfold digitsValue
  simp only [Nat.mul_comm _ 10]
  exact hValue

/- The characters of a whole number. -/
theorem toList_toString_int (n : Int) :
    (toString n).toList =
      if n < 0 then '-' :: Nat.toDigits 10 n.natAbs
      else Nat.toDigits 10 n.natAbs := by
  cases n with
  | ofNat n =>
      have hSign : ¬ Int.ofNat n < 0 := by simp
      rw [if_neg hSign]
      exact Nat.toList_repr
  | negSucc n =>
      rw [if_pos (Int.negSucc_lt_zero n)]
      show ("-" ++ (n + 1).repr).toList = _
      rw [String.toList_append, Nat.toList_repr]
      rfl

/-
  A whole number with few enough digits reads back as it is
  written.
-/
theorem numeral?_int
    {n : Int}
    (hLimit : n.natAbs < 10 ^ Digit.limit) :
    ∃ parts,
      numeral? (toString n).toList = some (parts, []) ∧
        parts.token = .scalar (.int n) := by
  have hWhole := wholePart?_toDigits n.natAbs
  have hLength :
      ¬ Digit.limit < (Nat.toDigits 10 n.natAbs).length := by
    have hLe :=
      (Nat.length_toDigits_le_iff (by decide)
        (show 0 < Digit.limit by decide)).mpr hLimit
    omega
  have hSignPart :
      signPart (toString n).toList =
        (decide (n < 0), Nat.toDigits 10 n.natAbs) := by
    rw [toList_toString_int]
    by_cases hSign : n < 0
    · simp [hSign, signPart]
    · rw [if_neg hSign]
      cases hDigits : Nat.toDigits 10 n.natAbs with
      | nil => exact (Nat.toDigits_ne_nil hDigits).elim
      | cons d digits =>
          have hDigit : isDigit d = true := by
            apply isDigit_of_mem_toDigits (n := n.natAbs)
            rw [hDigits]
            simp
          have hMinus : d ≠ '-' := by
            rintro rfl
            exact absurd hDigit (by decide)
          rw [signPart_cons, if_neg hMinus]
          simp [hSign]
  refine ⟨⟨decide (n < 0), Nat.toDigits 10 n.natAbs, [],
    none⟩, ?_, ?_⟩
  · apply numeral?_eq_some_iff.mpr
    refine ⟨[], ?_, ?_, rfl, rfl⟩
    · rw [hSignPart]
      exact hWhole
    · rw [hSignPart]
  · unfold Numeral.token
    simp only [if_neg hLength, digitsValue_toDigits]
    congr 2
    by_cases hSign : n < 0
    · simp only [hSign, decide_true, if_true]
      omega
    · simp only [hSign, decide_false, Bool.false_eq_true,
        if_false]
      omega

/-
  What is read from a number: a floating-point number, a
  whole number with few enough digits, or a fault.
-/
theorem Numeral.token_cases (n : Numeral) :
    (∃ x, n.token = .scalar (.number x)) ∨
      (∃ k : Int,
        n.token = .scalar (.int k) ∧
          k.natAbs = digitsValue n.whole ∧
          n.whole.length ≤ Digit.limit) ∨
      ∃ fault, n.token = .flawed fault := by
  rcases n with ⟨negative, whole, decimals, exponent⟩
  unfold token
  split
  · split
    · exact Or.inr (Or.inr ⟨_, rfl⟩)
    · next hLimit =>
        refine Or.inr (Or.inl ⟨_, rfl, ?_, by omega⟩)
        split
        · simp
        · simp
  · exact Or.inl ⟨_, rfl⟩

theorem isDigit_of_mem_wholePart?
    {ds tail : List Char}
    (hWhole : wholePart? cs = some (ds, tail)) :
    ∀ c ∈ ds, isDigit c = true := by
  cases cs with
  | nil => simp [wholePart?] at hWhole
  | cons c cs =>
      rw [wholePart?_cons] at hWhole
      split at hWhole
      · rcases Option.some.inj hWhole with ⟨rfl, rfl⟩
        intro d hd
        rw [List.mem_singleton.mp hd]
        decide
      · split at hWhole
        · have hRun : (run isDigit (c :: cs)).1 = ds := by
            rw [Option.some.inj hWhole]
          intro d hd
          rw [← hRun] at hd
          exact of_mem_run hd
        · simp at hWhole

/- Further digits write a number below a power of ten. -/
theorem foldl_digits_lt
    {ds : List Char}
    (hDigits : ∀ c ∈ ds, isDigit c = true)
    (n : Nat) :
    ds.foldl (fun n d => n * 10 + (d.toNat - '0'.toNat)) n + 1 ≤
      (n + 1) * 10 ^ ds.length := by
  induction ds generalizing n with
  | nil => simp
  | cons d ds ih =>
      have hDigit : d.toNat - '0'.toNat ≤ 9 := by
        have hNine : d ≤ '9' := by
          have hBounds := hDigits d (by simp)
          simp only [isDigit, Bool.and_eq_true,
            decide_eq_true_eq] at hBounds
          exact hBounds.2
        have hNat : d.toNat ≤ '9'.toNat := Char.le_def.mp hNine
        have hValue : '9'.toNat = '0'.toNat + 9 := rfl
        omega
      have hLater :=
        ih (fun c hc => hDigits c (by simp [hc]))
          (n * 10 + (d.toNat - '0'.toNat))
      have hStep :
          n * 10 + (d.toNat - '0'.toNat) + 1 ≤ (n + 1) * 10 := by
        omega
      have hScaled :=
        Nat.mul_le_mul_right (10 ^ ds.length) hStep
      rw [List.foldl_cons, List.length_cons, Nat.pow_succ,
        Nat.mul_comm (10 ^ ds.length) 10, ← Nat.mul_assoc]
      exact Nat.le_trans hLater hScaled

theorem digitsValue_lt
    {ds : List Char}
    (hDigits : ∀ c ∈ ds, isDigit c = true) :
    digitsValue ds < 10 ^ ds.length := by
  have hLe := foldl_digits_lt hDigits 0
  unfold digitsValue
  omega

/- The whole number of a text is not too long. -/
theorem token_cases_of_numeral?
    {n : Numeral}
    {more : List Char}
    (hNumeral : numeral? cs = some (n, more)) :
    (∃ x, n.token = .scalar (.number x)) ∨
      (∃ k : Int,
        n.token = .scalar (.int k) ∧
          k.natAbs < 10 ^ Digit.limit) ∨
      ∃ fault, n.token = .flawed fault := by
  rcases n.token_cases with
    hNumber | ⟨k, hk, hValue, hLength⟩ | hFlawed
  · exact Or.inl hNumber
  · right
    left
    refine ⟨k, hk, ?_⟩
    rcases numeral?_eq_some_iff.mp hNumeral with
      ⟨tail, hWhole, _⟩
    have hBound :=
      digitsValue_lt (isDigit_of_mem_wholePart? hWhole)
    have hPower :
        10 ^ n.whole.length ≤ 10 ^ Digit.limit :=
      Nat.pow_le_pow_right (by decide) hLength
    omega
  · exact Or.inr (Or.inr hFlawed)

end Json

end BiomeMigration
