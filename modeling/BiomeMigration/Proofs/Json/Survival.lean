import Mathlib.Data.List.TakeWhile
import BiomeMigration.Proofs.Decimal.Shortest
import BiomeMigration.Proofs.Json.RoundTrip

/-
  Floating-point numbers are read back from the text that is
  written for them: the digits that are laid out write the
  shortest decimal, and that decimal is read as the number.

  Main declarations:
    * `Json.Spells`
    * `Json.spells_layout`
    * `Binary64.IsCanonical.survives`
-/

------------------------------------------------------------
-- Values of Digits
------------------------------------------------------------

namespace BiomeMigration

namespace Json

variable {ds rest : List Char}

theorem foldl_digits
    (ds : List Char)
    (n : Nat) :
    ds.foldl (fun n d => n * 10 + (d.toNat - '0'.toNat)) n =
      n * 10 ^ ds.length + digitsValue ds := by
  induction ds generalizing n with
  | nil => simp [digitsValue]
  | cons d ds ih =>
      unfold digitsValue at ih ⊢
      rw [List.foldl_cons, List.foldl_cons, ih,
        ih (0 * 10 + (d.toNat - '0'.toNat)), List.length_cons]
      ring

theorem digitsValue_append (ds more : List Char) :
    digitsValue (ds ++ more) =
      digitsValue ds * 10 ^ more.length + digitsValue more := by
  rw [← foldl_digits]
  unfold digitsValue
  rw [List.foldl_append]

theorem digitsValue_zeros (k : Nat) :
    digitsValue (List.replicate k '0') = 0 := by
  induction k with
  | zero => rfl
  | succ k ih =>
      rw [List.replicate_succ', digitsValue_append, ih]
      rfl

/- Zeros in front do not count. -/
theorem digitsValue_zeros_append
    (k : Nat)
    (ds : List Char) :
    digitsValue (List.replicate k '0' ++ ds) =
      digitsValue ds := by
  rw [digitsValue_append, digitsValue_zeros, Nat.zero_mul,
    Nat.zero_add]

/- Each zero at the end is a factor of ten. -/
theorem digitsValue_append_zeros
    (ds : List Char)
    (k : Nat) :
    digitsValue (ds ++ List.replicate k '0') =
      digitsValue ds * 10 ^ k := by
  rw [digitsValue_append, digitsValue_zeros, Nat.add_zero,
    List.length_replicate]

theorem isDigit_of_mem_zeros
    {k : Nat}
    {c : Char}
    (hMember : c ∈ List.replicate k '0') :
    isDigit c = true := by
  rw [(List.mem_replicate.mp hMember).2]
  decide

------------------------------------------------------------
-- Significant Digits
------------------------------------------------------------

/- Digits, the first of which is no zero. -/
structure IsLeading (ds : List Char) : Prop where
  digits : ∀ c ∈ ds, isDigit c = true
  first : ∃ d more, ds = d :: more ∧ d ≠ '0'

theorem significant_append_zeros (ds : List Char) :
    ∃ k,
      ds = NumberFormat.significant ds ++
        List.replicate k '0' := by
  refine ⟨(ds.reverse.takeWhile (· == '0')).length, ?_⟩
  have hZeros :
      ds.reverse.takeWhile (· == '0') =
        List.replicate
          (ds.reverse.takeWhile (· == '0')).length '0' := by
    apply List.eq_replicate_of_mem
    intro c hc
    have hTest := List.mem_takeWhile_imp hc
    exact beq_iff_eq.mp hTest
  have hSplit :
      ds.reverse =
        ds.reverse.takeWhile (· == '0') ++
          ds.reverse.dropWhile (· == '0') :=
    List.takeWhile_append_dropWhile.symm
  rw [hZeros] at hSplit
  have hReversed := congrArg List.reverse hSplit
  rw [List.reverse_reverse, List.reverse_append,
    List.reverse_replicate] at hReversed
  exact hReversed

theorem isLeading_toDigits
    {n : Nat}
    (hPositive : 0 < n) :
    IsLeading (Nat.toDigits 10 n) := by
  refine ⟨fun c hc => isDigit_of_mem_toDigits hc, ?_⟩
  have hZero := head?_toDigits_ne hPositive
  cases hDigits : Nat.toDigits 10 n with
  | nil => exact (Nat.toDigits_ne_nil hDigits).elim
  | cons d more =>
      rw [hDigits] at hZero
      exact ⟨d, more, rfl, by simpa using hZero⟩

/- Without the zeros at the end the first digit stays. -/
theorem IsLeading.significant
    (hLeading : IsLeading ds) :
    IsLeading (NumberFormat.significant ds) := by
  refine ⟨fun c hc =>
    hLeading.digits c (mem_of_mem_significant hc), ?_⟩
  rcases significant_append_zeros ds with ⟨k, hZeros⟩
  rcases hLeading.first with ⟨d, more, hText, hFirst⟩
  cases hKept : NumberFormat.significant ds with
  | nil =>
      rw [hKept, List.nil_append, hText] at hZeros
      have hMember : d ∈ List.replicate k '0' := by
        rw [← hZeros]
        simp
      exact (hFirst (List.mem_replicate.mp hMember).2).elim
  | cons e kept =>
      rw [hKept, hText, List.cons_append] at hZeros
      rw [(List.cons.inj hZeros).1] at hFirst
      exact ⟨e, kept, rfl, hFirst⟩

------------------------------------------------------------
-- Parts of a Number
------------------------------------------------------------

theorem run_digits
    (hDigits : ∀ c ∈ ds, isDigit c = true)
    (hRest : ∀ c ∈ rest.head?, isDigit c = false) :
    run isDigit (ds ++ rest) = (ds, rest) :=
  run_eq_iff.mpr ⟨rfl, hDigits, hRest⟩

theorem IsLeading.wholePart?_eq
    (hLeading : IsLeading ds)
    (hRest : ∀ c ∈ rest.head?, isDigit c = false) :
    wholePart? (ds ++ rest) = some (ds, rest) := by
  have hRun := run_digits hLeading.digits hRest
  rcases hLeading.first with ⟨d, more, rfl, hFirst⟩
  rw [List.cons_append] at hRun ⊢
  rw [wholePart?_cons, if_neg hFirst,
    if_pos (hLeading.digits d (by simp)), hRun]

theorem decimalPart_point
    (hDigits : ∀ c ∈ ds, isDigit c = true)
    (hSome : ds ≠ [])
    (hRest : ∀ c ∈ rest.head?, isDigit c = false) :
    decimalPart ('.' :: (ds ++ rest)) = (ds, rest) := by
  rw [decimalPart_cons, if_pos rfl, run_digits hDigits hRest,
    if_neg hSome]

theorem exponentPart_sign
    (negative : Bool)
    (hDigits : ∀ c ∈ ds, isDigit c = true)
    (hSome : ds ≠ []) :
    exponentPart ('e' :: (if negative then '-' else '+') :: ds) =
      (some (negative, ds), []) := by
  have hRun : run isDigit ds = (ds, []) := by
    have hAll : run isDigit (ds ++ []) = (ds, []) :=
      run_digits hDigits (by simp)
    rwa [List.append_nil] at hAll
  have hExponent :
      exponentDigits ((if negative then '-' else '+') :: ds) =
        (negative, ds, []) := by
    rw [exponentDigits_cons]
    cases negative with
    | false => simp [hRun]
    | true => simp [hRun]
  rw [exponentPart_cons, hExponent, if_pos (Or.inl rfl),
    if_neg hSome]

/- A text with a sign in front, if the number is negative. -/
def signed
    (negative : Bool)
    (cs : List Char) : List Char :=
  if negative then '-' :: cs else cs

/- A number is put together from its parts. -/
theorem numeral?_signed
    (negative : Bool)
    {cs whole decimals tail more : List Char}
    {exponent : Option (Bool × List Char)}
    (hWhole : wholePart? cs = some (whole, tail))
    (hDecimals : decimalPart tail = (decimals, more))
    (hExponent : exponentPart more = (exponent, [])) :
    numeral? (signed negative cs) =
      some (⟨negative, whole, decimals, exponent⟩, []) := by
  have hSign : signPart (signed negative cs) = (negative, cs) := by
    cases negative with
    | true => rfl
    | false =>
        cases cs with
        | nil => simp [wholePart?] at hWhole
        | cons c cs =>
            have hMinus : c ≠ '-' := by
              rintro rfl
              rw [wholePart?_cons, if_neg (by decide),
                if_neg (by decide)] at hWhole
              simp at hWhole
            exact (signPart_cons c cs).trans (if_neg hMinus)
  apply numeral?_eq_some_iff.mpr
  rw [hSign]
  exact ⟨tail, hWhole, rfl, by rw [hDecimals],
    by rw [hDecimals, hExponent]⟩

------------------------------------------------------------
-- Written Decimals
------------------------------------------------------------

/- The exponent that a number states. -/
def Numeral.power (n : Numeral) : Int :=
  match n.exponent with
  | none => 0
  | some (negative, digits) =>
      if negative then -(digitsValue digits : Int)
      else digitsValue digits

/- The size of a number as a decimal. -/
def Numeral.decimal (n : Numeral) : Decimal where
  digits := digitsValue (n.whole ++ n.decimals)
  exponent := n.power - n.decimals.length

/- A number that is not read as a whole number. -/
def Numeral.IsFractional (n : Numeral) : Prop :=
  n.decimals ≠ [] ∨ n.exponent ≠ none

theorem Numeral.IsFractional.token_eq
    {n : Numeral}
    (hFractional : n.IsFractional) :
    n.token =
      .scalar (.number
        (.ofDecimal n.negative n.decimal.digits
          n.decimal.exponent)) := by
  rcases n with ⟨negative, whole, decimals, exponent⟩
  unfold token
  split
  · next hDecimals hExponent =>
      rcases hFractional with hSome | hSome
      · exact (hSome hDecimals).elim
      · exact (hSome hExponent).elim
  · rfl

/-
  With a sign in front or not, a text is a number of some
  size.
-/
def Spells (cs : List Char) (size : ℚ) : Prop :=
  ∀ negative,
    ∃ n,
      numeral? (signed negative cs) = some (n, []) ∧
        n.negative = negative ∧
        n.IsFractional ∧
        n.decimal.ratio = size

theorem not_isDigit_point (rest : List Char) :
    ∀ c ∈ ('.' :: rest).head?, isDigit c = false := by
  rintro c ⟨rfl⟩
  decide

theorem not_isDigit_exponent (rest : List Char) :
    ∀ c ∈ ('e' :: rest).head?, isDigit c = false := by
  rintro c ⟨rfl⟩
  decide

/- Digits on both sides of a point. -/
theorem spells_point
    {whole decimals : List Char}
    (hWhole :
      wholePart? (whole ++ '.' :: decimals) =
        some (whole, '.' :: decimals))
    (hDigits : ∀ c ∈ decimals, isDigit c = true)
    (hSome : decimals ≠ []) :
    Spells (whole ++ '.' :: decimals)
      (digitsValue (whole ++ decimals) *
        (10 : ℚ) ^ (-(decimals.length : Int))) := by
  intro negative
  have hPoint :
      decimalPart ('.' :: (decimals ++ [])) = (decimals, []) :=
    decimalPart_point hDigits hSome (by simp)
  rw [List.append_nil] at hPoint
  refine ⟨_, numeral?_signed negative hWhole hPoint rfl, rfl,
    Or.inl hSome, ?_⟩
  unfold Decimal.ratio Numeral.decimal Numeral.power
  simp only [zero_sub]

/- The point stands in front of all digits. -/
theorem spells_front
    (hLeading : IsLeading ds)
    (k : Nat) :
    Spells ('0' :: '.' :: (List.replicate k '0' ++ ds))
      (digitsValue ds * (10 : ℚ) ^ (-(k + ds.length : Int))) := by
  have hDigits :
      ∀ c ∈ List.replicate k '0' ++ ds, isDigit c = true := by
    intro c hc
    rcases List.mem_append.mp hc with hZero | hMember
    · exact isDigit_of_mem_zeros hZero
    · exact hLeading.digits c hMember
  have hSome : List.replicate k '0' ++ ds ≠ [] := by
    rcases hLeading.first with ⟨d, more, rfl, _⟩
    simp
  have hSpells :
      Spells
        (['0'] ++ '.' :: (List.replicate k '0' ++ ds)) _ :=
    spells_point rfl hDigits hSome
  have hValue :
      digitsValue (['0'] ++ (List.replicate k '0' ++ ds)) =
        digitsValue ds := by
    rw [← List.append_assoc]
    exact digitsValue_zeros_append (k + 1) ds
  rw [hValue, List.length_append, List.length_replicate]
    at hSpells
  push_cast at hSpells
  exact hSpells

/- The point stands behind some digits. -/
theorem spells_inside
    (hLeading : IsLeading ds)
    {n : Nat}
    (hPositive : 0 < n)
    (hSome : ds.drop n ≠ []) :
    Spells (ds.take n ++ '.' :: ds.drop n)
      (digitsValue ds * (10 : ℚ) ^ ((n : Int) - ds.length)) := by
  have hWhole : IsLeading (ds.take n) := by
    refine ⟨fun c hc =>
      hLeading.digits c (List.mem_of_mem_take hc), ?_⟩
    rcases hLeading.first with ⟨d, more, rfl, hFirst⟩
    refine ⟨d, more.take (n - 1), ?_, hFirst⟩
    rw [List.take_cons hPositive]
  have hSpells :=
    spells_point (hWhole.wholePart?_eq (not_isDigit_point _))
      (fun c hc => hLeading.digits c (List.mem_of_mem_drop hc))
      hSome
  have hLength : n < ds.length := by
    rw [ne_eq, List.drop_eq_nil_iff] at hSome
    omega
  have hPower :
      (-((ds.length - n : ℕ) : Int)) = (n : Int) - ds.length := by
    omega
  rw [List.take_append_drop, List.length_drop, hPower]
    at hSpells
  exact hSpells

/- The point stands behind all digits and some zeros. -/
theorem spells_behind
    (hLeading : IsLeading ds)
    (k : Nat) :
    Spells (ds ++ List.replicate k '0' ++ ['.', '0'])
      (digitsValue ds * (10 : ℚ) ^ (k : Int)) := by
  have hWhole : IsLeading (ds ++ List.replicate k '0') := by
    constructor
    · intro c hc
      rcases List.mem_append.mp hc with hMember | hZero
      · exact hLeading.digits c hMember
      · exact isDigit_of_mem_zeros hZero
    · rcases hLeading.first with ⟨d, more, rfl, hFirst⟩
      exact ⟨d, more ++ List.replicate k '0', rfl, hFirst⟩
  have hSpells :
      Spells ((ds ++ List.replicate k '0') ++ '.' :: ['0']) _ :=
    spells_point (hWhole.wholePart?_eq (not_isDigit_point _))
      (by simp; decide) (by simp)
  have hValue :
      digitsValue (ds ++ List.replicate k '0' ++ ['0']) =
        digitsValue ds * 10 ^ k * 10 := by
    rw [← digitsValue_append_zeros, digitsValue_append]
    rfl
  have hSize :
      ((digitsValue ds * 10 ^ k * 10 : ℕ) : ℚ) *
          10 ^ (-((1 : ℕ) : Int)) =
        digitsValue ds * 10 ^ (k : Int) := by
    push_cast
    rw [zpow_neg_one, zpow_natCast]
    field_simp
  rw [hValue, List.length_singleton, hSize] at hSpells
  exact hSpells

/- The point stands in front of the digits, in or behind them. -/
theorem spells_positional
    (hLeading : IsLeading ds)
    (places : Int) :
    Spells (NumberFormat.positional ds places)
      (digitsValue ds * (10 : ℚ) ^ (places - ds.length)) := by
  unfold NumberFormat.positional
  split
  · next hFront =>
      have hSpells := spells_front hLeading (-places).toNat
      have hPower :
          (-((-places).toNat + ds.length : Int)) =
            places - ds.length := by
        omega
      rw [hPower] at hSpells
      exact hSpells
  · next hBehind =>
      have hPlaces : (places.toNat : Int) = places := by omega
      dsimp only
      by_cases hSome : ds.drop places.toNat = []
      · have hSpells := spells_behind hLeading
          (places.toNat - ds.length)
        have hLength := List.drop_eq_nil_iff.mp hSome
        have hPower :
            ((places.toNat - ds.length : ℕ) : Int) =
              places - ds.length := by
          omega
        rw [hPower] at hSpells
        rw [hSome, List.take_of_length_le hLength]
        exact hSpells
      · have hSpells := spells_inside hLeading
          (show 0 < places.toNat by omega) hSome
        have hLength : places.toNat < ds.length := by
          rw [List.drop_eq_nil_iff] at hSome
          omega
        have hZeros : places.toNat - ds.length = 0 := by omega
        rw [hPlaces] at hSpells
        rw [hZeros, List.replicate_zero, List.append_nil,
          if_neg (by simpa using hSome)]
        exact hSpells

/- The value of padded digits is that of the digits. -/
theorem digitsValue_padded
    (width n : Nat) :
    digitsValue
        (NumberFormat.padded width (NumberFormat.digits n)) =
      n := by
  unfold NumberFormat.padded NumberFormat.digits
  rw [digitsValue_zeros_append, Nat.toString_eq_repr,
    Nat.toList_repr, digitsValue_toDigits]

/- The digits of an exponent, with zeros in front. -/
theorem isDigit_of_mem_padded
    {width n : Nat}
    {c : Char}
    (hMember :
      c ∈ NumberFormat.padded width (NumberFormat.digits n)) :
    isDigit c = true := by
  unfold NumberFormat.padded NumberFormat.digits at hMember
  rcases List.mem_append.mp hMember with hZero | hMember
  · exact isDigit_of_mem_zeros hZero
  · rw [Nat.toString_eq_repr, Nat.toList_repr] at hMember
    exact isDigit_of_mem_toDigits hMember

theorem padded_digits_ne_nil (width n : Nat) :
    NumberFormat.padded width (NumberFormat.digits n) ≠ [] := by
  unfold NumberFormat.padded NumberFormat.digits
  rw [Nat.toString_eq_repr, Nat.toList_repr]
  simp [Nat.toDigits_ne_nil]

/- An exponent is told by its sign and its size. -/
theorem exponentPart_int
    (width : Nat)
    (exponent : Int) :
    ∃ digits,
      exponentPart
          ('e' :: (if exponent < 0 then '-' else '+') ::
            NumberFormat.padded width
              (NumberFormat.digits exponent.natAbs)) =
        (some (decide (exponent < 0), digits), []) ∧
      (if decide (exponent < 0) then
          -(digitsValue digits : Int)
        else digitsValue digits) = exponent := by
  refine ⟨NumberFormat.padded width
    (NumberFormat.digits exponent.natAbs), ?_, ?_⟩
  · have hPart :=
      exponentPart_sign (decide (exponent < 0))
        (fun c hc => isDigit_of_mem_padded hc)
        (padded_digits_ne_nil width exponent.natAbs)
    simpa only [decide_eq_true_eq] using hPart
  · rw [digitsValue_padded]
    by_cases hSign : exponent < 0
    · rw [if_pos (decide_eq_true hSign)]
      omega
    · rw [if_neg (by simpa using hSign)]
      omega

/- The point stands behind the first digit, if it stands. -/
theorem spells_scientific
    (f : NumberFormat)
    (hLeading : IsLeading ds)
    (exponent : Int) :
    Spells (f.scientific ds exponent)
      (digitsValue ds *
        (10 : ℚ) ^ (exponent + 1 - ds.length)) := by
  intro negative
  rcases exponentPart_int f.exponentDigits exponent with
    ⟨digits, hExponent, hPower⟩
  rcases hLeading.first with ⟨d, more, rfl, hFirst⟩
  have hDigit : IsLeading [d] := by
    refine ⟨?_, d, [], rfl, hFirst⟩
    intro c hc
    rw [List.mem_singleton.mp hc]
    exact hLeading.digits d (by simp)
  unfold NumberFormat.scientific
  cases more with
  | nil =>
      refine ⟨_,
        numeral?_signed negative
          (hDigit.wholePart?_eq (not_isDigit_exponent _)) rfl
          hExponent,
        rfl, Or.inr (by simp), ?_⟩
      unfold Decimal.ratio Numeral.decimal Numeral.power
      dsimp only
      rw [hPower, List.append_nil, List.length_nil,
        List.length_singleton]
      congr 2
      push_cast
      omega
  | cons e more =>
      have hMore : ∀ c ∈ e :: more, isDigit c = true :=
        fun c hc => hLeading.digits c (List.mem_cons_of_mem d hc)
      refine ⟨_,
        numeral?_signed negative
          (hDigit.wholePart?_eq (not_isDigit_point _))
          (decimalPart_point hMore (by simp)
            (not_isDigit_exponent _))
          hExponent,
        rfl, Or.inr (by simp), ?_⟩
      unfold Decimal.ratio Numeral.decimal Numeral.power
      dsimp only
      rw [hPower, List.singleton_append, List.length_cons,
        List.length_cons, List.length_cons]
      congr 2
      push_cast
      omega

/- The text of a decimal is a number of its size. -/
theorem spells_layout
    (f : NumberFormat)
    {d : Decimal}
    (hDigits : 0 < d.digits) :
    Spells (f.layout d) d.ratio := by
  have hAll :
      NumberFormat.digits d.digits =
        Nat.toDigits 10 d.digits := by
    unfold NumberFormat.digits
    rw [Nat.toString_eq_repr, Nat.toList_repr]
  have hLeading := (isLeading_toDigits hDigits).significant
  rcases significant_append_zeros (Nat.toDigits 10 d.digits) with
    ⟨k, hZeros⟩
  have hValue := digitsValue_toDigits d.digits
  have hLength := congrArg List.length hZeros
  rw [hZeros, digitsValue_append_zeros] at hValue
  rw [List.length_append, List.length_replicate] at hLength
  have hSize :
      d.ratio =
        digitsValue (NumberFormat.significant
            (Nat.toDigits 10 d.digits)) *
          (10 : ℚ) ^ (d.exponent +
            (Nat.toDigits 10 d.digits).length - 1 + 1 -
            (NumberFormat.significant
              (Nat.toDigits 10 d.digits)).length) := by
    have hPower :
        d.exponent + (Nat.toDigits 10 d.digits).length - 1 + 1 -
            (NumberFormat.significant
              (Nat.toDigits 10 d.digits)).length =
          k + d.exponent := by
      omega
    unfold Decimal.ratio
    rw [hPower, zpow_add₀ (by norm_num), zpow_natCast,
      ← mul_assoc]
    congr 1
    exact_mod_cast hValue.symm
  unfold NumberFormat.layout
  rw [hAll, hSize]
  dsimp only
  split
  · exact spells_positional hLeading _
  · exact spells_scientific f hLeading _

------------------------------------------------------------
-- Floating-Point Numbers
------------------------------------------------------------

/- A scalar that makes up a whole text is what is read. -/
theorem parse_of_shows
    {cs : List Char}
    {v : Json}
    (hShows : Shows cs (.scalar v) [])
    (room : Nat) :
    parse room cs = .ok v := by
  apply parse_of_read
  have hScan := hShows.scanFrom_eq 0
  rw [List.append_nil] at hScan
  rw [scan, hScan]
  rfl

theorem endsToken_nil : EndsToken [] := by
  simp [EndsToken]

end Json

namespace Binary64

variable {mantissa : Nat} {exponent : Int}

/- A decimal that is read as a positive number is no zero. -/
theorem Encloses.digits_pos
    (hNormal : IsNormal mantissa exponent)
    (hMantissa : 0 < mantissa)
    {d : Decimal}
    (hEncloses : Encloses mantissa exponent d.ratio) :
    0 < d.digits := by
  rcases Nat.eq_zero_or_pos d.digits with hZero | hPositive
  · have hTiny := hEncloses.tiny_lt hNormal hMantissa
    unfold Decimal.ratio at hTiny
    rw [hZero, Nat.cast_zero, zero_mul] at hTiny
    have hPower : (0 : ℚ) < 10 ^ (-324 : Int) := by positivity
    exact (lt_asymm hPower hTiny).elim
  · exact hPositive

/- A mantissa of zero goes with the least exponent. -/
theorem IsNormal.exponent_eq
    (hNormal : IsNormal 0 exponent) :
    exponent = leastExponent := by
  by_contra hOther
  have hLong := hNormal.long
    (lt_of_le_of_ne hNormal.least_le (Ne.symm hOther))
  norm_num at hLong

/- The text of a positive size is read as the size. -/
theorem exists_numeral_of_pos
    (negative : Bool)
    (hNormal : IsNormal mantissa exponent)
    (hMantissa : 0 < mantissa) :
    ∃ n,
      Json.numeral?
          (Json.signed negative
            (Json.numberFormat.layout
              (.shortest mantissa exponent))) =
        some (n, []) ∧
      n.token =
        .scalar (.number
          (.finite negative mantissa exponent)) := by
  have hEncloses := Decimal.encloses_shortest hNormal hMantissa
  have hDigits := hEncloses.digits_pos hNormal hMantissa
  rcases Json.spells_layout Json.numberFormat hDigits negative with
    ⟨n, hNumeral, hSign, hFractional, hSize⟩
  rw [← hSize] at hEncloses
  refine ⟨n, hNumeral, ?_⟩
  rw [hFractional.token_eq, hSign,
    ofDecimal_eq_of_encloses negative hNormal hMantissa
      (hEncloses.digits_pos hNormal hMantissa) hEncloses]

/- The text of a finite number is read as the number. -/
theorem survives_finite
    (negative : Bool)
    (hNormal : IsNormal mantissa exponent) :
    (finite negative mantissa exponent).Survives := by
  have hText :
      ∃ n,
        Json.numeral?
            (Json.numberFormat.write
              (.finite negative mantissa exponent)).toList =
          some (n, []) ∧
        n.token =
          .scalar (.number
            (.finite negative mantissa exponent)) := by
    unfold NumberFormat.write
    dsimp only
    rw [String.toList_ofList]
    rcases Nat.eq_zero_or_pos mantissa with rfl | hMantissa
    · refine ⟨⟨negative, ['0'], ['0'], none⟩,
        Json.numeral?_signed negative rfl rfl rfl, ?_⟩
      rw [hNormal.exponent_eq]
      rfl
    · have hNe : (mantissa == 0) = false := by
        simpa using hMantissa.ne'
      rw [hNe, if_neg Bool.false_ne_true]
      exact exists_numeral_of_pos negative hNormal hMantissa
  rcases hText with ⟨n, hNumeral, hToken⟩
  have hShows :=
    Json.shows_numeral hNumeral Json.endsToken_nil
  rw [hToken] at hShows
  exact Json.parse_of_shows hShows

/- Each number of the format is read from its own text. -/
theorem IsCanonical.survives
    {x : Binary64}
    (hCanonical : x.IsCanonical) :
    x.Survives := by
  have hWord :
      ∀ word ∈ Json.words,
        ∀ room, Json.parse room word.1 = .ok word.2 :=
    fun word hWord =>
      Json.parse_of_shows (Json.shows_word hWord [])
  cases x with
  | nan => exact hWord ("NaN".toList, _) (by simp [Json.words])
  | infinite negative =>
      cases negative with
      | false =>
          exact hWord ("Infinity".toList, _)
            (by simp [Json.words])
      | true =>
          exact hWord ("-Infinity".toList, _)
            (by simp [Json.words])
  | finite negative mantissa exponent =>
      exact survives_finite negative hCanonical

end Binary64

end BiomeMigration
