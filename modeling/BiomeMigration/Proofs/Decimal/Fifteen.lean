import BiomeMigration.Proofs.Decimal.Shortest

/-
  Decimals of at most fifteen digits survive: on the grid of
  such a decimal no other one is read as the same number, so
  that the shortest decimal of the number is the decimal.

  Main declarations:
    * `Binary64.exists_ofRatio`
    * `Decimal.lt_pow_magnitude`
    * `Decimal.ratio_shortest_ofDecimal`
-/

------------------------------------------------------------
-- Rounded Ratios
------------------------------------------------------------

namespace BiomeMigration

namespace Binary64

variable {num den mantissa : Nat} {exponent : Int} {v : ℚ}

/- A rounded quotient is nearest to the quotient. -/
theorem nearestTo_roundDiv
    (num : Nat)
    (hDen : 0 < den) :
    NearestTo (roundDiv num den) ((num : ℚ) / den) := by
  have hFloor := div_le_cast_div num hDen
  have hCeil := cast_div_lt num hDen
  rcases roundDiv_cases num hDen with
    ⟨hPart, hRound⟩ | ⟨hPart, hRound⟩ | ⟨hPart, hTie⟩
  · rw [hRound]
    refine ⟨by linarith, by linarith, ?_⟩
    rintro (hEnd | hEnd)
    · linarith
    · linarith
  · rw [hRound]
    refine ⟨by push_cast; linarith, by push_cast; linarith, ?_⟩
    rintro (hEnd | hEnd)
    · push_cast at hEnd
      linarith
    · push_cast at hEnd
      linarith
  · rcases hTie with ⟨hEven, hRound⟩ | ⟨hOdd, hRound⟩
    · rw [hRound]
      exact ⟨by linarith, hPart.le, fun _ => hEven⟩
    · rw [hRound]
      exact ⟨by push_cast; linarith, by push_cast; linarith,
        fun _ => by omega⟩

/- A ratio that is nearest to a mantissa is enclosed. -/
theorem encloses_of_nearestTo
    (hMantissa : 0 < mantissa)
    (hNearest : NearestTo mantissa (v / 2 ^ exponent))
    (hDense :
      IsDense mantissa exponent →
        mantissa - 1 / 4 ≤ v / 2 ^ exponent) :
    Encloses mantissa exponent v := by
  have hPos : (0 : ℚ) < 2 ^ exponent := by positivity
  have hLow := hNearest.low
  have hHigh := hNearest.high
  have hTie := hNearest.tie
  rw [le_div_iff₀ hPos] at hLow
  rw [div_le_iff₀ hPos] at hHigh
  rcases lower_bound_eq hMantissa exponent with
    ⟨hTwice, hBound⟩ | ⟨hOther, hBound⟩
  · have hQuarter := hDense hTwice
    rw [le_div_iff₀ hPos] at hQuarter
    refine ⟨by rw [hBound]; exact hQuarter,
      by rw [upper_bound_eq]; exact hHigh, fun _ => ?_⟩
    rw [hTwice.1]
  · refine ⟨by rw [hBound]; exact hLow,
      by rw [upper_bound_eq]; exact hHigh, ?_⟩
    rw [hBound, upper_bound_eq]
    rintro (hEnd | hEnd)
    · exact hTie (Or.inl ((div_eq_iff hPos.ne').mpr hEnd))
    · exact hTie (Or.inr ((div_eq_iff hPos.ne').mpr hEnd))

/-
  A ratio that is nearest to a mantissa too long by one is
  enclosed by the number that is carried over.
-/
theorem encloses_of_carried
    (hNearest : NearestTo (2 ^ 53) (v / 2 ^ exponent)) :
    Encloses (2 ^ 52) (exponent + 1) v := by
  have hHalf :
      v / 2 ^ (exponent + 1) = v / 2 ^ exponent / 2 := by
    rw [zpow_add_one₀ (by norm_num), div_div]
  have hLow := hNearest.low
  have hHigh := hNearest.high
  push_cast at hLow hHigh
  apply encloses_of_nearestTo (by norm_num)
  · rw [hHalf]
    refine ⟨?_, ?_, fun _ => by norm_num⟩
    · push_cast
      linarith
    · push_cast
      linarith
  · intro _
    rw [hHalf]
    push_cast
    linarith

/- A ratio that is not huge has no huge exponent. -/
theorem exponent_lt_of_scaled
    (hScaled : 2 ^ 52 ≤ v / 2 ^ exponent)
    (hSmall : v < 2 ^ greatestExponent) :
    exponent + 52 < greatestExponent := by
  have hUnit : (0 : ℚ) < 2 ^ exponent := by positivity
  rw [le_div_iff₀ hUnit] at hScaled
  have hPower :
      (2 : ℚ) ^ (exponent + 52) < 2 ^ greatestExponent := by
    rw [zpow_add₀ (by norm_num), mul_comm]
    exact_mod_cast hScaled.trans_lt hSmall
  exact (zpow_lt_zpow_iff_right₀ (by norm_num)).mp hPower

/-
  A ratio that is neither tiny nor huge is rounded to a
  number with a long mantissa that encloses it.
-/
theorem exists_ofRatio
    (negative : Bool)
    (hNum : 0 < num)
    (hDen : 0 < den)
    (hLarge : 2 ^ 52 * 2 ^ leastExponent ≤ (num : ℚ) / den)
    (hSmall : (num : ℚ) / den < 2 ^ greatestExponent) :
    ∃ mantissa exponent,
      ofRatio negative num den =
          .finite negative mantissa exponent ∧
        2 ^ 52 ≤ mantissa ∧
        Encloses mantissa exponent ((num : ℚ) / den) := by
  rcases scaleOf_spec hNum hDen with ⟨hLeast, hFits, hLong⟩
  have hPos : 0 < (shift num den (scaleOf num den)).2 :=
    shift_pos hDen _
  have hNearest :=
    nearestTo_roundDiv (shift num den (scaleOf num den)).1 hPos
  have hRatio := shift_ratio num den (scaleOf num den)
  rw [ofRatio_eq negative hNum]
  generalize shift num den (scaleOf num den) = scaled at *
  generalize scaleOf num den = e at *
  generalize (num : ℚ) / den = v at *
  have hScaled : 2 ^ 52 ≤ v / 2 ^ e := by
    rcases lt_or_eq_of_le hLeast with hLess | hSame
    · exact hLong hLess
    · rw [← hSame, le_div_iff₀ (by positivity)]
      exact hLarge
  have hLe : 2 ^ 52 ≤ roundDiv scaled.1 scaled.2 := by
    apply le_roundDiv hPos
    rw [hRatio]
    exact_mod_cast hScaled
  have hLess := exponent_lt_of_scaled hScaled hSmall
  rw [hRatio] at hNearest
  dsimp only
  rcases eq_or_ne (roundDiv scaled.1 scaled.2) (2 ^ 53) with
    hSame | hNe
  · rw [hSame] at hNearest ⊢
    refine ⟨2 ^ 52, e + 1, ?_, le_refl _,
      encloses_of_carried hNearest⟩
    rw [carry_two_pow, if_neg (by dsimp only; omega)]
  · refine ⟨roundDiv scaled.1 scaled.2, e, ?_, hLe, ?_⟩
    · rw [carry_of_ne hNe, if_neg (by dsimp only; omega)]
    · apply encloses_of_nearestTo (by omega) hNearest
      intro hDense
      rw [hDense.1]
      push_cast
      linarith

end Binary64

------------------------------------------------------------
-- The Leading Digit
------------------------------------------------------------

namespace Decimal

open Binary64 (value Encloses IsNormal IsDense)

variable {mantissa : Nat} {exponent : Int}

/- The leading digit does not stand above the magnitude. -/
theorem lt_pow_magnitude
    (hMantissa : 0 < mantissa)
    (exponent : Int) :
    value mantissa exponent <
      (10 : ℚ) ^ (magnitude mantissa exponent + 1) := by
  rw [value_eq_div]
  unfold magnitude
  dsimp only
  have hNum : 0 < mantissa * 2 ^ exponent.toNat := by positivity
  have hDen : 0 < 2 ^ (-exponent).toNat := by positivity
  generalize mantissa * 2 ^ exponent.toNat = num at *
  generalize 2 ^ (-exponent).toNat = den at *
  have hPos : (0 : ℚ) < den := by exact_mod_cast hDen
  rw [div_lt_iff₀ hPos]
  generalize hGuess :
    ((toString num).length : Int) - (toString den).length = guess
  split
  · have hNumHigh :
        (num : ℚ) < 10 ^ ((toString num).length : Int) := by
      rw [zpow_natCast]
      exact_mod_cast Binary64.lt_pow_length_toString num
    have hDenLow :
        (10 : ℚ) ^ (((toString den).length - 1 : ℕ) : Int) ≤
          den := by
      rw [zpow_natCast]
      exact_mod_cast Binary64.pow_length_toString_le hDen
    have hLength : 0 < (toString den).length := by
      rw [Binary64.length_toString]
      exact Nat.length_toDigits_pos
    calc (num : ℚ) < 10 ^ ((toString num).length : Int) := hNumHigh
      _ = 10 ^ (guess + 1) *
            10 ^ (((toString den).length - 1 : ℕ) : Int) := by
          rw [← zpow_add₀ (by norm_num)]
          congr 1
          omega
      _ ≤ 10 ^ (guess + 1) * den := by gcongr
  · next hMore =>
      have hTen :=
        zpow_eq_div (show (0 : ℚ) < 10 by norm_num) guess
      have hCast :
          (num : ℚ) * 10 ^ (-guess).toNat <
            den * 10 ^ guess.toNat := by
        exact_mod_cast not_le.mp hMore
      rw [← hTen, ← mul_assoc] at hCast
      rw [sub_add_cancel, mul_comm]
      exact lt_of_mul_lt_mul_right hCast (by positivity)

------------------------------------------------------------
-- Coarse Grids
------------------------------------------------------------

variable {unit : Int} {n n' : Nat}

/- What a number encloses is at most half a last place away. -/
theorem abs_sub_le_of_encloses
    (hMantissa : 0 < mantissa)
    {x : ℚ}
    (hEncloses : Encloses mantissa exponent x) :
    |x - value mantissa exponent| ≤ 1 / 2 * 2 ^ exponent := by
  have hNearest := hEncloses.nearestTo hMantissa
  have hLow := hNearest.low
  have hHigh := hNearest.high
  have hPos : (0 : ℚ) < 2 ^ exponent := by positivity
  rw [le_div_iff₀ hPos] at hLow
  rw [div_le_iff₀ hPos] at hHigh
  unfold value
  rw [abs_le]
  constructor
  · linarith
  · linarith

/- A grid that is coarser than the numbers has one such decimal. -/
theorem eq_of_encloses
    (hMantissa : 0 < mantissa)
    (hCoarse : (2 : ℚ) ^ exponent < 10 ^ unit)
    (hFirst : Encloses mantissa exponent (n * 10 ^ unit))
    (hSecond : Encloses mantissa exponent (n' * 10 ^ unit)) :
    n = n' := by
  have hUnit : (0 : ℚ) < 10 ^ unit := by positivity
  have hNear := abs_sub_le_of_encloses hMantissa hFirst
  have hNear' := abs_sub_le_of_encloses hMantissa hSecond
  rw [abs_le] at hNear hNear'
  have hLess : (n : ℚ) < n' + 1 := by
    have hScaled : (n : ℚ) * 10 ^ unit < (n' + 1) * 10 ^ unit := by
      linarith
    exact lt_of_mul_lt_mul_right hScaled hUnit.le
  have hMore : (n' : ℚ) < n + 1 := by
    have hScaled : (n' : ℚ) * 10 ^ unit < (n + 1) * 10 ^ unit := by
      linarith
    exact lt_of_mul_lt_mul_right hScaled hUnit.le
  norm_cast at hLess hMore
  omega

/- Such a decimal is found on its grid. -/
theorem onGrid_ne_none_of_encloses
    (hMantissa : 0 < mantissa)
    (hCoarse : (2 : ℚ) ^ exponent < 10 ^ unit)
    (hEncloses : Encloses mantissa exponent (n * 10 ^ unit)) :
    onGrid mantissa exponent unit ≠ none := by
  have hUnit : (0 : ℚ) < 10 ^ unit := by positivity
  rcases neighbours_spec mantissa exponent unit with
    ⟨below, hBelow, hAbove, hFloor, hCeil⟩
  have hNear := abs_sub_le_of_encloses hMantissa hEncloses
  rw [abs_le] at hNear
  have hLess : (n : ℚ) < below + 2 := by
    have hScaled : (n : ℚ) * 10 ^ unit < (below + 2) * 10 ^ unit := by
      linarith
    exact lt_of_mul_lt_mul_right hScaled hUnit.le
  have hMore : (below : ℚ) < n + 1 := by
    have hScaled : (below : ℚ) * 10 ^ unit < (n + 1) * 10 ^ unit := by
      linarith
    exact lt_of_mul_lt_mul_right hScaled hUnit.le
  have hReads : reads mantissa exponent ⟨n, unit⟩ = true :=
    (reads_iff _).mpr hEncloses
  apply onGrid_ne_none_of_reads _ hReads
  rw [hBelow, hAbove]
  norm_cast at hLess hMore
  rcases Nat.eq_or_lt_of_le (Nat.lt_succ_iff.mp hMore) with
    rfl | hNext
  · exact Or.inl rfl
  · have hSame : n = below + 1 := by omega
    exact Or.inr (by rw [hSame])

/- What is found on a grid belongs to it and reads back. -/
theorem onGrid_spec
    {d : Decimal}
    (hFound : onGrid mantissa exponent unit = some d) :
    d.exponent = unit ∧ Encloses mantissa exponent d.ratio := by
  unfold onGrid at hFound
  dsimp only at hFound
  refine ⟨?_, (reads_iff d).mp (List.find?_some hFound)⟩
  have hMember := List.mem_of_find?_eq_some hFound
  rcases neighbours_spec mantissa exponent unit with
    ⟨below, hBelow, hAbove, _, _⟩
  rw [hBelow, hAbove] at hMember
  split at hMember
  · simp at hMember
    rcases hMember with rfl | rfl
    · rfl
    · rfl
  · simp at hMember
    rcases hMember with rfl | rfl
    · rfl
    · rfl

/- The shortest decimal comes from the first grid that has one. -/
theorem exists_grid_of_shortest
    {k : Nat}
    (hLess : k < 17)
    (hGrid :
      onGrid mantissa exponent (magnitude mantissa exponent - k) ≠
        none) :
    ∃ j ≤ k,
      onGrid mantissa exponent (magnitude mantissa exponent - j) =
        some (shortest mantissa exponent) := by
  unfold shortest
  dsimp only
  cases hFound :
      (List.range 17).findSome? fun (k : Nat) =>
        onGrid mantissa exponent
          (magnitude mantissa exponent - k) with
  | none =>
      exact (hGrid (List.findSome?_eq_none_iff.mp hFound k
        (List.mem_range.mpr hLess))).elim
  | some d =>
      rcases List.findSome?_eq_some_iff.mp hFound with
        ⟨before, j, after, hRange, hAt, hBefore⟩
      have hMember : k ∈ before ++ j :: after := by
        rw [← hRange]
        exact List.mem_range.mpr hLess
      have hSorted : (before ++ j :: after).Pairwise (· < ·) := by
        rw [← hRange]
        exact List.pairwise_lt_range
      refine ⟨j, ?_, hAt⟩
      rcases List.mem_append.mp hMember with hBelow | hAbove
      · exact (hGrid (hBefore k hBelow)).elim
      · rcases List.mem_cons.mp hAbove with rfl | hAfter
        · exact le_refl _
        · have hRest := (List.pairwise_append.mp hSorted).2.1
          exact ((List.pairwise_cons.mp hRest).1 k hAfter).le

/- A decimal as a multiple of a power of ten. -/
theorem ratio_eq_mul
    (d : Decimal)
    (hUnit : unit ≤ d.exponent) :
    d.ratio =
      ((d.digits * 10 ^ (d.exponent - unit).toNat : ℕ) : ℚ) *
        10 ^ unit := by
  unfold ratio
  push_cast
  rw [mul_assoc, ← zpow_natCast, ← zpow_add₀ (by norm_num)]
  congr 2
  omega

/-
  A decimal on a grid that is coarser than the numbers is
  the shortest one, if the grid is at most sixteen digits
  below the leading one.
-/
theorem ratio_shortest_of_encloses
    (hMantissa : 0 < mantissa)
    {k : Nat}
    (hLess : k < 17)
    (hCoarse :
      (2 : ℚ) ^ exponent <
        10 ^ (magnitude mantissa exponent - k))
    (hEncloses :
      Encloses mantissa exponent
        (n * 10 ^ (magnitude mantissa exponent - k))) :
    (shortest mantissa exponent).ratio =
      n * 10 ^ (magnitude mantissa exponent - k) := by
  rcases exists_grid_of_shortest hLess
      (onGrid_ne_none_of_encloses hMantissa hCoarse hEncloses) with
    ⟨j, hLe, hFound⟩
  rcases onGrid_spec hFound with ⟨hUnit, hReads⟩
  have hOn :=
    ratio_eq_mul (shortest mantissa exponent)
      (show magnitude mantissa exponent - k ≤ _ by
        rw [hUnit]
        omega)
  rw [hOn] at hReads ⊢
  rw [eq_of_encloses hMantissa hCoarse hReads hEncloses]

------------------------------------------------------------
-- Fifteen Digits
------------------------------------------------------------

/- The last place of a long mantissa. -/
theorem unit_le_value
    (hLong : 2 ^ 52 ≤ mantissa) :
    2 ^ 52 * 2 ^ exponent ≤ value mantissa exponent := by
  have hCast : (2 : ℚ) ^ 52 ≤ mantissa := by
    exact_mod_cast hLong
  unfold value
  gcongr

/- A decimal with some places is rounded as a ratio. -/
theorem ofDecimal_eq_ofRatio
    {digits places : Nat}
    (hDigits : 0 < digits)
    (hFew : digits < 10 ^ 15)
    (hPlaces : places ≤ 15) :
    Binary64.ofDecimal false digits (-places) =
      Binary64.ofRatio false digits (10 ^ places) := by
  have hLength : (toString digits).length ≤ 15 := by
    rw [Binary64.length_toString]
    exact (Nat.length_toDigits_le_iff (by decide)
      (by decide)).mpr hFew
  have hNe : (digits == 0) = false := by simp [hDigits.ne']
  unfold Binary64.ofDecimal
  dsimp only
  rw [hNe, if_neg Bool.false_ne_true, if_neg (by omega),
    if_neg (by omega)]
  split
  · next hSign =>
      have hNone : places = 0 := by omega
      rw [hNone]
      simp
  · rw [neg_neg, Int.toNat_natCast]

/- Fifteen digits are neither tiny nor huge. -/
theorem ratio_bounds_of_few
    {digits places : Nat}
    (hDigits : 0 < digits)
    (hFew : digits < 10 ^ 15)
    (hPlaces : places ≤ 15) :
    2 ^ 52 * 2 ^ Binary64.leastExponent ≤
        (digits : ℚ) / (10 ^ places : ℕ) ∧
      (digits : ℚ) / (10 ^ places : ℕ) <
        2 ^ Binary64.greatestExponent := by
  have hOne : (1 : ℚ) ≤ digits := by exact_mod_cast hDigits
  have hLess : (digits : ℚ) < 10 ^ 15 := by exact_mod_cast hFew
  have hPower : (10 : ℚ) ^ places ≤ 10 ^ 15 :=
    pow_le_pow_right₀ (by norm_num) hPlaces
  have hPowerPos : (1 : ℚ) ≤ 10 ^ places :=
    one_le_pow₀ (by norm_num)
  push_cast
  constructor
  · have hSmall :
        (2 : ℚ) ^ 52 * 2 ^ Binary64.leastExponent ≤ 2 ^ (-50 : Int) := by
      rw [← zpow_natCast, ← zpow_add₀ (by norm_num)]
      exact zpow_le_zpow_right₀ (by norm_num) (by decide)
    refine hSmall.trans ?_
    rw [le_div_iff₀ (by positivity)]
    calc (2 : ℚ) ^ (-50 : Int) * 10 ^ places
        ≤ 2 ^ (-50 : Int) * 10 ^ 15 := by gcongr
      _ ≤ 1 := by norm_num
      _ ≤ digits := hOne
  · have hLarge :
        (2 : ℚ) ^ (50 : Int) ≤ 2 ^ Binary64.greatestExponent :=
      zpow_le_zpow_right₀ (by norm_num) (by decide)
    refine lt_of_lt_of_le ?_ hLarge
    rw [div_lt_iff₀ (by positivity)]
    calc (digits : ℚ) < 10 ^ 15 := hLess
      _ ≤ 2 ^ (50 : Int) * 1 := by norm_num
      _ ≤ 2 ^ (50 : Int) * 10 ^ places := by gcongr

/-
  Below a number of at most sixteen digits above a place,
  the grid of the place, or else that of the leading digit,
  is coarser than the numbers.
-/
theorem exists_coarse_grid
    {place : Int}
    (hLong : 2 ^ 52 ≤ mantissa)
    (hSmall :
      value mantissa exponent < 2 * 10 ^ 15 * 10 ^ place) :
    ∃ k : Nat,
      k < 17 ∧
        magnitude mantissa exponent - k ≤ place ∧
        (2 : ℚ) ^ exponent <
          10 ^ (magnitude mantissa exponent - k) := by
  have hMantissa : 0 < mantissa := by omega
  have hUnit :
      2 ^ 52 * 2 ^ exponent ≤ value mantissa exponent :=
    unit_le_value hLong
  have hTop := pow_magnitude_le hMantissa exponent
  have hAbove := lt_pow_magnitude hMantissa exponent
  have hPlace : (0 : ℚ) < 10 ^ place := by positivity
  have hPos : (0 : ℚ) < 2 ^ exponent := by positivity
  have hTopLess :
      magnitude mantissa exponent < 16 + place := by
    have hPower :
        (10 : ℚ) ^ magnitude mantissa exponent <
          10 ^ (16 + place) := by
      have hSixteen : (10 : ℚ) ^ (16 : Int) = 10 * 10 ^ 15 := by
        norm_num
      rw [zpow_add₀ (by norm_num), hSixteen]
      linarith
    exact (zpow_lt_zpow_iff_right₀ (by norm_num)).mp hPower
  rcases le_total (magnitude mantissa exponent) place with
    hBelow | hAtLeast
  · refine ⟨0, by norm_num, by simpa using hBelow, ?_⟩
    rw [zpow_add_one₀ (by norm_num)] at hAbove
    simp only [Nat.cast_zero, sub_zero]
    linarith
  · refine ⟨(magnitude mantissa exponent - place).toNat,
      by omega, by omega, ?_⟩
    have hSame :
        magnitude mantissa exponent -
            ((magnitude mantissa exponent - place).toNat : Int) =
          place := by
      omega
    rw [hSame]
    linarith

/-
  A decimal of at most fifteen digits and fifteen places is
  read as a number whose shortest decimal it is.
-/
theorem ratio_shortest_ofDecimal
    {digits places : Nat}
    (hDigits : 0 < digits)
    (hFew : digits < 10 ^ 15)
    (hPlaces : places ≤ 15) :
    ∃ mantissa exponent,
      Binary64.ofDecimal false digits (-places) =
          .finite false mantissa exponent ∧
        0 < mantissa ∧
        (shortest mantissa exponent).ratio =
          digits * 10 ^ (-(places : Int)) := by
  rcases ratio_bounds_of_few hDigits hFew hPlaces with
    ⟨hLarge, hSmall⟩
  rcases Binary64.exists_ofRatio false hDigits (by positivity)
      hLarge hSmall with
    ⟨mantissa, exponent, hRead, hLong, hEncloses⟩
  have hMantissa : 0 < mantissa := by omega
  have hRatio :
      (digits : ℚ) / (10 ^ places : ℕ) =
        digits * 10 ^ (-(places : Int)) := by
    push_cast
    rw [zpow_neg, zpow_natCast, div_eq_mul_inv]
  rw [hRatio] at hEncloses
  rw [ofDecimal_eq_ofRatio hDigits hFew hPlaces]
  refine ⟨mantissa, exponent, hRead, hMantissa, ?_⟩
  have hSize :
      (digits : ℚ) * 10 ^ (-(places : Int)) <
        10 ^ 15 * 10 ^ (-(places : Int)) := by
    have hLess : (digits : ℚ) < 10 ^ 15 := by exact_mod_cast hFew
    gcongr
  -- The number is at most half a last place above the decimal.
  have hValue :
      value mantissa exponent <
        2 * 10 ^ 15 * 10 ^ (-(places : Int)) := by
    have hNear := abs_sub_le_of_encloses hMantissa hEncloses
    rw [abs_le] at hNear
    have hUnit :
        2 ^ 52 * 2 ^ exponent ≤ value mantissa exponent :=
      unit_le_value hLong
    have hPos : (0 : ℚ) < 2 ^ exponent := by positivity
    linarith
  rcases exists_coarse_grid hLong hValue with
    ⟨k, hLess, hLe, hCoarse⟩
  have hOn := ratio_eq_mul ⟨digits, -places⟩ hLe
  unfold ratio at hOn
  dsimp only at hOn
  rw [hOn] at hEncloses ⊢
  exact ratio_shortest_of_encloses hMantissa hLess hCoarse hEncloses

end Decimal

end BiomeMigration
