import BiomeMigration.Proofs.Decimal.Nearest

/-
  The shortest decimal of a floating-point number lies
  between the bounds of the number, so that it is read back:
  among seventeen digits there is always such a decimal.

  Main declarations:
    * `Decimal.reads_iff`
    * `Decimal.pow_magnitude_le`
    * `Decimal.encloses_shortest`
-/

------------------------------------------------------------
-- Proportions
------------------------------------------------------------

namespace BiomeMigration

namespace Decimal

open Binary64 (value Encloses IsNormal IsDense)

variable {mantissa : Nat} {exponent : Int}

/- The value of a decimal. -/
def ratio (d : Decimal) : ℚ :=
  d.digits * 10 ^ d.exponent

/- A power as a quotient of powers of whole numbers. -/
theorem zpow_eq_div
    {base : ℚ}
    (hBase : 0 < base)
    (n : Int) :
    base ^ n * base ^ (-n).toNat = base ^ n.toNat := by
  rw [← zpow_natCast, ← zpow_natCast, ← zpow_add₀ hBase.ne']
  congr 1
  omega

/- A proportion compares two values, both by one factor. -/
theorem proportion_eq
    (a : Nat) (i : Int)
    (b : Nat) (j : Int) :
    ∃ factor : ℚ, 0 < factor ∧
      ((proportion a i b j).1 : ℚ) = a * 10 ^ i * factor ∧
        ((proportion a i b j).2 : ℚ) = value b j * factor := by
  have hTen := zpow_eq_div (show (0 : ℚ) < 10 by norm_num) i
  have hTwo := zpow_eq_div (show (0 : ℚ) < 2 by norm_num) j
  refine ⟨2 ^ (-j).toNat * 10 ^ (-i).toNat, by positivity, ?_, ?_⟩
  · unfold proportion
    push_cast
    rw [← hTen]
    ring
  · unfold proportion value
    push_cast
    rw [← hTwo]
    ring

theorem proportion_le_iff
    {a b : Nat}
    {i j : Int} :
    (proportion a i b j).1 ≤ (proportion a i b j).2 ↔
      a * (10 : ℚ) ^ i ≤ value b j := by
  rcases proportion_eq a i b j with ⟨factor, hPos, hFirst, hSecond⟩
  rw [← Nat.cast_le (α := ℚ), hFirst, hSecond,
    mul_le_mul_iff_left₀ hPos]

theorem le_proportion_iff
    {a b : Nat}
    {i j : Int} :
    (proportion a i b j).2 ≤ (proportion a i b j).1 ↔
      value b j ≤ a * (10 : ℚ) ^ i := by
  rcases proportion_eq a i b j with ⟨factor, hPos, hFirst, hSecond⟩
  rw [← Nat.cast_le (α := ℚ), hFirst, hSecond,
    mul_le_mul_iff_left₀ hPos]

/- The decimals that read back are those that are enclosed. -/
theorem reads_iff (d : Decimal) :
    reads mantissa exponent d = true ↔
      Encloses mantissa exponent d.ratio := by
  unfold reads ratio
  dsimp only
  split
  · next hEven =>
      simp only [Bool.and_eq_true, decide_eq_true_eq,
        le_proportion_iff, proportion_le_iff]
      constructor
      · rintro ⟨hLow, hHigh⟩
        exact ⟨hLow, hHigh, fun _ => by simpa using hEven⟩
      · intro hEncloses
        exact ⟨hEncloses.low, hEncloses.high⟩
  · next hOdd =>
      simp only [Bool.and_eq_true, decide_eq_true_eq,
        ← not_le, le_proportion_iff, proportion_le_iff]
      have hOther : mantissa % 2 ≠ 0 := by simpa using hOdd
      constructor
      · rintro ⟨hLow, hHigh⟩
        refine ⟨(not_le.mp hLow).le, (not_le.mp hHigh).le, ?_⟩
        rintro (hEnd | hEnd)
        · exact (hLow hEnd.le).elim
        · exact (hHigh hEnd.ge).elim
      · intro hEncloses
        constructor
        · intro hLe
          exact hOther (hEncloses.tie
            (Or.inl (le_antisymm hLe hEncloses.low)))
        · intro hLe
          exact hOther (hEncloses.tie
            (Or.inr (le_antisymm hEncloses.high hLe)))

------------------------------------------------------------
-- The Leading Digit
------------------------------------------------------------

/- The value of a number as a quotient of whole numbers. -/
theorem value_eq_div (mantissa : Nat) (exponent : Int) :
    value mantissa exponent =
      ((mantissa * 2 ^ exponent.toNat : ℕ) : ℚ) /
        ((2 ^ (-exponent).toNat : ℕ) : ℚ) := by
  have hTwo :=
    zpow_eq_div (show (0 : ℚ) < 2 by norm_num) exponent
  unfold value
  push_cast
  rw [eq_div_iff (by positivity), ← hTwo]
  ring

/- The leading digit stands where the magnitude says, or above. -/
theorem pow_magnitude_le
    (hMantissa : 0 < mantissa)
    (exponent : Int) :
    (10 : ℚ) ^ magnitude mantissa exponent ≤
      value mantissa exponent := by
  rw [value_eq_div]
  unfold magnitude
  dsimp only
  have hNum : 0 < mantissa * 2 ^ exponent.toNat := by positivity
  have hDen : 0 < 2 ^ (-exponent).toNat := by positivity
  generalize mantissa * 2 ^ exponent.toNat = num at *
  generalize 2 ^ (-exponent).toNat = den at *
  have hPos : (0 : ℚ) < den := by exact_mod_cast hDen
  rw [le_div_iff₀ hPos]
  generalize hGuess :
    ((toString num).length : Int) - (toString den).length = guess
  split
  · next hLe =>
      have hTen :=
        zpow_eq_div (show (0 : ℚ) < 10 by norm_num) guess
      have hCast :
          (den : ℚ) * 10 ^ guess.toNat ≤
            num * 10 ^ (-guess).toNat := by
        exact_mod_cast hLe
      rw [← hTen, ← mul_assoc] at hCast
      rw [mul_comm]
      exact le_of_mul_le_mul_right hCast (by positivity)
  · have hNumLow :
        (10 : ℚ) ^ (((toString num).length - 1 : ℕ) : Int) ≤
          num := by
      rw [zpow_natCast]
      exact_mod_cast Binary64.pow_length_toString_le hNum
    have hDenHigh :
        (den : ℚ) ≤ 10 ^ ((toString den).length : Int) := by
      rw [zpow_natCast]
      exact_mod_cast (Binary64.lt_pow_length_toString den).le
    have hLength : 0 < (toString num).length := by
      rw [Binary64.length_toString]
      exact Nat.length_toDigits_pos
    calc (10 : ℚ) ^ (guess - 1) * den
        ≤ 10 ^ (guess - 1) *
            10 ^ ((toString den).length : Int) := by
          gcongr
      _ = 10 ^ (((toString num).length - 1 : ℕ) : Int) := by
          rw [← zpow_add₀ (by norm_num)]
          congr 1
          omega
      _ ≤ num := hNumLow

------------------------------------------------------------
-- Neighbours
------------------------------------------------------------

/- The distance within which all ratios are read as a number. -/
theorem encloses_of_abs_lt
    (hMantissa : 0 < mantissa)
    {x reach : ℚ}
    (hReach : reach ≤ 1 / 2)
    (hDense : IsDense mantissa exponent → reach ≤ 1 / 4)
    (hNear :
      |x - value mantissa exponent| < reach * 2 ^ exponent) :
    Encloses mantissa exponent x := by
  have hPos : (0 : ℚ) < 2 ^ exponent := by positivity
  rcases abs_lt.mp hNear with ⟨hBelow, hAbove⟩
  have hHigh :
      x < value (bounds mantissa exponent).2 (exponent - 2) := by
    rw [Binary64.upper_bound_eq]
    unfold value at hAbove
    nlinarith
  have hLow :
      value (bounds mantissa exponent).1 (exponent - 2) < x := by
    unfold value at hBelow
    rcases Binary64.lower_bound_eq hMantissa exponent with
      ⟨hTwice, hBound⟩ | ⟨_, hBound⟩
    · rw [hBound]
      have hQuarter := hDense hTwice
      nlinarith
    · rw [hBound]
      nlinarith
  refine ⟨hLow.le, hHigh.le, ?_⟩
  rintro (hEnd | hEnd)
  · exact (hLow.ne' hEnd).elim
  · exact (hHigh.ne hEnd).elim

/- A number lies between its neighbours on a grid. -/
theorem neighbours_spec
    (mantissa : Nat)
    (exponent unit : Int) :
    ∃ below : Nat,
      (neighbours mantissa exponent unit).1 = ⟨below, unit⟩ ∧
        (neighbours mantissa exponent unit).2.1 =
          ⟨below + 1, unit⟩ ∧
        below * 10 ^ unit ≤ value mantissa exponent ∧
        value mantissa exponent < (below + 1) * 10 ^ unit := by
  rcases proportion_eq 1 unit mantissa exponent with
    ⟨factor, hFactor, hFirst, hSecond⟩
  have hUnit : (0 : ℚ) < 10 ^ unit := by positivity
  rw [Nat.cast_one, one_mul] at hFirst
  have hDen : 0 < (proportion 1 unit mantissa exponent).1 := by
    have hCast :
        (0 : ℚ) < (proportion 1 unit mantissa exponent).1 := by
      rw [hFirst]
      positivity
    exact_mod_cast hCast
  have hQuotient :
      ((proportion 1 unit mantissa exponent).2 : ℚ) /
          (proportion 1 unit mantissa exponent).1 =
        value mantissa exponent / 10 ^ unit := by
    rw [hFirst, hSecond, mul_div_mul_right _ _ hFactor.ne']
  have hFloor :=
    Binary64.div_le_cast_div
      (proportion 1 unit mantissa exponent).2 hDen
  have hCeil :=
    Binary64.cast_div_lt
      (proportion 1 unit mantissa exponent).2 hDen
  rw [hQuotient, le_div_iff₀ hUnit] at hFloor
  rw [hQuotient, div_lt_iff₀ hUnit] at hCeil
  exact ⟨_, rfl, rfl, hFloor, hCeil⟩

/- One of the neighbours on a grid is at most half a unit away. -/
theorem exists_neighbour
    (mantissa : Nat)
    (exponent unit : Int) :
    ∃ d,
      (d = (neighbours mantissa exponent unit).1 ∨
        d = (neighbours mantissa exponent unit).2.1) ∧
        |d.ratio - value mantissa exponent| ≤
          1 / 2 * 10 ^ unit := by
  rcases neighbours_spec mantissa exponent unit with
    ⟨below, hBelow, hAbove, hFloor, hCeil⟩
  rw [hBelow, hAbove]
  unfold ratio
  by_cases hHalf :
      value mantissa exponent ≤ (below + 1 / 2) * 10 ^ unit
  · refine ⟨⟨below, unit⟩, Or.inl rfl, ?_⟩
    rw [abs_le]
    constructor
    · dsimp only
      linarith
    · dsimp only
      linarith
  · refine ⟨⟨below + 1, unit⟩, Or.inr rfl, ?_⟩
    rw [abs_le]
    push_cast
    constructor
    · linarith
    · linarith

/- A neighbour that reads back is found on the grid. -/
theorem onGrid_ne_none_of_reads
    {unit : Int}
    {d : Decimal}
    (hNeighbour :
      d = (neighbours mantissa exponent unit).1 ∨
        d = (neighbours mantissa exponent unit).2.1)
    (hReads : reads mantissa exponent d = true) :
    onGrid mantissa exponent unit ≠ none := by
  intro hNone
  unfold onGrid at hNone
  dsimp only at hNone
  have hAll := List.find?_eq_none.mp hNone
  apply hAll d _ hReads
  split
  · rcases hNeighbour with rfl | rfl
    · simp
    · simp
  · rcases hNeighbour with rfl | rfl
    · simp
    · simp

------------------------------------------------------------
-- Seventeen Digits
------------------------------------------------------------

/- Half a unit of the seventeenth digit is within reach. -/
theorem half_unit_lt
    (hNormal : IsNormal mantissa exponent)
    (hMantissa : 0 < mantissa) :
    ∃ reach : ℚ,
      reach ≤ 1 / 2 ∧
        (IsDense mantissa exponent → reach ≤ 1 / 4) ∧
        1 / 2 * 10 ^ (magnitude mantissa exponent - (16 : Nat)) <
          reach * 2 ^ exponent := by
  have hPos : (0 : ℚ) < 2 ^ exponent := by positivity
  have hLeading := pow_magnitude_le hMantissa exponent
  have hUnit :
      (1 / 2 : ℚ) *
          10 ^ (magnitude mantissa exponent - (16 : Nat)) ≤
        (mantissa : ℚ) / (2 * 10 ^ 16) * 2 ^ exponent := by
    rw [zpow_sub₀ (by norm_num), zpow_natCast]
    calc (1 / 2 : ℚ) *
          (10 ^ magnitude mantissa exponent / 10 ^ 16)
        ≤ 1 / 2 * (value mantissa exponent / 10 ^ 16) := by
          gcongr
      _ = (mantissa : ℚ) / (2 * 10 ^ 16) * 2 ^ exponent := by
          unfold value
          ring
  by_cases hDense : IsDense mantissa exponent
  · refine ⟨1 / 4, by norm_num, fun _ => le_refl _, ?_⟩
    apply hUnit.trans_lt
    rw [mul_lt_mul_iff_left₀ hPos, hDense.1]
    norm_num
  · refine ⟨1 / 2, le_refl _, fun h => (hDense h).elim, ?_⟩
    apply hUnit.trans_lt
    rw [mul_lt_mul_iff_left₀ hPos]
    have hShort : (mantissa : ℚ) < 2 ^ 53 := by
      exact_mod_cast hNormal.mantissa_lt
    rw [div_lt_iff₀ (by norm_num)]
    linarith

theorem onGrid_ne_none
    (hNormal : IsNormal mantissa exponent)
    (hMantissa : 0 < mantissa) :
    onGrid mantissa exponent
        (magnitude mantissa exponent - (16 : Nat)) ≠
      none := by
  rcases half_unit_lt hNormal hMantissa with
    ⟨reach, hReach, hDense, hHalf⟩
  rcases exists_neighbour mantissa exponent
      (magnitude mantissa exponent - (16 : Nat)) with
    ⟨d, hNeighbour, hNear⟩
  have hReads : reads mantissa exponent d = true :=
    (reads_iff d).mpr
      (encloses_of_abs_lt hMantissa hReach hDense
        (hNear.trans_lt hHalf))
  exact onGrid_ne_none_of_reads hNeighbour hReads

/- The shortest decimal is read as the number. -/
theorem encloses_shortest
    (hNormal : IsNormal mantissa exponent)
    (hMantissa : 0 < mantissa) :
    Encloses mantissa exponent
      (shortest mantissa exponent).ratio := by
  have hSome := onGrid_ne_none hNormal hMantissa
  rw [← reads_iff]
  unfold shortest
  dsimp only
  cases hFound :
      (List.range 17).findSome? fun (k : Nat) =>
        onGrid mantissa exponent
          (magnitude mantissa exponent - k) with
  | none =>
      have hNone := List.findSome?_eq_none_iff.mp hFound 16
        (by simp)
      exact (hSome hNone).elim
  | some d =>
      rcases List.exists_of_findSome?_eq_some hFound with
        ⟨k, _, hGrid⟩
      rw [Option.getD_some]
      unfold onGrid at hGrid
      exact List.find?_some hGrid

end Decimal

end BiomeMigration
