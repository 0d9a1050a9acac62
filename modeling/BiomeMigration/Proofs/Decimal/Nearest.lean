import BiomeMigration.Decimal.Shortest
import BiomeMigration.Proofs.Decimal.Rounding

/-
  The ratios that are rounded to a floating-point number:
  those between its bounds, and on them if its mantissa is
  even.

  Main declarations:
    * `Binary64.Encloses`
    * `Binary64.ofRatio_eq_of_encloses`
    * `Binary64.ofDecimal_eq_of_encloses`
-/

------------------------------------------------------------
-- Bounds
------------------------------------------------------------

namespace BiomeMigration

namespace Binary64

open Decimal (bounds)

/-
  A ratio lies between the bounds of a number, or on one if
  the mantissa is even.
-/
structure Encloses
    (mantissa : Nat)
    (exponent : Int)
    (v : ℚ) : Prop where
  low : value (bounds mantissa exponent).1 (exponent - 2) ≤ v
  high : v ≤ value (bounds mantissa exponent).2 (exponent - 2)
  tie :
    v = value (bounds mantissa exponent).1 (exponent - 2) ∨
        v = value (bounds mantissa exponent).2 (exponent - 2) →
      mantissa % 2 = 0

variable {mantissa num den : Nat} {exponent : Int} {v : ℚ}

/- Bounds are counted in quarters of the last place. -/
theorem value_quarter (n : Nat) (exponent : Int) :
    value n (exponent - 2) = n / 4 * 2 ^ exponent := by
  unfold value
  rw [zpow_sub₀ (by norm_num)]
  norm_num
  ring

theorem upper_bound_eq (mantissa : Nat) (exponent : Int) :
    value (bounds mantissa exponent).2 (exponent - 2) =
      (mantissa + 1 / 2) * 2 ^ exponent := by
  rw [value_quarter]
  unfold bounds
  push_cast
  ring

/- Below a power of two the numbers are twice as dense. -/
def IsDense (mantissa : Nat) (exponent : Int) : Prop :=
  mantissa = 2 ^ 52 ∧ leastExponent < exponent

theorem lower_bound_eq
    (hMantissa : 0 < mantissa)
    (exponent : Int) :
    (IsDense mantissa exponent ∧
      value (bounds mantissa exponent).1 (exponent - 2) =
        (mantissa - 1 / 4) * 2 ^ exponent) ∨
      ¬ IsDense mantissa exponent ∧
        value (bounds mantissa exponent).1 (exponent - 2) =
          (mantissa - 1 / 2) * 2 ^ exponent := by
  unfold IsDense bounds
  dsimp only
  cases hDense :
      mantissa == 2 ^ 52 && decide (leastExponent < exponent) with
  | true =>
      left
      refine ⟨by simpa using hDense, ?_⟩
      rw [value_quarter, if_pos rfl, Nat.cast_sub (by omega)]
      push_cast
      ring
  | false =>
      right
      refine ⟨?_, ?_⟩
      · rintro ⟨hLong, hLess⟩
        simp [hLong, hLess] at hDense
      · rw [value_quarter, if_neg Bool.false_ne_true,
          Nat.cast_sub (by omega)]
        push_cast
        ring

/- A ratio in units of the last place. -/
theorem Encloses.nearestTo
    (hEncloses : Encloses mantissa exponent v)
    (hMantissa : 0 < mantissa) :
    NearestTo mantissa (v / 2 ^ exponent) := by
  have hPos : (0 : ℚ) < 2 ^ exponent := by positivity
  have hHigh := hEncloses.high
  have hLow := hEncloses.low
  have hTie := hEncloses.tie
  rw [upper_bound_eq] at hHigh hTie
  refine ⟨?_, ?_, ?_⟩
  · rw [le_div_iff₀ hPos]
    rcases lower_bound_eq hMantissa exponent with
      ⟨_, hBound⟩ | ⟨_, hBound⟩
    · rw [hBound] at hLow
      nlinarith
    · rw [hBound] at hLow
      exact hLow
  · rw [div_le_iff₀ hPos]
    exact hHigh
  · rintro (hEnd | hEnd)
    · rw [div_eq_iff hPos.ne'] at hEnd
      rcases lower_bound_eq hMantissa exponent with
        ⟨_, hBound⟩ | ⟨_, hBound⟩
      · rw [hBound] at hLow
        nlinarith
      · rw [hBound] at hTie
        exact hTie (Or.inl hEnd)
    · rw [div_eq_iff hPos.ne'] at hEnd
      exact hTie (Or.inr hEnd)

theorem Encloses.of_isDense
    (hEncloses : Encloses mantissa exponent v)
    (hDense : IsDense mantissa exponent) :
    mantissa - 1 / 4 ≤ v / 2 ^ exponent := by
  have hPos : (0 : ℚ) < 2 ^ exponent := by positivity
  have hMantissa : 0 < mantissa := by
    rw [hDense.1]
    positivity
  have hLow := hEncloses.low
  rcases lower_bound_eq hMantissa exponent with
    ⟨_, hBound⟩ | ⟨hOther, _⟩
  · rw [hBound] at hLow
    rw [le_div_iff₀ hPos]
    exact hLow
  · exact (hOther hDense).elim

------------------------------------------------------------
-- Rounding to the Number
------------------------------------------------------------

/- A greater exponent makes a smaller ratio. -/
theorem scaled_le
    (hRatio : 0 ≤ v)
    {other : Int}
    {k : Nat}
    (hLe : exponent + k ≤ other) :
    v / 2 ^ other ≤ v / 2 ^ exponent / 2 ^ k := by
  rw [div_div]
  have hPower : (2 : ℚ) ^ exponent * 2 ^ k ≤ 2 ^ other := by
    rw [← zpow_natCast, ← zpow_add₀ (by norm_num)]
    exact zpow_le_zpow_right₀ (by norm_num) hLe
  gcongr

/-
  A ratio near a number is scaled by the exponent of the
  number, or by one less if the number is the least of its
  exponent and the ratio is below it.
-/
theorem scaleOf_cases
    (hNormal : IsNormal mantissa exponent)
    (hMantissa : 0 < mantissa)
    (hNum : 0 < num)
    (hDen : 0 < den)
    (hEncloses : Encloses mantissa exponent ((num : ℚ) / den)) :
    scaleOf num den = exponent ∨
      IsDense mantissa exponent ∧
        scaleOf num den = exponent - 1 := by
  rcases scaleOf_spec hNum hDen with ⟨hLeast, hFits, hLong⟩
  have hNearest := hEncloses.nearestTo hMantissa
  have hLow := hNearest.low
  have hHigh := hNearest.high
  have hRatio : (0 : ℚ) ≤ (num : ℚ) / den := by positivity
  have hShort : (mantissa : ℚ) + 1 ≤ 2 ^ 53 := by
    exact_mod_cast hNormal.mantissa_lt
  rcases lt_trichotomy (scaleOf num den) exponent with
    hLess | hSame | hMore
  · right
    have hOne :=
      scaled_le hRatio
        (show scaleOf num den + (1 : Nat) ≤ exponent by
          push_cast
          omega)
    have hBelow : (mantissa : ℚ) < 2 ^ 52 + 1 := by
      linarith
    have hAtMost : mantissa < 2 ^ 52 + 1 := by
      exact_mod_cast hBelow
    have hAtLeast := hNormal.long (hLeast.trans_lt hLess)
    have hDense : IsDense mantissa exponent :=
      ⟨by omega, hLeast.trans_lt hLess⟩
    refine ⟨hDense, ?_⟩
    by_contra hOther
    have hTwo :=
      scaled_le hRatio
        (show scaleOf num den + (2 : Nat) ≤ exponent by
          push_cast
          omega)
    have hLongCast : (2 : ℚ) ^ 52 ≤ mantissa := by
      exact_mod_cast hAtLeast
    linarith
  · exact Or.inl hSame
  · exfalso
    have hOne :=
      scaled_le hRatio
        (show exponent + (1 : Nat) ≤ scaleOf num den by
          push_cast
          omega)
    have hScaled := hLong (hNormal.least_le.trans_lt hMore)
    linarith

/- A ratio that a number encloses is rounded to the number. -/
theorem ofRatio_eq_of_encloses
    (negative : Bool)
    (hNormal : IsNormal mantissa exponent)
    (hMantissa : 0 < mantissa)
    (hNum : 0 < num)
    (hDen : 0 < den)
    (hEncloses : Encloses mantissa exponent ((num : ℚ) / den)) :
    ofRatio negative num den =
      .finite negative mantissa exponent := by
  have hPos : 0 < (shift num den (scaleOf num den)).2 :=
    shift_pos hDen _
  have hRatio := shift_ratio num den (scaleOf num den)
  rcases scaleOf_spec hNum hDen with ⟨_, hFits, _⟩
  have hCarried :
      carry
          (roundDiv
            (shift num den (scaleOf num den)).1
            (shift num den (scaleOf num den)).2)
          (scaleOf num den) =
        (mantissa, exponent) := by
    rcases scaleOf_cases hNormal hMantissa hNum hDen
        hEncloses with
      hSame | ⟨hDense, hBelow⟩
    · have hRounded :
          roundDiv
              (shift num den (scaleOf num den)).1
              (shift num den (scaleOf num den)).2 =
            mantissa := by
        apply roundDiv_eq_of_nearestTo hPos
        rw [hRatio, hSame]
        exact hEncloses.nearestTo hMantissa
      rw [hRounded, hSame, carry_of_ne hNormal.mantissa_lt.ne]
    · have hRounded :
          roundDiv
              (shift num den (scaleOf num den)).1
              (shift num den (scaleOf num den)).2 =
            2 ^ 53 := by
        apply roundDiv_eq_of_nearestTo hPos
        rw [hRatio]
        have hLow := hEncloses.of_isDense hDense
        have hHalf :=
          scaled_le (show (0 : ℚ) ≤ (num : ℚ) / den by positivity)
            (show scaleOf num den + (1 : Nat) ≤ exponent by
              push_cast
              omega)
        rw [hDense.1] at hLow
        push_cast at hLow
        refine ⟨?_, ?_, fun _ => by norm_num⟩
        · push_cast
          linarith
        · push_cast
          linarith
      rw [hRounded, hBelow, carry_two_pow, sub_add_cancel,
        ← hDense.1]
  rw [ofRatio_eq negative hNum]
  dsimp only
  rw [hCarried, if_neg (not_lt.mpr hNormal.le_greatest)]

------------------------------------------------------------
-- Decimals
------------------------------------------------------------

/- The number of the decimal digits of a number. -/
theorem length_toString (n : Nat) :
    (toString n).length = (Nat.toDigits 10 n).length := by
  rw [Nat.toString_eq_repr, ← String.length_toList,
    Nat.toList_repr]

theorem lt_pow_length_toString (n : Nat) :
    n < 10 ^ (toString n).length := by
  rw [length_toString]
  have hPos : 0 < (Nat.toDigits 10 n).length :=
    Nat.length_toDigits_pos
  exact (Nat.length_toDigits_le_iff (by decide) hPos).mp
    (le_refl _)

theorem pow_length_toString_le
    {n : Nat}
    (hPos : 0 < n) :
    10 ^ ((toString n).length - 1) ≤ n := by
  rw [length_toString]
  rcases Nat.eq_zero_or_pos ((Nat.toDigits 10 n).length - 1) with
    hZero | hMore
  · rw [hZero]
    exact hPos
  · apply not_lt.mp
    intro hLess
    have hShort :=
      (Nat.length_toDigits_le_iff (by decide) hMore).mpr hLess
    omega

/- A decimal lies between powers of ten. -/
theorem decimal_bounds
    {digits : Nat}
    (hDigits : 0 < digits)
    (exponent : Int) :
    (10 : ℚ) ^ (((toString digits).length : Int) + exponent - 1) ≤
        digits * 10 ^ exponent ∧
      (digits : ℚ) * 10 ^ exponent <
        10 ^ (((toString digits).length : Int) + exponent) := by
  have hLow := pow_length_toString_le hDigits
  have hHigh := lt_pow_length_toString digits
  have hLength : 0 < (toString digits).length := by
    rw [length_toString]
    exact Nat.length_toDigits_pos
  have hPos : (0 : ℚ) < 10 ^ exponent := by positivity
  constructor
  · have hSplit :
        ((toString digits).length : Int) + exponent - 1 =
          (((toString digits).length - 1 : ℕ) : Int) +
            exponent := by
      omega
    rw [hSplit, zpow_add₀ (by norm_num), zpow_natCast]
    gcongr
    exact_mod_cast hLow
  · rw [zpow_add₀ (by norm_num), zpow_natCast]
    gcongr
    exact_mod_cast hHigh

/- Powers of whole numbers compare as those of ratios do. -/
theorem two_zpow_lt
    {i j : Nat}
    (hLess : 2 ^ i < 10 ^ j) :
    (2 : ℚ) ^ (i : Int) < 10 ^ (j : Int) := by
  rw [zpow_natCast, zpow_natCast]
  exact_mod_cast hLess

/- The numbers of the format are neither huge nor tiny. -/
theorem greatest_lt_huge :
    (2 : ℚ) ^ (53 + greatestExponent) < 10 ^ ((309 : Nat) : Int) := by
  have hLess : 2 ^ 1024 < 10 ^ 309 := by decide +kernel
  have hSum : 53 + greatestExponent = (1024 : Nat) := rfl
  rw [hSum]
  exact two_zpow_lt hLess

theorem tiny_lt_least :
    (10 : ℚ) ^ (-324 : Int) < 2 ^ (leastExponent - 1) := by
  have hLess : 2 ^ 1075 < 10 ^ 324 := by decide +kernel
  have hInverse :=
    (inv_lt_inv₀ (by positivity) (by positivity)).mpr
      (two_zpow_lt hLess)
  rw [← zpow_neg, ← zpow_neg] at hInverse
  exact hInverse

theorem Encloses.lt_huge
    (hEncloses : Encloses mantissa exponent v)
    (hNormal : IsNormal mantissa exponent) :
    v < 10 ^ ((309 : Nat) : Int) := by
  have hHigh := hEncloses.high
  rw [upper_bound_eq] at hHigh
  have hShort : (mantissa : ℚ) + 1 ≤ 2 ^ 53 := by
    exact_mod_cast hNormal.mantissa_lt
  calc v ≤ (mantissa + 1 / 2) * 2 ^ exponent := hHigh
    _ ≤ 2 ^ (53 : Int) * 2 ^ exponent := by
        gcongr
        norm_cast
        push_cast
        linarith
    _ = 2 ^ (53 + exponent) := (zpow_add₀ (by norm_num) _ _).symm
    _ ≤ 2 ^ (53 + greatestExponent) := by
        apply zpow_le_zpow_right₀ (by norm_num)
        have hGreatest := hNormal.le_greatest
        omega
    _ < 10 ^ ((309 : Nat) : Int) := greatest_lt_huge

theorem Encloses.tiny_lt
    (hEncloses : Encloses mantissa exponent v)
    (hNormal : IsNormal mantissa exponent)
    (hMantissa : 0 < mantissa) :
    10 ^ (-324 : Int) < v := by
  have hLow := (hEncloses.nearestTo hMantissa).low
  have hOne : (1 : ℚ) ≤ mantissa := by exact_mod_cast hMantissa
  have hPos : (0 : ℚ) < 2 ^ exponent := by positivity
  rw [le_div_iff₀ hPos] at hLow
  calc (10 : ℚ) ^ (-324 : Int) < 2 ^ (leastExponent - 1) :=
        tiny_lt_least
    _ ≤ 2 ^ (exponent - 1) := by
        apply zpow_le_zpow_right₀ (by norm_num)
        have hLeast := hNormal.least_le
        omega
    _ = 1 / 2 * 2 ^ exponent := by
        rw [zpow_sub_one₀ (by norm_num)]
        ring
    _ ≤ (mantissa - 1 / 2) * 2 ^ exponent := by
        apply mul_le_mul_of_nonneg_right _ hPos.le
        linarith
    _ ≤ v := hLow

/- A decimal that a number encloses is read as the number. -/
theorem ofDecimal_eq_of_encloses
    (negative : Bool)
    (hNormal : IsNormal mantissa exponent)
    (hMantissa : 0 < mantissa)
    {digits : Nat}
    (hDigits : 0 < digits)
    {power : Int}
    (hEncloses :
      Encloses mantissa exponent (digits * 10 ^ power)) :
    ofDecimal negative digits power =
      .finite negative mantissa exponent := by
  rcases decimal_bounds hDigits power with ⟨hLow, hHigh⟩
  have hSmall :
      ¬ 310 < ((toString digits).length : Int) + power := by
    intro hMore
    have hHuge : (10 : ℚ) ^ ((309 : Nat) : Int) ≤
        10 ^ (((toString digits).length : Int) + power - 1) :=
      zpow_le_zpow_right₀ (by norm_num) (by omega)
    linarith [hEncloses.lt_huge hNormal]
  have hLarge :
      ¬ ((toString digits).length : Int) + power < -330 := by
    intro hLess
    have hTiny :
        (10 : ℚ) ^ (((toString digits).length : Int) + power) ≤
          10 ^ (-324 : Int) :=
      zpow_le_zpow_right₀ (by norm_num) (by omega)
    linarith [hEncloses.tiny_lt hNormal hMantissa]
  have hNe : (digits == 0) = false := by simp [hDigits.ne']
  unfold ofDecimal
  dsimp only
  rw [hNe, if_neg Bool.false_ne_true, if_neg hSmall,
    if_neg hLarge]
  split
  · next hSign =>
      have hPower : (power.toNat : Int) = power := by omega
      apply ofRatio_eq_of_encloses negative hNormal hMantissa
        (by positivity) Nat.one_pos
      push_cast
      rw [div_one, ← zpow_natCast, hPower]
      exact hEncloses
  · next hSign =>
      have hPower : ((-power).toNat : Int) = -power := by omega
      apply ofRatio_eq_of_encloses negative hNormal hMantissa
        hDigits (by positivity)
      push_cast
      rw [← zpow_natCast, hPower, zpow_neg, div_inv_eq_mul]
      exact hEncloses

end Binary64

end BiomeMigration
