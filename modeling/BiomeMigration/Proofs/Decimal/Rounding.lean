import Mathlib.Algebra.Order.Field.Power
import Mathlib.Algebra.Order.Ring.Unbundled.Rat
import Mathlib.Data.Rat.Cast.Order
import Mathlib.Tactic
import BiomeMigration.Decimal.Binary64

/-
  Rounding a ratio to a floating-point number: the ratio is
  scaled so that its whole part has as many digits as a
  mantissa, and the mantissa and the exponent of the result
  are those of the format.

  Main declarations:
    * `Binary64.IsCanonical`
    * `Binary64.NearestTo`
    * `Binary64.scaleOf_spec`
    * `Binary64.isCanonical_ofDecimal`
-/

------------------------------------------------------------
-- Values
------------------------------------------------------------

namespace BiomeMigration

namespace Binary64

/- The value of a mantissa and an exponent. -/
def value (mantissa : Nat) (exponent : Int) : ℚ :=
  mantissa * 2 ^ exponent

/-
  The mantissa and the exponent of a number of the format.
  Only the numbers with the least exponent may have a short
  mantissa.
-/
structure IsNormal (mantissa : Nat) (exponent : Int) : Prop where
  mantissa_lt : mantissa < 2 ^ 53
  least_le : leastExponent ≤ exponent
  le_greatest : exponent ≤ greatestExponent
  long : leastExponent < exponent → 2 ^ 52 ≤ mantissa

/- A number of the format. -/
def IsCanonical : Binary64 → Prop
  | .nan => True
  | .infinite _ => True
  | .finite _ mantissa exponent => IsNormal mantissa exponent

theorem isCanonical_zero (negative : Bool) :
    (zero negative).IsCanonical where
  mantissa_lt := by decide
  least_le := le_refl _
  le_greatest := by decide
  long hLess := (lt_irrefl _ hLess).elim

------------------------------------------------------------
-- Whole Numbers
------------------------------------------------------------

/- A whole number is nearest to a ratio, or even and as near. -/
structure NearestTo (n : Nat) (x : ℚ) : Prop where
  low : n - 1 / 2 ≤ x
  high : x ≤ n + 1 / 2
  tie : x = n - 1 / 2 ∨ x = n + 1 / 2 → n % 2 = 0

variable {num den n : Nat}

/- A quotient by its whole part and its remainder. -/
theorem cast_div_eq
    (num : Nat)
    (hDen : 0 < den) :
    (num : ℚ) / den =
      (num / den : ℕ) + (num % den : ℕ) / (den : ℚ) := by
  have hCast :
      (num : ℚ) = den * (num / den : ℕ) + (num % den : ℕ) := by
    exact_mod_cast (Nat.div_add_mod num den).symm
  have hNe : (den : ℚ) ≠ 0 := by positivity
  field_simp
  linarith

theorem div_le_cast_div
    (num : Nat)
    (hDen : 0 < den) :
    ((num / den : ℕ) : ℚ) ≤ (num : ℚ) / den := by
  rw [cast_div_eq num hDen]
  have hPart : (0 : ℚ) ≤ (num % den : ℕ) / (den : ℚ) := by
    positivity
  linarith

theorem cast_div_lt
    (num : Nat)
    (hDen : 0 < den) :
    (num : ℚ) / den < (num / den : ℕ) + 1 := by
  rw [cast_div_eq num hDen, add_lt_add_iff_left,
    div_lt_one (by exact_mod_cast hDen)]
  exact_mod_cast Nat.mod_lt num hDen

/- Doubling a remainder compares its part with a half. -/
theorem part_eq
    (num : Nat)
    (hDen : 0 < den) :
    (num : ℚ) / den =
      (num / den : ℕ) + 1 / 2 +
        ((2 * (num % den) : ℕ) - (den : ℚ)) / (2 * den) := by
  rw [cast_div_eq num hDen]
  have hNe : (den : ℚ) ≠ 0 := by positivity
  push_cast
  field_simp
  ring

/-
  The rounded quotient is the whole part if the ratio is less
  than a half above it, and the next number if it is more; a
  half goes to the even one.
-/
theorem roundDiv_cases
    (num : Nat)
    (hDen : 0 < den) :
    ((num : ℚ) / den < (num / den : ℕ) + 1 / 2 ∧
        roundDiv num den = num / den) ∨
      ((num / den : ℕ) + 1 / 2 < (num : ℚ) / den ∧
        roundDiv num den = num / den + 1) ∨
      (num : ℚ) / den = (num / den : ℕ) + 1 / 2 ∧
        (num / den % 2 = 0 ∧ roundDiv num den = num / den ∨
          num / den % 2 = 1 ∧
            roundDiv num den = num / den + 1) := by
  have hPos : (0 : ℚ) < 2 * den := by positivity
  have hPart := part_eq num hDen
  unfold roundDiv
  dsimp only
  rcases lt_trichotomy (2 * (num % den)) den with
    hLess | hHalf | hMore
  · left
    have hCast : ((2 * (num % den) : ℕ) : ℚ) < den := by
      exact_mod_cast hLess
    have hNegative :
        ((2 * (num % den) : ℕ) - (den : ℚ)) / (2 * den) < 0 :=
      div_neg_of_neg_of_pos (by linarith) hPos
    exact ⟨by linarith, by rw [if_pos hLess]⟩
  · right
    right
    rw [hHalf, sub_self, zero_div, add_zero] at hPart
    refine ⟨hPart, ?_⟩
    rw [if_neg (by omega), if_neg (by omega)]
    rcases Nat.mod_two_eq_zero_or_one (num / den) with
      hEven | hOdd
    · exact Or.inl ⟨hEven, by simp [hEven]⟩
    · exact Or.inr ⟨hOdd, by simp [hOdd]⟩
  · right
    left
    have hCast : (den : ℚ) < ((2 * (num % den) : ℕ) : ℚ) := by
      exact_mod_cast hMore
    have hPositive :
        0 < ((2 * (num % den) : ℕ) - (den : ℚ)) / (2 * den) :=
      div_pos (by linarith) hPos
    exact ⟨by linarith,
      by rw [if_neg (by omega), if_pos hMore]⟩

theorem roundDiv_eq_of_nearestTo
    (hDen : 0 < den)
    (hNearest : NearestTo n ((num : ℚ) / den)) :
    roundDiv num den = n := by
  have hLow := hNearest.low
  have hHigh := hNearest.high
  have hFloor := div_le_cast_div num hDen
  have hCeil := cast_div_lt num hDen
  rcases roundDiv_cases num hDen with
    ⟨hPart, hRound⟩ | ⟨hPart, hRound⟩ | ⟨hPart, hTie⟩
  · rw [hRound]
    have hLe : (n : ℚ) < (num / den : ℕ) + 1 := by linarith
    have hGe : ((num / den : ℕ) : ℚ) < n + 1 := by linarith
    norm_cast at hLe hGe
    omega
  · rw [hRound]
    have hLe : (n : ℚ) < (num / den : ℕ) + 2 := by linarith
    have hGe : ((num / den : ℕ) : ℚ) < n := by linarith
    norm_cast at hLe hGe
    omega
  · have hLe : (n : ℚ) ≤ (num / den : ℕ) + 1 := by linarith
    have hGe : ((num / den : ℕ) : ℚ) ≤ n := by linarith
    have hTied : n % 2 = 0 := by
      apply hNearest.tie
      norm_cast at hLe hGe
      rcases Nat.eq_or_lt_of_le hGe with hSame | hLess
      · right
        rw [hPart, hSame]
      · left
        have hNext : n = num / den + 1 := by omega
        rw [hPart, hNext]
        push_cast
        ring
    norm_cast at hLe hGe
    rcases hTie with ⟨hEven, hRound⟩ | ⟨hOdd, hRound⟩
    · omega
    · omega

/- Rounding does not pass a whole number. -/
theorem roundDiv_le
    (hDen : 0 < den)
    (hLess : (num : ℚ) / den < n) :
    roundDiv num den ≤ n := by
  have hFloor : num / den < n := by
    exact_mod_cast (div_le_cast_div num hDen).trans_lt hLess
  rcases roundDiv_cases num hDen with
    ⟨_, hRound⟩ | ⟨_, hRound⟩ | ⟨_, ⟨_, hRound⟩ | ⟨_, hRound⟩⟩
  all_goals
    rw [hRound]
    omega

theorem le_roundDiv
    (hDen : 0 < den)
    (hLe : n ≤ (num : ℚ) / den) :
    n ≤ roundDiv num den := by
  have hFloor : n < num / den + 1 := by
    exact_mod_cast hLe.trans_lt (cast_div_lt num hDen)
  rcases roundDiv_cases num hDen with
    ⟨_, hRound⟩ | ⟨_, hRound⟩ | ⟨_, ⟨_, hRound⟩ | ⟨_, hRound⟩⟩
  all_goals
    rw [hRound]
    omega

------------------------------------------------------------
-- The Exponent
------------------------------------------------------------

/- The exponent that a ratio is scaled by before rounding. -/
def scaleOf (num den : Nat) : Int :=
  let spread : Int := (Nat.log2 num : Int) - Nat.log2 den
  let low := max (spread - 53) leastExponent
  let fits := shift num den low
  if fits.1 < fits.2 * 2 ^ 53 then low else low + 1

/- A ratio of whole numbers lies between powers of two. -/
theorem ratio_bounds
    (hNum : 0 < num)
    (hDen : 0 < den) :
    (2 : ℚ) ^ ((Nat.log2 num : Int) - Nat.log2 den - 1) <
        num / den ∧
      (num : ℚ) / den <
        2 ^ ((Nat.log2 num : Int) - Nat.log2 den + 1) := by
  have hPow : ∀ k : Nat, ((2 ^ k : ℕ) : ℚ) = (2 : ℚ) ^ (k : Int) := by
    intro k
    push_cast
    rw [zpow_natCast]
  have hNumLow : (2 : ℚ) ^ (Nat.log2 num : Int) ≤ num := by
    rw [← hPow]
    exact_mod_cast Nat.log2_self_le hNum.ne'
  have hNumHigh : (num : ℚ) < 2 ^ ((Nat.log2 num : Int) + 1) := by
    have hLess := Nat.lt_log2_self (n := num)
    have hCast : (num : ℚ) < ((2 ^ (num.log2 + 1) : ℕ) : ℚ) := by
      exact_mod_cast hLess
    rw [hPow] at hCast
    exact_mod_cast hCast
  have hDenLow : (2 : ℚ) ^ (Nat.log2 den : Int) ≤ den := by
    rw [← hPow]
    exact_mod_cast Nat.log2_self_le hDen.ne'
  have hDenHigh : (den : ℚ) < 2 ^ ((Nat.log2 den : Int) + 1) := by
    have hLess := Nat.lt_log2_self (n := den)
    have hCast : (den : ℚ) < ((2 ^ (den.log2 + 1) : ℕ) : ℚ) := by
      exact_mod_cast hLess
    rw [hPow] at hCast
    exact_mod_cast hCast
  have hPos : (0 : ℚ) < den := by exact_mod_cast hDen
  have hTwo : (2 : ℚ) ≠ 0 := by norm_num
  constructor
  · rw [lt_div_iff₀ hPos]
    calc (2 : ℚ) ^ ((Nat.log2 num : Int) - Nat.log2 den - 1) * den
        < 2 ^ ((Nat.log2 num : Int) - Nat.log2 den - 1) *
            2 ^ ((Nat.log2 den : Int) + 1) := by
          gcongr
      _ = 2 ^ (Nat.log2 num : Int) := by
          rw [← zpow_add₀ hTwo]
          congr 1
          ring
      _ ≤ num := hNumLow
  · rw [div_lt_iff₀ hPos]
    calc (num : ℚ) < 2 ^ ((Nat.log2 num : Int) + 1) := hNumHigh
      _ = 2 ^ ((Nat.log2 num : Int) - Nat.log2 den + 1) *
            2 ^ (Nat.log2 den : Int) := by
          rw [← zpow_add₀ hTwo]
          congr 1
          ring
      _ ≤ 2 ^ ((Nat.log2 num : Int) - Nat.log2 den + 1) * den := by
          gcongr

/- Scaling divides by a power of two. -/
theorem shift_pos
    (hDen : 0 < den)
    (exponent : Int) :
    0 < (shift num den exponent).2 := by
  unfold shift
  split
  · positivity
  · exact hDen

theorem shift_ratio
    (num den : Nat)
    (exponent : Int) :
    ((shift num den exponent).1 : ℚ) /
        (shift num den exponent).2 =
      (num : ℚ) / den / 2 ^ exponent := by
  unfold shift
  split
  · next hSign =>
      have hExponent : (exponent.toNat : Int) = exponent := by
        omega
      push_cast
      rw [← zpow_natCast, hExponent, div_div]
  · next hSign =>
      have hExponent : ((-exponent).toNat : Int) = -exponent := by
        omega
      push_cast
      rw [← zpow_natCast, hExponent, zpow_neg]
      field_simp

theorem shift_fits_iff
    (hDen : 0 < den)
    (exponent : Int) :
    (shift num den exponent).1 <
        (shift num den exponent).2 * 2 ^ 53 ↔
      (num : ℚ) / den / 2 ^ exponent < 2 ^ 53 := by
  have hPos : (0 : ℚ) < (shift num den exponent).2 := by
    exact_mod_cast shift_pos hDen exponent
  rw [← shift_ratio num den exponent, div_lt_iff₀ hPos, mul_comm]
  exact_mod_cast Iff.rfl

/-
  A scaled ratio fits into the mantissa, and is long unless
  the exponent is the least one.
-/
theorem scaleOf_spec
    (hNum : 0 < num)
    (hDen : 0 < den) :
    leastExponent ≤ scaleOf num den ∧
      (num : ℚ) / den / 2 ^ scaleOf num den < 2 ^ 53 ∧
      (leastExponent < scaleOf num den →
        2 ^ 52 ≤ (num : ℚ) / den / 2 ^ scaleOf num den) := by
  rcases ratio_bounds hNum hDen with ⟨hLow, hHigh⟩
  unfold scaleOf
  simp only [shift_fits_iff hDen]
  generalize (Nat.log2 num : Int) - Nat.log2 den = spread at *
  generalize (num : ℚ) / den = v at *
  have hTwo : (1 : ℚ) < 2 := by norm_num
  have hPos : ∀ e : Int, (0 : ℚ) < 2 ^ e := fun e => by positivity
  split
  · next hFits =>
      refine ⟨le_max_right _ _, hFits, ?_⟩
      intro hLeast
      have hSame : max (spread - 53) leastExponent = spread - 53 := by
        omega
      rw [hSame, le_div_iff₀ (hPos _)]
      have hPower :
          (2 : ℚ) ^ 52 * 2 ^ (spread - 53) = 2 ^ (spread - 1) := by
        rw [← zpow_natCast, ← zpow_add₀ (by norm_num)]
        congr 1
        omega
      rw [hPower]
      exact hLow.le
  · next hFits =>
      have hLong := not_lt.mp hFits
      have hHalf :
          v / 2 ^ (max (spread - 53) leastExponent + 1) =
            v / 2 ^ max (spread - 53) leastExponent / 2 := by
        rw [zpow_add_one₀ (by norm_num), div_div]
      refine ⟨?_, ?_, ?_⟩
      · have hMax := le_max_right (spread - 53) leastExponent
        omega
      · rw [div_lt_iff₀ (hPos _)]
        calc v < 2 ^ (spread + 1) := hHigh
          _ ≤ 2 ^ (53 + (max (spread - 53) leastExponent + 1)) := by
              apply zpow_le_zpow_right₀ hTwo.le
              have hMax := le_max_left (spread - 53) leastExponent
              omega
          _ = 2 ^ 53 *
                2 ^ (max (spread - 53) leastExponent + 1) := by
              rw [zpow_add₀ (by norm_num)]
              norm_cast
      · intro _
        rw [hHalf]
        linarith

------------------------------------------------------------
-- Rounded Ratios
------------------------------------------------------------

/- A mantissa that is too long by one is carried over. -/
def carry (mantissa : Nat) (exponent : Int) : Nat × Int :=
  if mantissa == 2 ^ 53 then (2 ^ 52, exponent + 1)
  else (mantissa, exponent)

theorem carry_two_pow (exponent : Int) :
    carry (2 ^ 53) exponent = (2 ^ 52, exponent + 1) :=
  if_pos (beq_self_eq_true _)

theorem carry_of_ne
    (hNe : mantissa ≠ 2 ^ 53)
    (exponent : Int) :
    carry mantissa exponent = (mantissa, exponent) :=
  if_neg (mt beq_iff_eq.mp hNe)

theorem finite_carry
    (negative : Bool)
    (mantissa : Nat)
    (exponent : Int) :
    (let carried := mantissa == 2 ^ 53
     let final := if carried then exponent + 1 else exponent
     if greatestExponent < final then .infinite negative
     else
      .finite negative (if carried then 2 ^ 52 else mantissa)
        final) =
      let carried := carry mantissa exponent
      if greatestExponent < carried.2 then
        Binary64.infinite negative
      else .finite negative carried.1 carried.2 := by
  unfold carry
  cases mantissa == 2 ^ 53 with
  | true => rfl
  | false => rfl

theorem ofRatio_eq
    (negative : Bool)
    (hNum : 0 < num)
    (den : Nat) :
    ofRatio negative num den =
      let scaled := shift num den (scaleOf num den)
      let carried :=
        carry (roundDiv scaled.1 scaled.2) (scaleOf num den)
      if greatestExponent < carried.2 then .infinite negative
      else .finite negative carried.1 carried.2 := by
  have hNe : (num == 0) = false := by simp [hNum.ne']
  have hFinite :=
    finite_carry negative
      (roundDiv
        (shift num den (scaleOf num den)).1
        (shift num den (scaleOf num den)).2)
      (scaleOf num den)
  dsimp only
  rw [← hFinite]
  unfold ofRatio scaleOf
  dsimp only
  rw [hNe, if_neg Bool.false_ne_true]

/- What a ratio is rounded to is a number of the format. -/
theorem isCanonical_ofRatio
    (negative : Bool)
    (num : Nat)
    (hDen : 0 < den) :
    (ofRatio negative num den).IsCanonical := by
  rcases Nat.eq_zero_or_pos num with rfl | hNum
  · exact isCanonical_zero negative
  rcases scaleOf_spec hNum hDen with ⟨hLeast, hFits, hLong⟩
  have hPos : 0 < (shift num den (scaleOf num den)).2 :=
    shift_pos hDen _
  rw [← shift_ratio] at hFits hLong
  rw [ofRatio_eq negative hNum]
  generalize shift num den (scaleOf num den) = scaled at *
  generalize scaleOf num den = exponent at *
  have hLe : roundDiv scaled.1 scaled.2 ≤ 2 ^ 53 :=
    roundDiv_le hPos (by exact_mod_cast hFits)
  dsimp only
  split
  · trivial
  · next hGreatest =>
      rcases eq_or_ne (roundDiv scaled.1 scaled.2) (2 ^ 53) with
        hSame | hNe
      · rw [hSame, carry_two_pow] at hGreatest ⊢
        exact
          { mantissa_lt := by norm_num
            least_le := by dsimp only; omega
            le_greatest := not_lt.mp hGreatest
            long := fun _ => le_refl _ }
      · rw [carry_of_ne hNe] at hGreatest ⊢
        exact
          { mantissa_lt := lt_of_le_of_ne hLe hNe
            least_le := hLeast
            le_greatest := not_lt.mp hGreatest
            long := fun h =>
              le_roundDiv hPos (by exact_mod_cast hLong h) }

theorem isCanonical_ofDecimal
    (negative : Bool)
    (digits : Nat)
    (exponent : Int) :
    (ofDecimal negative digits exponent).IsCanonical := by
  unfold ofDecimal
  dsimp only
  split
  · exact isCanonical_zero negative
  · split
    · trivial
    · split
      · exact isCanonical_zero negative
      · split
        · exact isCanonical_ofRatio negative _ Nat.one_pos
        · exact isCanonical_ofRatio negative _ (by positivity)

end Binary64

end BiomeMigration
