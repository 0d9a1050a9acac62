/-
  This file defines the 64-bit binary floating-point
  numbers, as exact values, and the rounding of a ratio to
  the nearest of them.

  Key definitions include:
    * `Binary64`
    * `Binary64.ofRatio`
    * `Binary64.ofDecimal`
    * `Binary64.ofNat?`
    * `Binary64.add`
    * `Binary64.mul`
-/

namespace BiomeMigration

/- Powers are those of numbers, not those of a monoid. -/
attribute [instance (1100), default_instance 10001]
  instPowNat

/-
  A floating-point number. A finite one has the value
  `mantissa * 2 ^ exponent`, where `mantissa < 2 ^ 53`,
  `-1074 ≤ exponent`, and `2 ^ 52 ≤ mantissa` unless the
  exponent is the least one.
-/
inductive Binary64 where
  | nan
  | infinite (negative : Bool)
  | finite
      (negative : Bool)
      (mantissa : Nat)
      (exponent : Int)
  deriving DecidableEq, Repr

namespace Binary64

------------------------------------------------------------
-- Rounding
------------------------------------------------------------

/- The least exponent, that of the subnormal numbers. -/
def leastExponent : Int := -1074

/- The greatest exponent. -/
def greatestExponent : Int := 971

/- Zero with a sign. -/
def zero (negative : Bool) : Binary64 :=
  .finite negative 0 leastExponent

/-
  The quotient rounded to the nearest whole number, a half
  to the even one.
-/
def roundDiv (num den : Nat) : Nat :=
  let whole := num / den
  let twice := 2 * (num % den)
  if twice < den then whole
  else if den < twice then whole + 1
  else if whole % 2 == 0 then whole
  else whole + 1

/- The ratio `num / den` divided by `2 ^ exponent`. -/
def shift
    (num den : Nat)
    (exponent : Int) : Nat × Nat :=
  if 0 ≤ exponent then
    (num, den * 2 ^ exponent.toNat)
  else
    (num * 2 ^ (-exponent).toNat, den)

/-
  The number nearest to `num / den`, a tie to the even
  mantissa. `den` is positive.
-/
def ofRatio
    (negative : Bool)
    (num den : Nat) : Binary64 :=
  if num == 0 then zero negative
  else
    let spread : Int := (Nat.log2 num : Int) - Nat.log2 den
    let low := max (spread - 53) leastExponent
    let fits := shift num den low
    let exponent :=
      if fits.1 < fits.2 * 2 ^ 53 then low else low + 1
    let scaled := shift num den exponent
    let mantissa := roundDiv scaled.1 scaled.2
    let carried := mantissa == 2 ^ 53
    let final := if carried then exponent + 1 else exponent
    if greatestExponent < final then .infinite negative
    else
      .finite
        negative
        (if carried then 2 ^ 52 else mantissa)
        final

/- The number nearest to `digits * 10 ^ exponent`. -/
def ofDecimal
    (negative : Bool)
    (digits : Nat)
    (exponent : Int) : Binary64 :=
  let size : Int := (toString digits).length + exponent
  if digits == 0 then zero negative
  else if 310 < size then .infinite negative
  else if size < -330 then zero negative
  else if 0 ≤ exponent then
    ofRatio negative (digits * 10 ^ exponent.toNat) 1
  else
    ofRatio negative digits (10 ^ (-exponent).toNat)

/- The number nearest to a whole number, if it is finite. -/
def ofNat? (n : Nat) : Option Binary64 :=
  match ofRatio false n 1 with
  | .infinite _ => none
  | x => some x

------------------------------------------------------------
-- Arithmetic
------------------------------------------------------------

/- The number nearest to `value * 2 ^ exponent`. -/
def ofScaled
    (negative : Bool)
    (value : Nat)
    (exponent : Int) : Binary64 :=
  if 0 ≤ exponent then
    ofRatio negative (value * 2 ^ exponent.toNat) 1
  else
    ofRatio negative value (2 ^ (-exponent).toNat)

/- The opposite number. -/
def neg : Binary64 → Binary64
  | .nan => .nan
  | .infinite s => .infinite !s
  | .finite s m q => .finite (!s) m q

/- The rounded product. -/
def mul : Binary64 → Binary64 → Binary64
  | .nan, _ => .nan
  | _, .nan => .nan
  | .finite s m q, .finite s' m' q' =>
      ofScaled (s != s') (m * m') (q + q')
  | .infinite s, .infinite s' => .infinite (s != s')
  | .infinite s, .finite s' m _ =>
      if m == 0 then .nan else .infinite (s != s')
  | .finite s m _, .infinite s' =>
      if m == 0 then .nan else .infinite (s != s')

/- The rounded sum. -/
def add : Binary64 → Binary64 → Binary64
  | .nan, _ => .nan
  | _, .nan => .nan
  | .infinite s, .infinite s' =>
      if s == s' then .infinite s else .nan
  | .infinite s, .finite _ _ _ => .infinite s
  | .finite _ _ _, .infinite s => .infinite s
  | .finite s m q, .finite s' m' q' =>
      let low := min q q'
      let signed (negative : Bool) (m : Nat) (q : Int) : Int :=
        let size : Int := m * 2 ^ (q - low).toNat
        if negative then -size else size
      let total := signed s m q + signed s' m' q'
      let negative :=
        if total == 0 then s && s' else decide (total < 0)
      ofScaled negative total.natAbs low

end Binary64

end BiomeMigration
