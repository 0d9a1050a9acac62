import BiomeMigration.Decimal.Binary64

/-
  This file defines the shortest decimal of a
  floating-point number: the fewest digits that are nearer
  to the number than to any other one, and of these the
  nearest.

  Key definitions include:
    * `Decimal`
    * `Decimal.reads`
    * `Decimal.shortest`
-/

namespace BiomeMigration

/- The number `digits * 10 ^ exponent`. -/
structure Decimal where
  digits : Nat
  exponent : Int
  deriving DecidableEq, Repr

namespace Decimal

------------------------------------------------------------
-- The Decimals that Read Back as a Number
------------------------------------------------------------

/-
  Comparison of `a * 10 ^ i` with `b * 2 ^ j`: the two
  whole numbers in the same proportion.
-/
def proportion
    (a : Nat) (i : Int)
    (b : Nat) (j : Int) : Nat × Nat :=
  (a * 10 ^ i.toNat * 2 ^ (-j).toNat,
    b * 2 ^ j.toNat * 10 ^ (-i).toNat)

/-
  The reals that round to `mantissa * 2 ^ exponent` lie
  between these two multiples of a quarter of its last
  place. Below a power of two the numbers are twice as
  dense.
-/
def bounds
    (mantissa : Nat)
    (exponent : Int) : Nat × Nat :=
  let dense :=
    mantissa == 2 ^ 52
      && Binary64.leastExponent < exponent
  (4 * mantissa - (if dense then 1 else 2), 4 * mantissa + 2)

/-
  The decimal rounds to `mantissa * 2 ^ exponent`: it lies
  between the bounds, or on one when the mantissa is even.
-/
def reads
    (mantissa : Nat)
    (exponent : Int)
    (d : Decimal) : Bool :=
  let range := bounds mantissa exponent
  let low := proportion d.digits d.exponent range.1 (exponent - 2)
  let high := proportion d.digits d.exponent range.2 (exponent - 2)
  if mantissa % 2 == 0 then
    low.2 ≤ low.1 && high.1 ≤ high.2
  else
    low.2 < low.1 && high.1 < high.2

------------------------------------------------------------
-- The Shortest Decimal
------------------------------------------------------------

/- The exponent of the leading decimal digit. -/
def magnitude
    (mantissa : Nat)
    (exponent : Int) : Int :=
  let num := mantissa * 2 ^ exponent.toNat
  let den := 2 ^ (-exponent).toNat
  let guess : Int :=
    (toString num).length - (toString den).length
  if den * 10 ^ guess.toNat ≤ num * 10 ^ (-guess).toNat then
    guess
  else
    guess - 1

/-
  The neighbours of a number on the grid of the multiples
  of `10 ^ unit`: the one below, the one above, and whether
  the one below is the nearer one, a tie to the even one.
-/
def neighbours
    (mantissa : Nat)
    (exponent unit : Int) : Decimal × Decimal × Bool :=
  let ratio := proportion 1 unit mantissa exponent
  let below := ratio.2 / ratio.1
  let twice := 2 * (ratio.2 % ratio.1)
  let nearer :=
    twice < ratio.1 || (twice == ratio.1 && below % 2 == 0)
  (⟨below, unit⟩, ⟨below + 1, unit⟩, nearer)

/- The nearest decimal of the grid that reads back. -/
def onGrid
    (mantissa : Nat)
    (exponent unit : Int) : Option Decimal :=
  let (below, above, nearer) := neighbours mantissa exponent unit
  let order := if nearer then [below, above] else [above, below]
  order.find? (reads mantissa exponent)

/-
  The shortest decimal of a positive number. Seventeen
  digits always read back.
-/
def shortest
    (mantissa : Nat)
    (exponent : Int) : Decimal :=
  let top := magnitude mantissa exponent
  let found :=
    (List.range 17).findSome? fun (k : Nat) =>
      onGrid mantissa exponent (top - k)
  found.getD (neighbours mantissa exponent (top - 16)).1

end Decimal

end BiomeMigration
