import BiomeMigration.Decimal.NumberFormat

/-
  This file defines how a floating-point number is written
  with a given number of decimal places or of significant
  digits. The exact value is rounded, a half to the even
  digit.

  Key definitions include:
    * `Places.fixed`
    * `Places.scientific`
    * `Places.general`
-/

namespace BiomeMigration

namespace Places

------------------------------------------------------------
-- Rounding
------------------------------------------------------------

/-
  The whole number nearest to
  `mantissa * 2 ^ exponent * 10 ^ places`.
-/
def scaled
    (mantissa : Nat)
    (exponent places : Int) : Nat :=
  let ratio := Decimal.proportion 1 (-places) mantissa exponent
  Binary64.roundDiv ratio.2 ratio.1

/-
  The first digits of a number, one more than `places`, and
  the exponent of the leading one. Rounding up may make one
  digit more. Zero has the exponent zero.
-/
def leading
    (mantissa : Nat)
    (exponent : Int)
    (places : Nat) : Nat × Int :=
  if mantissa == 0 then (0, 0)
  else
    let top := Decimal.magnitude mantissa exponent
    let n := scaled mantissa exponent (places - top)
    if n == 10 ^ (places + 1) then (10 ^ places, top + 1)
    else (n, top)

------------------------------------------------------------
-- Layout
------------------------------------------------------------

/-
  Digits with the point before the last `places` of them.
  Without places the point is left out, unless `point` asks
  for it.
-/
def pointed
    (point : Bool)
    (places n : Nat) : List Char :=
  let ds :=
    NumberFormat.padded (places + 1) (NumberFormat.digits n)
  let whole := ds.take (ds.length - places)
  let decimals := ds.drop (ds.length - places)
  if decimals.isEmpty && !point then whole
  else whole ++ '.' :: decimals

/- An exponent with its sign and at least two digits. -/
def exponentText (exponent : Int) : List Char :=
  let sign := if exponent < 0 then '-' else '+'
  'e' :: sign
    :: NumberFormat.padded 2
        (NumberFormat.digits exponent.natAbs)

/- A size with so many decimal places. -/
def fixed
    (point : Bool)
    (places : Nat)
    (mantissa : Nat)
    (exponent : Int) : List Char :=
  pointed point places (scaled mantissa exponent places)

/- A size with so many decimal places and an exponent. -/
def scientific
    (point : Bool)
    (places : Nat)
    (mantissa : Nat)
    (exponent : Int) : List Char :=
  let (n, top) := leading mantissa exponent places
  pointed point places n ++ exponentText top

/-
  Digits after the point without the zeros at the end, and
  without a point at the end.
-/
def trimmed (cs : List Char) : List Char :=
  if cs.contains '.' then
    let kept := NumberFormat.significant cs
    if kept.getLast? == some '.' then kept.dropLast else kept
  else cs

/-
  A size with so many significant digits, at least one. It
  has an exponent if the leading digit stands further to the
  right than the fourth place, or if there are not enough
  digits for the whole part. Zeros at the end are left out,
  unless `point` keeps them.
-/
def general
    (point : Bool)
    (count : Nat)
    (mantissa : Nat)
    (exponent : Int) : List Char :=
  let count := max count 1
  let (n, top) := leading mantissa exponent (count - 1)
  let shorten (cs : List Char) : List Char :=
    if point then cs else trimmed cs
  if top < -4 || (count : Int) ≤ top then
    shorten (pointed point (count - 1) n) ++ exponentText top
  else
    let places := (count - 1 - top).toNat
    shorten (fixed point places mantissa exponent)

end Places

end BiomeMigration
