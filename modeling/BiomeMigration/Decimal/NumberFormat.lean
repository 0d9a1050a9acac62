import BiomeMigration.Decimal.Shortest

/-
  This file defines how a floating-point number is written:
  the digits of its shortest decimal, laid out by a record
  of the format's choices.

  Key definitions include:
    * `NumberFormat`
    * `NumberFormat.usual`
    * `NumberFormat.write`
-/

namespace BiomeMigration

/-
  The choices of a format. A number whose leading digit has
  an exponent from `lowest` to `highest` is written
  positionally and shows a decimal place; all others get an
  exponent of a sign and at least `exponentDigits` digits.
-/
structure NumberFormat where
  lowest : Int
  highest : Int
  exponentDigits : Nat
  nan : String
  infinity : String

namespace NumberFormat

/- Numbers are positional from `1e-4` up to `1e16`. -/
def usual : NumberFormat where
  lowest := -4
  highest := 15
  exponentDigits := 2
  nan := "nan"
  infinity := "inf"

/- Zeros in front, up to a width. -/
def padded
    (width : Nat)
    (digits : List Char) : List Char :=
  List.replicate (width - digits.length) '0' ++ digits

/- The decimal digits of a number. -/
def digits (n : Nat) : List Char :=
  (toString n).toList

/- Digits without the zeros at the end. -/
def significant (ds : List Char) : List Char :=
  (ds.reverse.dropWhile (· == '0')).reverse

/-
  Digits with the decimal point after `places` of them; the
  point stands inside the digits or before leading zeros,
  and a whole number keeps one decimal place.
-/
def positional
    (ds : List Char)
    (places : Int) : List Char :=
  if places ≤ 0 then
    '0' :: '.' :: List.replicate (-places).toNat '0' ++ ds
  else
    let n := places.toNat
    let whole :=
      ds.take n ++ List.replicate (n - ds.length) '0'
    let decimals := ds.drop n
    whole ++ '.' :: (if decimals.isEmpty then ['0'] else decimals)

/- Digits with the point after the first, and an exponent. -/
def scientific
    (f : NumberFormat)
    (ds : List Char)
    (exponent : Int) : List Char :=
  let mantissa :=
    match ds with
    | [] => []
    | [d] => [d]
    | d :: rest => d :: '.' :: rest
  let sign := if exponent < 0 then '-' else '+'
  mantissa ++ 'e' :: sign
    :: padded f.exponentDigits (digits exponent.natAbs)

/- A positive decimal in a format. -/
def layout
    (f : NumberFormat)
    (d : Decimal) : List Char :=
  let all := digits d.digits
  let exponent := d.exponent + all.length - 1
  let ds := significant all
  if f.lowest ≤ exponent && exponent ≤ f.highest then
    positional ds (exponent + 1)
  else
    scientific f ds exponent

/- A floating-point number in a format. -/
def write
    (f : NumberFormat) :
    Binary64 → String
  | .nan => f.nan
  | .infinite negative =>
      if negative then "-" ++ f.infinity else f.infinity
  | .finite negative mantissa exponent =>
      let size :=
        if mantissa == 0 then ['0', '.', '0']
        else f.layout (.shortest mantissa exponent)
      String.ofList (if negative then '-' :: size else size)

end NumberFormat

end BiomeMigration
