import BiomeMigration.Decimal.Binary64
import BiomeMigration.Text.Blank
import BiomeMigration.Text.Digit
import BiomeMigration.Yaml.Fault

/-
  This file defines the value of numerals: whole numbers in
  several bases, and decimals. Digits of all scripts count,
  and blanks around a numeral do not.

  Key definitions include:
    * `Yaml.Numeral.int`
    * `Yaml.Numeral.float`
-/

namespace BiomeMigration

namespace Yaml

namespace Numeral

------------------------------------------------------------
-- Characters
------------------------------------------------------------

/- An ASCII blank. -/
def isSpace (c : Char) : Bool :=
  c == ' ' || (9 ≤ c.toNat && c.toNat ≤ 13)

/-
  The ASCII form of a code point: a digit of any script
  becomes a digit, a blank beyond ASCII a space, and any
  other character beyond ASCII no part of a numeral.
-/
def ascii : CodePoint → Char
  | .scalar c =>
      if c.toNat < 127 then c
      else if isBlank c then ' '
      else
        match digitValue? c with
        | some n => Nat.digitChar n
        | none => '?'
  | .surrogate _ => '?'

/- The ASCII form of a text, without blanks around it. -/
def trimmed (t : Text) : List Char :=
  let cs := (t.map ascii).dropWhile isSpace
  (cs.reverse.dropWhile isSpace).reverse

/- A sign says that a number is negative; the rest. -/
def sign (cs : List Char) : Bool × List Char :=
  match cs with
  | '-' :: rest => (true, rest)
  | '+' :: rest => (false, rest)
  | _ => (false, cs)

/- The value of a digit or letter in a base. -/
def digit?
    (base : Nat)
    (c : Char) : Option Nat :=
  let lower := c.toLower
  let value? :=
    if c.isDigit then some (c.toNat - '0'.toNat)
    else if lower.isLower then some (lower.toNat - 'a'.toNat + 10)
    else none
  value?.filter (· < base)

/- The value of some digits. -/
def digitsValue
    (base : Nat)
    (cs : List Char) : Nat :=
  cs.foldl (fun n c => base * n + (digit? base c).getD 0) 0

------------------------------------------------------------
-- Whole Numbers
------------------------------------------------------------

/- The letter that may announce a base after a zero. -/
def baseLetter? : Nat → Option Char
  | 2 => some 'b'
  | 8 => some 'o'
  | 16 => some 'x'
  | _ => none

/- The digits after what announces their base. -/
def afterBase
    (base : Nat)
    (cs : List Char) : List Char :=
  match cs with
  | '0' :: c :: rest =>
      if baseLetter? base == some c.toLower then rest else cs
  | _ => cs

/- A whole number in a base. -/
def int
    (base : Nat)
    (t : Text) : Except Fault Int :=
  let (negative, unsigned) := sign (trimmed t)
  let all := afterBase base unsigned
  let digits := all.takeWhile fun c => (digit? base c).isSome
  if base == 10 && Digit.limit < digits.length then
    .error (.longInteger digits.length)
  else if digits.isEmpty || digits.length != all.length then
    .error (.integer base t)
  else
    let size : Int := digitsValue base digits
    .ok (if negative then -size else size)

------------------------------------------------------------
-- Decimals
------------------------------------------------------------

/- A sign and digits that are all of a text. -/
def exponent? (cs : List Char) : Option Int :=
  let (negative, digits) := sign cs
  if digits.isEmpty || !digits.all Char.isDigit then none
  else
    let size : Int := digitsValue 10 digits
    some (if negative then -size else size)

/- Digits with a point among them, and an exponent. -/
def decimal?
    (negative : Bool)
    (cs : List Char) : Option Binary64 := do
  let whole := cs.takeWhile Char.isDigit
  let rest := cs.dropWhile Char.isDigit
  let (places, rest) :=
    match rest with
    | '.' :: rest =>
        (rest.takeWhile Char.isDigit, rest.dropWhile Char.isDigit)
    | _ => ([], rest)
  if whole.isEmpty && places.isEmpty then none
  else
    let shift ←
      match rest with
      | [] => some 0
      | c :: rest => if c.toLower == 'e' then exponent? rest else none
    return .ofDecimal negative
      (digitsValue 10 (whole ++ places))
      (shift - places.length)

/- A decimal, or a word for a value that is not finite. -/
def float (t : Text) : Except Fault Binary64 :=
  let (negative, cs) := sign (trimmed t)
  let word := cs.map Char.toLower
  if word == "inf".toList || word == "infinity".toList then
    .ok (.infinite negative)
  else if word == "nan".toList then .ok .nan
  else
    match decimal? negative cs with
    | some x => .ok x
    | none => .error (.number t)

end Numeral

end Yaml

end BiomeMigration
