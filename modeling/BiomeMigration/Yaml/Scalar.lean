import BiomeMigration.Text.LetterCase
import BiomeMigration.Yaml.Numeral
import BiomeMigration.Yaml.Resolve

/-
  This file defines the values of scalars: what the content
  of a scalar means under its tag.

  Key definitions include:
    * `Yaml.Scalar`
    * `Yaml.Scalar.intOf`
    * `Yaml.Scalar.floatOf`
    * `Yaml.Scalar.ofTag`
-/

namespace BiomeMigration

namespace Yaml

/-
  The value of a scalar. Bytes and times are told from the
  other values, but not from each other.
-/
inductive Scalar where
  | null
  | bool (b : Bool)
  | int (n : Int)
  | float (x : Binary64)
  | text (t : Text)
  | other
  deriving DecidableEq

namespace Scalar

------------------------------------------------------------
-- Text
------------------------------------------------------------

/- The code point of a character. -/
def point (c : Char) : CodePoint :=
  .scalar c

/- A text without underscores. -/
def compact (t : Text) : Text :=
  t.filter (· != point '_')

/- The pieces of a text between colons. -/
def groups : Text → List Text
  | [] => [[]]
  | p :: rest =>
      if p == point ':' then [] :: groups rest
      else
        match groups rest with
        | [] => [[p]]
        | piece :: pieces => (p :: piece) :: pieces

/- A sign says that a number is negative; the rest. -/
def sign (t : Text) : Except Fault (Bool × Text) :=
  match t with
  | [] => .error .noDigits
  | p :: rest =>
      if p == point '-' then .ok (true, rest)
      else if p == point '+' then .ok (false, rest)
      else .ok (false, t)

------------------------------------------------------------
-- Numbers
------------------------------------------------------------

/- The size of a whole number, by how it starts. -/
def intSize (t : Text) : Except Fault Int :=
  match t with
  | [] => .error .noDigits
  | p :: rest =>
      if p == point '0' then
        match rest with
        | [] => .ok 0
        | q :: digits =>
            if q == point 'b' then Numeral.int 2 digits
            else if q == point 'x' then Numeral.int 16 digits
            else Numeral.int 8 t
      else if t.contains (point ':') then do
        let parts ← (groups t).mapM (Numeral.int 10)
        return parts.foldl (fun total n => 60 * total + n) 0
      else Numeral.int 10 t

/- A whole number. -/
def intOf (t : Text) : Except Fault Int := do
  let (negative, rest) ← sign (compact t)
  let size ← intSize rest
  return if negative then -size else size

/- Numbers to base sixty, the last one of weight `weight`. -/
def sexagesimal
    (weight : Nat)
    (total : Binary64) :
    List Binary64 → Except Fault Binary64
  | [] => .ok total
  | x :: rest =>
      match Binary64.ofNat? weight with
      | none => .error .largeNumber
      | some w => sexagesimal (60 * weight) (total.add (x.mul w)) rest

/- The size of a floating-point number. -/
def floatSize (t : Text) : Except Fault Binary64 :=
  if t == Text.ofString ".inf" then .ok (.infinite false)
  else if t == Text.ofString ".nan" then .ok .nan
  else if t.contains (point ':') then do
    let parts ← (groups t).mapM Numeral.float
    sexagesimal 1 (.zero false) parts.reverse
  else Numeral.float t

/- A floating-point number. -/
def floatOf (t : Text) : Except Fault Binary64 := do
  let (negative, rest) ← sign (LetterCase.lower (compact t))
  let size ← floatSize rest
  return if negative then size.neg else size

------------------------------------------------------------
-- Other Values
------------------------------------------------------------

/- A truth value. -/
def boolOf (t : Text) : Except Fault Bool :=
  let word := LetterCase.lower t
  let isOneOf (words : List String) : Bool :=
    words.any fun w => Text.ofString w == word
  if isOneOf ["yes", "true", "on"] then .ok true
  else if isOneOf ["no", "false", "off"] then .ok false
  else .error (.truth word)

/- A character is a digit to base sixty-four. -/
def isBase64 (c : Char) : Bool :=
  c.isAlphanum || c == '+' || c == '/'

/-
  Bytes written to base sixty-four are complete: `digits`
  counts those of a group of four, and padding ends a group
  that has two or more. Other characters are passed over.
-/
def isComplete
    (digits pads : Nat) :
    List Char → Bool
  | [] => digits == 0
  | c :: rest =>
      if c == '=' then
        if 2 ≤ digits then
          4 ≤ digits + (pads + 1) || isComplete digits (pads + 1) rest
        else isComplete digits pads rest
      else if isBase64 c then isComplete ((digits + 1) % 4) 0 rest
      else isComplete digits pads rest

/- Bytes are written completely, in ASCII. -/
def checkBytes (t : Text) : Except Fault Unit :=
  match t.chars? with
  | some cs =>
      if cs.all (·.toNat < 0x80) && isComplete 0 0 cs then .ok ()
      else .error .malformed
  | none => .error .malformed

/- A timestamp exists. -/
def checkTime (t : Text) : Except Fault Unit :=
  match (t.chars?.map Plain.withoutFeed).bind Timestamp.read? with
  | some time => time.check
  | none => .error .time

/- The value of a content under a tag. -/
def ofTag
    (tag : Tag)
    (t : Text) : Except Fault Scalar :=
  match tag with
  | .null => .ok .null
  | .bool => (boolOf t).map .bool
  | .int => (intOf t).map .int
  | .float => (floatOf t).map .float
  | .binary => (checkBytes t).map fun _ => .other
  | .timestamp => (checkTime t).map fun _ => .other
  | .str => .ok (.text t)
  | _ => .error .malformed

end Scalar

end Yaml

end BiomeMigration
