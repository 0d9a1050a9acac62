import BiomeMigration.Text.CodePoint
import BiomeMigration.Text.Digit
import BiomeMigration.Text.Quoted

/-
  This file defines what can be wrong with YAML text. Text
  that is not well-formed is one case; the others concern
  the value of a scalar, and each has its wording.

  Key definitions include:
    * `Yaml.Depths`
    * `Yaml.Fault`
    * `Yaml.Fault.message`
-/

namespace BiomeMigration

namespace Yaml

/-
  How deep a reading may go, which its stack decides: the
  collections that stand around another one, the nodes that
  are passed on the way to the content of a scalar, and the
  merges that stand around another one.
-/
structure Depths where
  collections : Nat
  content : Nat
  merges : Nat
  deriving DecidableEq, Repr

/- The part of a date or a time that is out of range. -/
inductive TimePart where
  | year (n : Nat)
  | month
  | day
  | hour
  | minute
  | second
  deriving DecidableEq, Repr

/- What is wrong with a text. -/
inductive Fault where
  | malformed
  | codePoint (n : Nat)
  | tooDeep
  | contentTooDeep
  | mergesTooDeep
  | noDigits
  | integer (base : Nat) (numeral : Text)
  | longInteger (digits : Nat)
  | number (numeral : Text)
  | largeNumber
  | truth (word : Text)
  | time
  | timeMapping
  | timePart (part : TimePart)
  | offset (days : Int) (seconds : Nat)
  deriving DecidableEq, Repr

/- The wording of a part out of range. -/
def TimePart.message : TimePart → String
  | .year n => s!"year {n} is out of range"
  | .month => "month must be in 1..12"
  | .day => "day is out of range for month"
  | .hour => "hour must be in 0..23"
  | .minute => "minute must be in 0..59"
  | .second => "second must be in 0..59"

/- The wording of an offset of a day or more. -/
def offsetMessage
    (days : Int)
    (seconds : Nat) : String :=
  let rest := if seconds == 0 then "" else s!", seconds={seconds}"
  "offset must be a timedelta strictly between "
    ++ "-timedelta(hours=24) and timedelta(hours=24), "
    ++ s!"not datetime.timedelta(days={days}{rest})."

/- The wording of a fault. -/
def Fault.message : Fault → String
  | .malformed => "malformed"
  | .codePoint n =>
      if n < 2 ^ 31 then "chr() arg not in range(0x110000)"
      else "Python int too large to convert to C int"
  | .tooDeep =>
      "maximum recursion depth exceeded while calling a"
        ++ " Python object"
  | .contentTooDeep => "maximum recursion depth exceeded"
  | .mergesTooDeep =>
      "maximum recursion depth exceeded in comparison"
  | .noDigits => "string index out of range"
  | .integer base numeral =>
      s!"invalid literal for int() with base {base}: "
        ++ String.ofList ((Quoted.ofText numeral).take 200)
  | .longInteger digits => Digit.longMessage digits
  | .number numeral =>
      "could not convert string to float: "
        ++ String.ofList (Quoted.ofText numeral)
  | .largeNumber => "int too large to convert to float"
  | .truth word => String.ofList (Quoted.ofText word)
  | .time => "'NoneType' object has no attribute 'groupdict'"
  | .timeMapping =>
      "expected string or bytes-like object, got 'list'"
  | .timePart part => part.message
  | .offset days seconds => offsetMessage days seconds

end Yaml

end BiomeMigration
