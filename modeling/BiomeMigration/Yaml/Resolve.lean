import BiomeMigration.Yaml.Node
import BiomeMigration.Yaml.Timestamp

/-
  This file defines what a scalar without a tag stands for,
  as its content shows.

  Key definitions include:
    * `Yaml.Plain.isInt`
    * `Yaml.Plain.isFloat`
    * `Yaml.Tag.ofPlain`
-/

namespace BiomeMigration

namespace Yaml

namespace Plain

------------------------------------------------------------
-- Parts of Numbers
------------------------------------------------------------

/- The text after a sign. -/
def unsigned (cs : List Char) : List Char :=
  match cs with
  | '-' :: rest => rest
  | '+' :: rest => rest
  | _ => cs

/- A decimal digit or an underscore. -/
def isFiller (c : Char) : Bool :=
  c.isDigit || c == '_'

/- A digit and then digits and underscores. -/
def isWhole : List Char → Bool
  | c :: rest => c.isDigit && rest.all isFiller
  | [] => false

/- The pieces of a text between colons. -/
def groups : List Char → List (List Char)
  | [] => [[]]
  | c :: rest =>
      if c == ':' then [] :: groups rest
      else
        match groups rest with
        | [] => [[c]]
        | piece :: pieces => (c :: piece) :: pieces

/- A number below sixty, in one or two digits. -/
def isSixtieth : List Char → Bool
  | [c] => c.isDigit
  | [c, d] => '0' ≤ c && c ≤ '5' && d.isDigit
  | _ => false

/- An exponent with a sign, or nothing. -/
def isExponent : List Char → Bool
  | [] => true
  | e :: s :: digits =>
      (e == 'e' || e == 'E') && (s == '-' || s == '+')
        && !digits.isEmpty && digits.all Char.isDigit
  | _ => false

------------------------------------------------------------
-- Numbers
------------------------------------------------------------

/- Digits of a base and underscores, at least one of them. -/
def areDigits
    (isDigit : Char → Bool)
    (cs : List Char) : Bool :=
  !cs.isEmpty && cs.all fun c => isDigit c || c == '_'

/-
  A whole number: binary after `0b`, hexadecimal after `0x`,
  octal after a zero, decimal, or in groups to base sixty.
-/
def isInt (cs : List Char) : Bool :=
  match unsigned cs with
  | ['0'] => true
  | '0' :: 'b' :: rest => areDigits (fun c => c == '0' || c == '1') rest
  | '0' :: 'x' :: rest =>
      areDigits
        (fun c =>
          c.isDigit || ('a' ≤ c && c ≤ 'f') || ('A' ≤ c && c ≤ 'F'))
        rest
  | '0' :: rest => areDigits (fun c => '0' ≤ c && c ≤ '7') rest
  | rest =>
      match groups rest with
      | first :: others => isWhole first && others.all isSixtieth
      | [] => false

/- A number with a point, and maybe an exponent. -/
def isDecimal (cs : List Char) : Bool :=
  let whole := cs.takeWhile isFiller
  match cs.dropWhile isFiller with
  | '.' :: rest =>
      let places := rest.takeWhile isFiller
      let ending := rest.dropWhile isFiller
      if whole.isEmpty then isWhole places && isExponent ending
      else isWhole whole && isExponent ending
  | _ => false

/- A number in groups to base sixty, the last with a point. -/
def isSexagesimal (cs : List Char) : Bool :=
  let body := cs.takeWhile (· != '.')
  match cs.dropWhile (· != '.'), groups body with
  | '.' :: places, first :: second :: others =>
      isWhole first && (second :: others).all isSixtieth
        && places.all isFiller
  | _, _ => false

/-
  A floating-point number. A sign in front of the point of
  a fraction without whole digits makes it a word.
-/
def isFloat (cs : List Char) : Bool :=
  let rest := unsigned cs
  let bare := rest.length == cs.length
  ([".inf", ".Inf", ".INF"].map String.toList).contains rest
    || ([".nan", ".NaN", ".NAN"].map String.toList).contains cs
    || (isDecimal rest && (bare || rest.head? != some '.'))
    || isSexagesimal rest

------------------------------------------------------------
-- Words
------------------------------------------------------------

/- The words for the two truth values. -/
def truthWords : List String :=
  ["yes", "Yes", "YES", "no", "No", "NO", "true", "True",
    "TRUE", "false", "False", "FALSE", "on", "On", "ON",
    "off", "Off", "OFF"]

/- The words for no value. -/
def nullWords : List String :=
  ["", "~", "null", "Null", "NULL"]

/-
  The signs of a tag, an anchor and an alias. Only under a
  lone exclamation mark can they be content without a tag.
-/
def signs : List String :=
  ["!", "&", "*"]

/- A text is one of some words. -/
def isWord
    (words : List String)
    (cs : List Char) : Bool :=
  words.any fun word => word.toList == cs

/- A text without a line feed at its end, if one is left. -/
def withoutFeed (cs : List Char) : List Char :=
  match cs.reverse with
  | '\n' :: c :: rest => (c :: rest).reverse
  | _ => cs

end Plain

/- The tag that the content of a plain scalar shows. -/
def Tag.ofPlain (t : Text) : Tag :=
  match t.chars? with
  | none => .str
  | some all =>
      let cs := Plain.withoutFeed all
      if Plain.isWord Plain.truthWords cs then .bool
      else if Plain.isFloat cs then .float
      else if Plain.isInt cs then .int
      else if cs == ['<', '<'] then .merge
      else if Plain.isWord Plain.nullWords cs then .null
      else if Timestamp.isPlain cs then .timestamp
      else if cs == ['='] then .value
      else if Plain.isWord Plain.signs cs then .unknown
      else .str

end Yaml

end BiomeMigration
