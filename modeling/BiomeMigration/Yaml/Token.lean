import BiomeMigration.Text.CodePoint

/-
  This file defines the tokens of YAML text, and the
  classes of characters that tokens are made of. Text has
  line feeds in place of carriage returns.

  Key definitions include:
    * `Yaml.isBreak`
    * `Yaml.endsWord`
    * `Yaml.Directive`
    * `Yaml.Token`
-/

namespace BiomeMigration

namespace Yaml

------------------------------------------------------------
-- Classes of Characters
------------------------------------------------------------

/- A character ends a line. -/
def isBreak (c : Char) : Bool :=
  let n := c.toNat
  c == '\n' || n == 0x85 || n == 0x2028 || n == 0x2029

/- A line break as content; the next line becomes a feed. -/
def breakOf (c : Char) : Char :=
  if c.toNat == 0x85 then '\n' else c

/- A space, a tab, a line break or the end of the text. -/
def endsWord : List Char → Bool
  | [] => true
  | c :: _ => c == ' ' || c == '\t' || isBreak c

/- A space, a line break or the end of the text. -/
def endsField : List Char → Bool
  | [] => true
  | c :: _ => c == ' ' || isBreak c

/- A line break or the end of the text. -/
def endsLine : List Char → Bool
  | [] => true
  | c :: _ => isBreak c

/- An ASCII letter or digit, a hyphen or an underscore. -/
def isNameChar (c : Char) : Bool :=
  c.isAlphanum || c == '-' || c == '_'

/- A character of a tag that stands for itself. -/
def isTagChar (c : Char) : Bool :=
  c.isAlphanum || "-;/?:@&=+$,_.!~*'()[]".toList.contains c

/-
  A character that may occur in the text: no control but
  tab, line feed and next line, and no noncharacter at the
  end of the first plane.
-/
def isAllowed (c : Char) : Bool :=
  let n := c.toNat
  n == 0x09 || n == 0x0A || n == 0x0D
    || (0x20 ≤ n && n ≤ 0x7E)
    || n == 0x85
    || (0xA0 ≤ n && n != 0xFFFE && n != 0xFFFF)

/- The line of a document marker starts here. -/
def atMarker : List Char → Bool
  | '-' :: '-' :: '-' :: rest => endsWord rest
  | '.' :: '.' :: '.' :: rest => endsWord rest
  | _ => false

------------------------------------------------------------
-- Tokens
------------------------------------------------------------

/- A directive in front of a document. -/
inductive Directive where
  | version (major : Nat)
  | tag (handle lead : List Char)
  | other
  deriving DecidableEq, Repr

/- A token. -/
inductive Token where
  | directive (d : Directive)
  | documentStart
  | documentEnd
  | streamEnd
  | blockSequence
  | blockMapping
  | blockEnd
  | openSequence
  | closeSequence
  | openMapping
  | closeMapping
  | entry
  | comma
  | key
  | value
  | alias (label : List Char)
  | anchor (label : List Char)
  | tag (handle : Option (List Char)) (ending : List Char)
  | scalar (plain : Bool) (content : Text)
  deriving DecidableEq, Repr

end Yaml

end BiomeMigration
