import BiomeMigration.Json.Basic
import BiomeMigration.Decimal.NumberFormat

/-
  This file defines the writing of JSON text: one member or
  item a line, two spaces for each level, and a choice
  between plain and ASCII text.

  Key definitions include:
    * `Json.Charset`
    * `Json.quote`
    * `Json.print`
-/

namespace BiomeMigration

namespace Json

------------------------------------------------------------
-- Scalars
------------------------------------------------------------

/-
  The characters a text may hold unescaped: all but the
  ASCII controls, or the printable ASCII characters only.
  The quote and the backslash are escaped in both.
-/
inductive Charset where
  | plain
  | ascii
  deriving DecidableEq, Repr

/- The words for values without digits are not standard JSON. -/
def numberFormat : NumberFormat :=
  { NumberFormat.usual with nan := "NaN", infinity := "Infinity" }

/- The escape of a code unit. -/
def unitEscape (n : Nat) : List Char :=
  '\\' :: 'u' :: (Text.hex4 n).toList

/- The escape of a code point, as one or two code units. -/
def pointEscape (p : CodePoint) : List Char :=
  let n := p.toNat
  if n < 0x10000 then unitEscape n
  else
    let offset := n - 0x10000
    unitEscape (0xD800 + offset / 0x400)
      ++ unitEscape (0xDC00 + offset % 0x400)

/- The escapes of one letter. -/
def shortEscapeOf? : Char → Option Char
  | '"' => some '"'
  | '\\' => some '\\'
  | '\n' => some 'n'
  | '\r' => some 'r'
  | '\t' => some 't'
  | '\x0c' => some 'f'
  | '\x08' => some 'b'
  | _ => none

/- A code point needs no escape. -/
def Charset.allows
    (charset : Charset)
    (p : CodePoint) : Bool :=
  match charset with
  | .plain => 0x20 ≤ p.toNat
  | .ascii => 0x20 ≤ p.toNat && p.toNat < 0x7F

/- A code point inside quotes. -/
def quotePoint
    (charset : Charset)
    (p : CodePoint) : Text :=
  match p.char?.bind shortEscapeOf? with
  | some letter => Text.ofChars ['\\', letter]
  | none =>
      if charset.allows p then [p]
      else Text.ofChars (pointEscape p)

/- A text inside quotes. -/
def quote
    (charset : Charset)
    (t : Text) : Text :=
  .scalar '"' :: t.flatMap (quotePoint charset)
    ++ [.scalar '"']

------------------------------------------------------------
-- Values
------------------------------------------------------------

/- A new line, indented to a level. -/
def newline (level : Nat) : Text :=
  .scalar '\n' :: List.replicate (2 * level) (.scalar ' ')

mutual

/- A value at a level of nesting. -/
def printAt
    (charset : Charset)
    (level : Nat) :
    Json → Text
  | .null => Text.ofString "null"
  | .bool true => Text.ofString "true"
  | .bool false => Text.ofString "false"
  | .int n => Text.ofString (toString n)
  | .number x => Text.ofString (numberFormat.write x)
  | .string t => quote charset t
  | .array [] => Text.ofString "[]"
  | .array (v :: items) =>
      .scalar '[' :: newline (level + 1)
        ++ printAt charset (level + 1) v
        ++ printItems charset (level + 1) items
        ++ newline level ++ [.scalar ']']
  | .object [] => Text.ofString "\x7b\x7d"
  | .object ((key, v) :: members) =>
      .scalar '{' :: newline (level + 1)
        ++ quote charset key ++ Text.ofString ": "
        ++ printAt charset (level + 1) v
        ++ printMembers charset (level + 1) members
        ++ newline level ++ [.scalar '}']

/- The items after the first, each after a comma. -/
def printItems
    (charset : Charset)
    (level : Nat) :
    List Json → Text
  | [] => []
  | v :: items =>
      .scalar ',' :: newline level
        ++ printAt charset level v
        ++ printItems charset level items

/- The members after the first, each after a comma. -/
def printMembers
    (charset : Charset)
    (level : Nat) :
    List (Text × Json) → Text
  | [] => []
  | (key, v) :: members =>
      .scalar ',' :: newline level
        ++ quote charset key ++ Text.ofString ": "
        ++ printAt charset level v
        ++ printMembers charset level members

end

/- The text of a value. -/
def print
    (charset : Charset)
    (v : Json) : Text :=
  printAt charset 0 v

end Json

end BiomeMigration
