import BiomeMigration.Text.CodePoint
import BiomeMigration.Text.Printable

/-
  This file defines the quoted form that messages show a
  path or a word in: between quotes, with an escape for
  each character that would not be seen as itself.

  Key definitions include:
    * `Quoted.ofText`
    * `Quoted.text`
-/

namespace BiomeMigration

namespace Quoted

/- `n` in hexadecimal, in `width` digits. -/
def hex (width n : Nat) : List Char :=
  match width with
  | 0 => []
  | width + 1 =>
      hex width (n / 16) ++ [Nat.digitChar (n % 16)]

/-
  The quote is single, unless the text holds a single quote
  and no double one.
-/
def mark (t : Text) : Char :=
  let single := CodePoint.scalar '\''
  let double := CodePoint.scalar '"'
  if t.contains single && !t.contains double then '"' else '\''

/- The escape of a number that is not shown as it is. -/
def escape (n : Nat) : List Char :=
  if n < 0x100 then '\\' :: 'x' :: hex 2 n
  else if n < 0x10000 then '\\' :: 'u' :: hex 4 n
  else '\\' :: 'U' :: hex 8 n

/- A code point inside quotes. -/
def point
    (quote : Char) :
    CodePoint → List Char
  | .scalar c =>
      if c == quote || c == '\\' then ['\\', c]
      else if c == '\t' then ['\\', 't']
      else if c == '\n' then ['\\', 'n']
      else if c == '\r' then ['\\', 'r']
      else if isPrintable c then [c]
      else escape c.toNat
  | .surrogate i => escape (0xD800 + i.val)

/- The quoted form of a text. -/
def ofText (t : Text) : List Char :=
  let quote := mark t
  quote :: t.flatMap (point quote) ++ [quote]

/- The quoted form of a string. -/
def text (s : String) : String :=
  String.ofList (ofText (Text.ofString s))

end Quoted

end BiomeMigration
