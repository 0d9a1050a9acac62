/-
  This file defines the blank characters, the trimming of
  a text on both sides, and the folding of ASCII letters
  that yes/no words are compared under.

  Key definitions include:
    * `isBlank`
    * `Blank.trim`
    * `Blank.lower`
-/

namespace BiomeMigration

------------------------------------------------------------
-- Blank Characters
------------------------------------------------------------

/-
  The blank characters: the ASCII and Latin-1 spaces and
  controls that separate words, and the Unicode spaces and
  separators. The zero-width space, the word joiner and
  the byte order mark are not blank.
-/
def isBlank (c : Char) : Bool :=
  let n := c.toNat
  (0x09 ≤ n && n ≤ 0x0D)
    || (0x1C ≤ n && n ≤ 0x20)
    || n == 0x85
    || n == 0xA0
    || n == 0x1680
    || (0x2000 ≤ n && n ≤ 0x200A)
    || n == 0x2028
    || n == 0x2029
    || n == 0x202F
    || n == 0x205F
    || n == 0x3000

/- Indentation: spaces and tabs. -/
def isIndent (c : Char) : Bool :=
  c == ' ' || c == '\t'

------------------------------------------------------------
-- Trimming and Letter Case
------------------------------------------------------------

namespace Blank

/- A text without the blanks at its two ends. -/
def trim (cs : List Char) : List Char :=
  ((cs.dropWhile isBlank).reverse.dropWhile isBlank).reverse

/-
  ASCII capitals become small letters, all else stays. The
  words that answers are compared with are ASCII, and no
  other character has an ASCII letter of them as its small
  form.
-/
def lower (cs : List Char) : List Char :=
  cs.map Char.toLower

end Blank

end BiomeMigration
