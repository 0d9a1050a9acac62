import BiomeMigration.Yaml.Token

/-
  This file defines a position in YAML text, and the blank
  space and comments that it moves over between tokens.

  Key definitions include:
    * `Yaml.Cursor`
    * `Yaml.Cursor.moveTo`
    * `Yaml.Cursor.gap`
-/

namespace BiomeMigration

namespace Yaml

/-
  A position: the text after it, its offset, its line and
  its column. A byte order mark takes up no column.
-/
structure Cursor where
  rest : List Char
  index : Nat
  line : Nat
  column : Nat

namespace Cursor

/- The start of a text. -/
def ofText (cs : List Char) : Cursor :=
  ⟨cs, 0, 0, 0⟩

/- Move over a character. -/
def step
    (at_ : Cursor)
    (c : Char) : Cursor :=
  let next := { at_ with rest := at_.rest.drop 1, index := at_.index + 1 }
  if isBreak c then { next with line := at_.line + 1, column := 0 }
  else if c.toNat == 0xFEFF then next
  else { next with column := at_.column + 1 }

/- Move on to where only a given end of the text is left. -/
def moveTo
    (at_ : Cursor)
    (rest : List Char) : Cursor :=
  (at_.rest.take (at_.rest.length - rest.length)).foldl step at_

/- Move over some characters. -/
def skip
    (at_ : Cursor)
    (count : Nat) : Cursor :=
  at_.moveTo (at_.rest.drop count)

/-
  The text after spaces, comments and line breaks, and
  whether there was a line break.
-/
def gapFrom
    (broken inComment : Bool) :
    List Char → Bool × List Char
  | [] => (broken, [])
  | c :: rest =>
      if isBreak c then gapFrom true false rest
      else if inComment || c == '#' then gapFrom broken true rest
      else if c == ' ' then gapFrom broken false rest
      else (broken, c :: rest)

/-
  Move on to the next token. A byte order mark is passed
  over at the start of the text.
-/
def gap (at_ : Cursor) : Bool × Cursor :=
  let start :=
    match at_.index, at_.rest with
    | 0, c :: rest => if c.toNat == 0xFEFF then rest else c :: rest
    | _, cs => cs
  let (broken, rest) := gapFrom false false start
  (broken, at_.moveTo rest)

end Cursor

end Yaml

end BiomeMigration
