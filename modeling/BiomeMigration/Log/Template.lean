import BiomeMigration.Text.CodePoint

/-
  This file defines the templates of messages: text with
  placeholders that start with a percent sign, each with
  flags, a width, a precision and a letter that says how an
  argument is written.

  Key definitions include:
    * `Template.Size`
    * `Template.Placeholder`
    * `Template.Piece`
    * `Template.pieces?`
-/

namespace BiomeMigration

namespace Template

------------------------------------------------------------
-- Placeholders
------------------------------------------------------------

/- A width or a precision: a number, or an argument. -/
inductive Size where
  | number (n : Nat)
  | argument
  deriving DecidableEq, Repr

/-
  A placeholder: the name of its argument, if it has one,
  its flags, its sizes, and its letter. The flags ask for
  the left side, for a sign of positive numbers, for a blank
  in its place, for the other form, and for leading zeros.
-/
structure Placeholder where
  name? : Option Text
  left : Bool
  plus : Bool
  blank : Bool
  other : Bool
  zeros : Bool
  width? : Option Size
  precision? : Option Size
  letter : Char
  deriving DecidableEq, Repr

/- A piece of a template. -/
inductive Piece where
  | literal (c : CodePoint)
  | placeholder (p : Placeholder)
  deriving DecidableEq, Repr

namespace Placeholder

/- A placeholder of which only the percent sign is read. -/
def initial : Placeholder where
  name? := none
  left := false
  plus := false
  blank := false
  other := false
  zeros := false
  width? := none
  precision? := none
  letter := '%'

/- The placeholder with a flag, if the character is one. -/
def flag?
    (p : Placeholder) :
    Char → Option Placeholder
  | '-' => some { p with left := true }
  | '+' => some { p with plus := true }
  | ' ' => some { p with blank := true }
  | '#' => some { p with other := true }
  | '0' => some { p with zeros := true }
  | _ => none

end Placeholder

------------------------------------------------------------
-- Reading
------------------------------------------------------------

/-
  Where a reading stands: outside of placeholders, inside a
  name with so many brackets open, or inside a placeholder,
  by what may come next.
-/
inductive Stage where
  | outside
  | name (depth : Nat) (read : Text)
  | start
  | flags
  | width
  | afterWidth
  | precisionStart
  | precision
  | afterPrecision
  | letter
  deriving DecidableEq, Repr

/- A size with one more digit. -/
def Size.add (size? : Option Size) (c : Char) : Size :=
  let digit := c.toNat - '0'.toNat
  match size? with
  | some (.number n) => .number (10 * n + digit)
  | _ => .number digit

/- A character that tells the size of a number. -/
def isModifier (c : Char) : Bool :=
  c == 'h' || c == 'l' || c == 'L'

/-
  Read one character of a placeholder: the stage after it,
  unless it is the letter that ends the placeholder.
-/
def next?
    (stage : Stage)
    (p : Placeholder)
    (c : Char) : Option (Stage × Placeholder) :=
  let flags := stage == .start || stage == .flags
  let point := flags || stage == .width || stage == .afterWidth
  match if flags then p.flag? c else none with
  | some p => some (.flags, p)
  | none =>
      if stage == .start && c == '(' then some (.name 1 [], p)
      else if flags && c == '*' then
        some (.afterWidth, { p with width? := some .argument })
      else if (flags || stage == .width) && c.isDigit then
        some (.width, { p with width? := some (.add p.width? c) })
      else if point && c == '.' then
        some
          (.precisionStart, { p with precision? := some (.number 0) })
      else if stage == .precisionStart && c == '*' then
        some
          (.afterPrecision, { p with precision? := some .argument })
      else if (stage == .precisionStart || stage == .precision)
          && c.isDigit then
        some
          (.precision,
            { p with precision? := some (.add p.precision? c) })
      else if stage != .letter && isModifier c then
        some (.letter, p)
      else none

/-
  The pieces of a template from a stage of the reading on.
  A placeholder has to end. Two percent signs stand for one.
-/
def scan
    (stage : Stage)
    (p : Placeholder) :
    Text → Option (List Piece)
  | [] => if stage == .outside then some [] else none
  | c :: rest =>
      match stage with
      | .outside =>
          if c == .scalar '%' then scan .start .initial rest
          else (scan .outside p rest).map (.literal c :: ·)
      | .name depth read =>
          if c == .scalar ')' && depth == 1 then
            scan .flags { p with name? := some read.reverse } rest
          else
            let depth :=
              if c == .scalar '(' then depth + 1
              else if c == .scalar ')' then depth - 1
              else depth
            scan (.name depth (c :: read)) p rest
      | _ => do
          let letter ← c.char?
          match next? stage p letter with
          | some (stage, p) => scan stage p rest
          | none =>
              let piece : Piece :=
                if stage == .start && letter == '%' then .literal c
                else .placeholder { p with letter := letter }
              (scan .outside p rest).map (piece :: ·)

/- The pieces of a template. -/
def pieces? (t : Text) : Option (List Piece) :=
  scan .outside .initial t

end Template

end BiomeMigration
