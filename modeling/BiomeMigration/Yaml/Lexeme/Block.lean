import BiomeMigration.Yaml.Lexeme.Property

/-
  This file defines the reading of block scalars, whose
  lines are told from the text around them by their
  indentation.

  Key definitions include:
    * `Yaml.Lexeme.Block.Header`
    * `Yaml.Lexeme.Block.header`
    * `Yaml.Lexeme.block`
-/

namespace BiomeMigration

namespace Yaml

namespace Lexeme

namespace Block

------------------------------------------------------------
-- The Header
------------------------------------------------------------

/-
  What happens to the line breaks at the end: all go, the
  first one stays, or all stay.
-/
inductive Chomping where
  | strip
  | clip
  | keep
  deriving DecidableEq, Repr

/- What the line in front of a block scalar says. -/
structure Header where
  chomping : Chomping
  increment? : Option Nat
  deriving DecidableEq, Repr

/- A sign that sets the chomping. -/
def chomping? (cs : List Char) : Option (Chomping × List Char) :=
  match cs with
  | '+' :: rest => some (.keep, rest)
  | '-' :: rest => some (.strip, rest)
  | _ => none

/- A digit that sets the indentation, which is not zero. -/
def increment (cs : List Char) : Except Fault (Found (Option Nat)) :=
  match cs with
  | '0' :: _ => .error .malformed
  | c :: rest =>
      if c.isDigit then
        .ok (some (c.toNat - '0'.toNat), rest)
      else .ok (none, cs)
  | [] => .ok (none, cs)

/- The sign and the digit, in any order. -/
def signs (cs : List Char) : Except Fault (Found Header) := do
  match chomping? cs with
  | some (chomping, rest) =>
      let (increment?, rest) ← increment rest
      return (⟨chomping, increment?⟩, rest)
  | none =>
      let (increment?, rest) ← increment cs
      match increment?.bind fun _ => chomping? rest with
      | some (chomping, rest) =>
          return (⟨chomping, increment?⟩, rest)
      | none => return (⟨.clip, increment?⟩, rest)

/- The header, up to the end of its line. -/
def header (cs : List Char) : Except Fault (Found Header) := do
  let (found, rest) ← signs cs
  if endsField rest then return (found, ← lineEnd rest)
  else throw .malformed

------------------------------------------------------------
-- The Indentation
------------------------------------------------------------

/- The widest run of spaces in front of the first line. -/
def margin
    (column widest : Nat) :
    List Char → Nat
  | [] => widest
  | c :: rest =>
      if c == ' ' then
        margin (column + 1) (max widest (column + 1)) rest
      else if isBreak c then margin 0 widest rest
      else widest

------------------------------------------------------------
-- The Lines
------------------------------------------------------------

/-
  A line that has been read: its break, if it has one, and
  whether it started with a blank.
-/
structure Line where
  ending : List Char
  indented : Bool

/-
  Where the reader is: in a line, or in front of one, at a
  column, with the line before and the empty lines since.
-/
inductive Stage where
  | inside (indented : Bool)
  | between
      (column : Nat)
      (before? : Option Line)
      (empties : List Char)

/-
  What stands between two lines. Folding turns a single
  line feed between two lines without extra indentation
  into a space.
-/
def joint
    (fold : Bool)
    (before? : Option Line)
    (empties : List Char)
    (indented : Bool) : List Char :=
  match before? with
  | none => empties
  | some before =>
      if fold && before.ending == ['\n']
          && !before.indented && !indented then
        if empties.isEmpty then [' '] else empties
      else before.ending ++ empties

/- What stands after the last line. -/
def ending
    (chomping : Chomping)
    (before? : Option Line)
    (empties : List Char) : List Char :=
  let last := (before?.map Line.ending).getD []
  match chomping with
  | .strip => []
  | .clip => last
  | .keep => last ++ empties

/- The content from a stage on, and the rest. -/
def linesFrom
    (fold : Bool)
    (chomping : Chomping)
    (indent : Nat)
    (stage : Stage) :
    List Char → List Char × List Char
  | [] =>
      match stage with
      | .inside _ => ([], [])
      | .between _ before? empties =>
          (ending chomping before? empties, [])
  | c :: rest =>
      let goOn (stage : Stage) : List Char × List Char :=
        linesFrom fold chomping indent stage rest
      match stage with
      | .inside indented =>
          if isBreak c then
            goOn (.between 0 (some ⟨[breakOf c], indented⟩) [])
          else
            let (content, rest) := goOn (.inside indented)
            (c :: content, rest)
      | .between column before? empties =>
          if c == ' ' && column < indent then
            goOn (.between (column + 1) before? empties)
          else if isBreak c then
            goOn (.between 0 before? (empties ++ [breakOf c]))
          else if column == indent then
            let indented := c == ' ' || c == '\t'
            let (content, rest) := goOn (.inside indented)
            (joint fold before? empties indented ++ c :: content,
              rest)
          else (ending chomping before? empties, c :: rest)

end Block

/-
  The content of a block scalar whose sign has been read.
  Without an increment its first line sets its indentation,
  which is deeper than `indent`, that of the text around.
-/
def block
    (fold : Bool)
    (indent : Int)
    (cs : List Char) : Except Fault (Found Text) := do
  let (header, rest) ← Block.header cs
  let least := (max (indent + 1) 1).toNat
  let indent :=
    match header.increment? with
    | some n => least + n - 1
    | none => max least (Block.margin 0 0 rest)
  let (content, rest) :=
    Block.linesFrom fold header.chomping indent
      (.between 0 none []) rest
  return (Text.ofChars content, rest)

end Lexeme

end Yaml

end BiomeMigration
