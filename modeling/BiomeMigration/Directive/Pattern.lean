import BiomeMigration.Directive.Rule

/-
  This file defines patterns with greedy repetition and
  backtracking, and the pattern of a directive rule. It is
  the declarative reading of the rules: the scan that cuts
  comments never has to go back.

  Key definitions include:
    * `Directive.Cursor`
    * `Directive.Pattern`
    * `Directive.Pattern.ends`
    * `Directive.Pattern.deleteAll`
    * `Directive.Form.pattern`
-/

namespace BiomeMigration

namespace Directive

------------------------------------------------------------
-- Patterns
------------------------------------------------------------

/- A place in a text: the character before, and the rest. -/
structure Cursor where
  before : Option Char
  rest : List Char
  deriving DecidableEq, Repr

/-
  A pattern. `either` tries its parts in order, `many`
  takes as much as it can and gives back one round at a
  time, `unless` looks ahead and takes nothing, a line
  starts at the start of the text and after a line feed.
-/
inductive Pattern where
  | nothing
  | one (allowed : Char → Bool)
  | both (p q : Pattern)
  | either (p q : Pattern)
  | many (p : Pattern)
  | unless (p : Pattern)
  | lineStart
  | textEnd

/-
  The ends of up to `rounds` rounds of a step, longest run
  first. A round has to take something.
-/
def repeated
    (step : Cursor → List Cursor)
    (rounds : Nat)
    (k : Cursor) : List Cursor :=
  match rounds with
  | 0 => [k]
  | rounds + 1 =>
      let shorter :=
        (step k).filter (·.rest.length < k.rest.length)
      shorter.flatMap (repeated step rounds) ++ [k]

/-
  The places where a match from a place can end, in the
  order in which backtracking finds them.
-/
def Pattern.ends :
    Pattern → Cursor → List Cursor
  | .nothing, k => [k]
  | .one allowed, k =>
      match k.rest with
      | [] => []
      | c :: rest =>
          if allowed c then [⟨some c, rest⟩] else []
  | .both p q, k => (p.ends k).flatMap q.ends
  | .either p q, k => p.ends k ++ q.ends k
  | .many p, k => repeated p.ends k.rest.length k
  | .unless p, k => if (p.ends k).isEmpty then [k] else []
  | .lineStart, k =>
      if k.before.all (· == '\n') then [k] else []
  | .textEnd, k => if k.rest.isEmpty then [k] else []

/-
  Delete every match, leftmost first, and count them. The
  first end that is found counts. `fuel` bounds the number
  of steps; each step takes a character.
-/
def Pattern.deleteFrom
    (p : Pattern)
    (fuel : Nat)
    (k : Cursor) : List Char × Nat :=
  match fuel, k.rest with
  | 0, _ => ([], 0)
  | _, [] => ([], 0)
  | fuel + 1, c :: rest =>
      match p.ends k with
      | next :: _ =>
          let (text, n) := p.deleteFrom fuel next
          (text, n + 1)
      | [] =>
          let (text, n) := p.deleteFrom fuel ⟨some c, rest⟩
          (c :: text, n)

/- Delete every match in a text. -/
def Pattern.deleteAll
    (p : Pattern)
    (cs : List Char) : List Char × Nat :=
  p.deleteFrom cs.length ⟨none, cs⟩

------------------------------------------------------------
-- Patterns of the Rules
------------------------------------------------------------

namespace Pattern

/- Patterns one after the other. -/
def sequence : List Pattern → Pattern
  | [] => .nothing
  | [p] => p
  | p :: ps => .both p (sequence ps)

/- A given text. -/
def literal (cs : List Char) : Pattern :=
  sequence (cs.map fun c => .one (· == c))

/- The end of a block comment. -/
def close : Pattern :=
  literal ['*', '/']

/- Any spaces and tabs. -/
def indent : Pattern :=
  .many (.one isIndent)

/- A line break, or the end of the text. -/
def ending : Pattern :=
  .either (literal ['\r', '\n'])
    (.either (literal ['\n'])
      (.either (literal ['\r']) .textEnd))

end Pattern

open Pattern in
/- The pattern of what follows the word of a form. -/
def Form.bodyPattern : Form → Pattern
  | .block _ =>
      .both
        (.many (.both (.unless close) (.one fun _ => true)))
        close
  | .configuration =>
      sequence
        [.one isBlank, .many (.one isBlank),
          .many (.one (· != '*')), close]
  | .line _ => .many (.one (!isLineEnd ·))

open Pattern in
/- The pattern of the comments of a form. -/
def Form.commentPattern (form : Form) : Pattern :=
  sequence
    [literal form.opener, .many (.one isBlank),
      literal form.word, form.bodyPattern]

open Pattern in
/-
  The pattern of the pieces of a form: the comment with
  its line if it is alone on it, else the comment.
-/
def Form.pattern (form : Form) : Pattern :=
  .either
    (sequence
      [.lineStart, indent, form.commentPattern,
        indent, ending])
    form.commentPattern

end Directive

end BiomeMigration
