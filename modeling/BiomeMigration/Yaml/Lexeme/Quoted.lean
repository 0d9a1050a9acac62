import BiomeMigration.Yaml.Lexeme.Property

/-
  This file defines the reading of quoted scalars. The
  reader takes one character at a time; a step gives the
  content that is settled by it and what may come next.

  Key definitions include:
    * `Yaml.Lexeme.Quote`
    * `Yaml.Lexeme.Quote.Stage`
    * `Yaml.Lexeme.quoted`
-/

namespace BiomeMigration

namespace Yaml

namespace Lexeme

/- The kind of quotes around a scalar. -/
inductive Quote where
  | single
  | double
  deriving DecidableEq, Repr

namespace Quote

------------------------------------------------------------
-- Stages
------------------------------------------------------------

/-
  Where the reader is. `blanks` holds blanks that a line
  break would drop. `breaks` follows line breaks: the first
  one, unless it was escaped, and those after it. `quote`
  follows a single quote, which is content if another one
  comes next. `digits` waits for digits of an escape.
-/
inductive Stage where
  | text
  | blanks (pending : List Char)
  | breaks (first : Option Char) (others : List Char)
  | quote
  | escape
  | digits (left value : Nat)
  deriving DecidableEq, Repr

/- What a character does: go on, or end the scalar. -/
inductive Turn where
  | goOn (stage : Stage)
  | endAfter
  | endBefore
  deriving DecidableEq, Repr

/- The character that an escape of one letter stands for. -/
def shortEscape? : Char → Option Char
  | '0' => some '\x00'
  | 'a' => some '\x07'
  | 'b' => some '\x08'
  | 't' => some '\t'
  | '\t' => some '\t'
  | 'n' => some '\n'
  | 'v' => some '\x0b'
  | 'f' => some '\x0c'
  | 'r' => some '\r'
  | 'e' => some '\x1b'
  | ' ' => some ' '
  | '"' => some '"'
  | '\\' => some '\\'
  | '/' => some '/'
  | 'N' => some (Char.ofNat 0x85)
  | '_' => some (Char.ofNat 0xA0)
  | 'L' => some (Char.ofNat 0x2028)
  | 'P' => some (Char.ofNat 0x2029)
  | _ => none

/- The number of digits of a numbered escape. -/
def escapeDigits? : Char → Option Nat
  | 'x' => some 2
  | 'u' => some 4
  | 'U' => some 8
  | _ => none

/-
  Line breaks inside a scalar: a single line feed becomes a
  space, and is dropped in front of other breaks.
-/
def folded : Option Char → List Char → List Char
  | some '\n', [] => [' ']
  | some '\n', others => others
  | some c, others => c :: others
  | none, others => others

/-
  After a line break; the line after it must not start a
  document or end one.
-/
def afterBreak
    (first : Option Char)
    (others rest : List Char) : Except Fault Turn :=
  if atMarker rest then .error .malformed
  else .ok (.goOn (.breaks first others))

------------------------------------------------------------
-- Steps
------------------------------------------------------------

/- A character of the text, with the rest after it. -/
def textStep
    (q : Quote)
    (c : Char)
    (rest : List Char) : Except Fault (Text × Turn) :=
  if c == ' ' || c == '\t' then
    .ok ([], .goOn (.blanks [c]))
  else if isBreak c then
    (afterBreak (some (breakOf c)) [] rest).map ([], ·)
  else if q == .single && c == '\'' then
    .ok ([], .goOn .quote)
  else if q == .double && c == '"' then .ok ([], .endAfter)
  else if q == .double && c == '\\' then
    .ok ([], .goOn .escape)
  else .ok ([.scalar c], .goOn .text)

/- The character after a backslash. -/
def escapeStep
    (c : Char)
    (rest : List Char) : Except Fault (Text × Turn) :=
  match shortEscape? c, escapeDigits? c with
  | some c, _ => .ok ([.scalar c], .goOn .text)
  | none, some count => .ok ([], .goOn (.digits count 0))
  | none, none =>
      if isBreak c then
        (afterBreak none [] rest).map ([], ·)
      else .error .malformed

/- A digit of a numbered escape. -/
def digitStep
    (left value : Nat)
    (c : Char) : Except Fault (Text × Turn) :=
  match hexValue? c with
  | none => .error .malformed
  | some digit =>
      let value := 16 * value + digit
      if left ≤ 1 then
        if value < 0x110000 then
          .ok ([CodePoint.ofNat value], .goOn .text)
        else .error (.codePoint value)
      else .ok ([], .goOn (.digits (left - 1) value))

/- A character at any stage, with the rest after it. -/
def step
    (q : Quote)
    (stage : Stage)
    (c : Char)
    (rest : List Char) : Except Fault (Text × Turn) :=
  match stage with
  | .text => q.textStep c rest
  | .blanks pending =>
      if c == ' ' || c == '\t' then
        .ok ([], .goOn (.blanks (pending ++ [c])))
      else if isBreak c then q.textStep c rest
      else do
        let (t, turn) ← q.textStep c rest
        return (Text.ofChars pending ++ t, turn)
  | .breaks first others =>
      if c == ' ' || c == '\t' then
        .ok ([], .goOn (.breaks first others))
      else if isBreak c then
        (afterBreak first (others ++ [breakOf c]) rest).map
          ([], ·)
      else do
        let (t, turn) ← q.textStep c rest
        return (Text.ofChars (folded first others) ++ t, turn)
  | .quote =>
      if c == '\'' then .ok ([.scalar c], .goOn .text)
      else .ok ([], .endBefore)
  | .escape => escapeStep c rest
  | .digits left value => digitStep left value c

end Quote

/- The content of a quoted scalar from a stage on. -/
def quotedFrom
    (q : Quote)
    (stage : Quote.Stage) :
    List Char → Except Fault (Found Text)
  | [] =>
      if stage = .quote then .ok ([], [])
      else .error .malformed
  | c :: rest => do
      let (t, turn) ← q.step stage c rest
      match turn with
      | .endAfter => return (t, rest)
      | .endBefore => return (t, c :: rest)
      | .goOn stage =>
          let (more, rest) ← quotedFrom q stage rest
          return (t ++ more, rest)

/- The content of a scalar whose first quote has been read. -/
def quoted
    (q : Quote)
    (cs : List Char) : Except Fault (Found Text) :=
  quotedFrom q .text cs

end Lexeme

end Yaml

end BiomeMigration
