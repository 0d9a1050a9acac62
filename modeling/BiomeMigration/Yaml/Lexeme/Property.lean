import BiomeMigration.Text.Digit
import BiomeMigration.Text.Run
import BiomeMigration.Yaml.Fault
import BiomeMigration.Yaml.Token

/-
  This file defines the reading of the properties of a
  node, its anchor and its tag, and of the directives in
  front of a document. Each reader takes the text after the
  character that announces it, and gives the rest.

  Key definitions include:
    * `Yaml.Found`
    * `Yaml.Lexeme.label`
    * `Yaml.Lexeme.tag`
    * `Yaml.Lexeme.directive`
-/

namespace BiomeMigration

namespace Yaml

/- What a reader finds, and the rest of the text. -/
abbrev Found (α : Type) := α × List Char

namespace Lexeme

------------------------------------------------------------
-- Names
------------------------------------------------------------

/- A name of at least one character. -/
def name (cs : List Char) : Except Fault (Found (List Char)) :=
  match run isNameChar cs with
  | ([], _) => .error .malformed
  | found => .ok found

/- What may follow the name of an anchor or an alias. -/
def endsLabel : List Char → Bool
  | c :: rest =>
      endsWord (c :: rest) || "?:,]\x7d%@\x60".toList.contains c
  | [] => true

/- The name of an anchor or an alias. -/
def label (cs : List Char) : Except Fault (Found (List Char)) := do
  let (found, rest) ← name cs
  if endsLabel rest then return (found, rest)
  else throw .malformed

------------------------------------------------------------
-- Tags
------------------------------------------------------------

/- The value of a hexadecimal digit. -/
def hexValue? (c : Char) : Option Nat :=
  if c.isDigit then some (c.toNat - '0'.toNat)
  else if 'a' ≤ c && c ≤ 'f' then some (c.toNat - 'a'.toNat + 10)
  else if 'A' ≤ c && c ≤ 'F' then some (c.toNat - 'A'.toNat + 10)
  else none

/- The characters of escaped bytes. -/
def unescape (bytes : Bytes) : Except Fault (List Char) :=
  (Utf8.decode bytes).mapError fun _ => .malformed

/-
  The body of a tag. A percent sign and two hexadecimal
  digits stand for a byte; `bytes` are those of the run of
  escapes that ends here.
-/
def tagBodyFrom
    (bytes : Bytes) :
    List Char → Except Fault (Found (List Char))
  | '%' :: a :: b :: rest =>
      match hexValue? a, hexValue? b with
      | some a, some b =>
          tagBodyFrom
            (bytes ++ [UInt8.ofNat (16 * a + b)])
            rest
      | _, _ => .error .malformed
  | c :: rest => do
      let escaped ← unescape bytes
      if c == '%' then throw .malformed
      else if isTagChar c then
        let (body, rest) ← tagBodyFrom [] rest
        return (escaped ++ c :: body, rest)
      else return (escaped, c :: rest)
  | [] => do return (← unescape bytes, [])

/- The body of a tag, which is not empty. -/
def tagBody (cs : List Char) : Except Fault (Found (List Char)) :=
  match cs with
  | [] => .error .malformed
  | c :: _ =>
      if isTagChar c || c == '%' then tagBodyFrom [] cs
      else .error .malformed

/-
  A handle: an exclamation mark, or a name between two. The
  first one has been read. In front of a space the mark
  stands alone.
-/
def handle (cs : List Char) : Except Fault (Found (List Char)) :=
  match cs with
  | ' ' :: _ => .ok (['!'], cs)
  | _ =>
      match run isNameChar cs with
      | (found, '!' :: rest) =>
          .ok ('!' :: found ++ ['!'], rest)
      | _ => .error .malformed

/-
  Another exclamation mark follows before the end of the
  word; a tab is part of the word here.
-/
def hasHandle (cs : List Char) : Bool :=
  (cs.takeWhile fun c => c != ' ' && !isBreak c).contains '!'

/- A tag, which is a handle, if any, and a body. -/
def tag
    (cs : List Char) :
    Except Fault (Found (Option (List Char) × List Char)) := do
  let (found, rest) ←
    match cs with
    | '<' :: rest =>
        match ← tagBody rest with
        | (body, '>' :: rest) => pure ((none, body), rest)
        | _ => throw .malformed
    | _ =>
        if endsWord cs then pure ((none, ['!']), cs)
        else if hasHandle cs then
          let (handle, rest) ← handle cs
          let (body, rest) ← tagBody rest
          pure ((some handle, body), rest)
        else
          let (body, rest) ← tagBody cs
          pure ((some ['!'], body), rest)
  if endsField rest then return (found, rest)
  else throw .malformed

------------------------------------------------------------
-- Directives
------------------------------------------------------------

/- The text after the spaces that it starts with. -/
def spaces (cs : List Char) : List Char :=
  cs.dropWhile (· == ' ')

/- The text after a comment that it starts with. -/
def comment (cs : List Char) : List Char :=
  match cs with
  | '#' :: _ => cs.dropWhile fun c => !isBreak c
  | _ => cs

/- The end of a line, after spaces and a comment. -/
def lineEnd (cs : List Char) : Except Fault (List Char) :=
  let rest := comment (spaces cs)
  if endsLine rest then .ok (rest.drop 1)
  else .error .malformed

/- A decimal number, which is not too long. -/
def decimal (cs : List Char) : Except Fault (Found Nat) :=
  match run Char.isDigit cs with
  | ([], _) => .error .malformed
  | (digits, rest) =>
      let value :=
        digits.foldl
          (fun n c => 10 * n + (c.toNat - '0'.toNat))
          0
      if Digit.limit < digits.length then
        .error (.longInteger digits.length)
      else .ok (value, rest)

/- The value of a version directive. -/
def version (cs : List Char) : Except Fault (Found Directive) := do
  let (major, rest) ← decimal (spaces cs)
  match rest with
  | '.' :: rest =>
      let (_, rest) ← decimal rest
      if endsField rest then return (.version major, rest)
      else throw .malformed
  | _ => throw .malformed

/- The value of a tag directive. -/
def shorthand (cs : List Char) : Except Fault (Found Directive) := do
  match spaces cs with
  | '!' :: rest =>
      let (handle, rest) ← handle rest
      if rest.head? != some ' ' then throw .malformed
      let (lead, rest) ← tagBody (spaces rest)
      if endsField rest then return (.tag handle lead, rest)
      else throw .malformed
  | _ => throw .malformed

/- A directive, up to the end of its line. -/
def directive (cs : List Char) : Except Fault (Found Directive) := do
  let (word, rest) ← name cs
  if !endsField rest then throw .malformed
  let (found, rest) ←
    if word == "YAML".toList then version rest
    else if word == "TAG".toList then shorthand rest
    else pure (.other, rest.dropWhile fun c => !isBreak c)
  return (found, ← lineEnd rest)

end Lexeme

end Yaml

end BiomeMigration
