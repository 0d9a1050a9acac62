import BiomeMigration.Yaml.Cursor
import BiomeMigration.Yaml.Lexeme.Block
import BiomeMigration.Yaml.Lexeme.Plain
import BiomeMigration.Yaml.Lexeme.Quoted

/-
  This file defines how YAML text is cut into tokens. Blocks
  open and close by indentation, and a key that is only
  known by the colon after it gets its token in front when
  the colon is read.

  Key definitions include:
    * `Yaml.Candidate`
    * `Yaml.Layout`
    * `Yaml.Layout.next`
    * `Yaml.Tokens`
    * `Yaml.tokens`
-/

namespace BiomeMigration

namespace Yaml

/-
  A token that is a key if a colon follows it: its number,
  where it starts, and whether it must be a key.
-/
structure Candidate where
  number : Nat
  required : Bool
  index : Nat
  line : Nat
  column : Nat

/-
  The state between two tokens: the position, the column of
  the innermost block and those of the blocks around it,
  the number of open brackets, whether a key may start
  here, the candidate of each level of brackets, and the
  tokens so far.
-/
structure Layout where
  cursor : Cursor
  indent : Int
  outer : List Int
  depth : Nat
  keyAllowed : Bool
  candidates : List (Nat × Candidate)
  tokens : List Token

namespace Layout

/- The start of a text. -/
def ofText (cs : List Char) : Layout where
  cursor := .ofText cs
  indent := -1
  outer := []
  depth := 0
  keyAllowed := true
  candidates := []
  tokens := []

/- Brackets are open. -/
def inFlow (l : Layout) : Bool :=
  0 < l.depth

/- Add a token. -/
def push
    (l : Layout)
    (token : Token) : Layout :=
  { l with tokens := l.tokens ++ [token] }

/- Put a token in front of the token of a number. -/
def insert
    (l : Layout)
    (number : Nat)
    (token : Token) : Layout :=
  { l with
    tokens :=
      l.tokens.take number ++ token :: l.tokens.drop number }

/- Move over some characters. -/
def skip
    (l : Layout)
    (count : Nat) : Layout :=
  { l with cursor := l.cursor.skip count }

/- Say whether a key may start. -/
def allowKey
    (l : Layout)
    (allowed : Bool) : Layout :=
  { l with keyAllowed := allowed }

------------------------------------------------------------
-- Candidates
------------------------------------------------------------

/- A candidate ends with its line, and after 1024 characters. -/
def isStale
    (l : Layout)
    (c : Candidate) : Bool :=
  c.line != l.cursor.line || 1024 < l.cursor.index - c.index

/- Drop the candidates that cannot be keys any more. -/
def dropStale (l : Layout) : Except Fault Layout :=
  let stale := l.candidates.filter fun (_, c) => l.isStale c
  if stale.any fun (_, c) => c.required then .error .malformed
  else
    .ok
      { l with
        candidates :=
          l.candidates.filter fun (_, c) => !l.isStale c }

/- The candidate inside the innermost brackets. -/
def candidate? (l : Layout) : Option Candidate :=
  l.candidates.lookup l.depth

/- Forget the candidate inside the innermost brackets. -/
def forget (l : Layout) : Layout :=
  { l with
    candidates := l.candidates.filter fun (d, _) => d != l.depth }

/- The candidate turns out to be no key. -/
def dropCandidate (l : Layout) : Except Fault Layout :=
  if l.candidate?.any Candidate.required then .error .malformed
  else .ok l.forget

/- The next token is a candidate, if a key may start here. -/
def noteCandidate (l : Layout) : Except Fault Layout := do
  if !l.keyAllowed then return l
  let l ← l.dropCandidate
  let here : Candidate :=
    { number := l.tokens.length
      required := !l.inFlow && l.indent == l.cursor.column
      index := l.cursor.index
      line := l.cursor.line
      column := l.cursor.column }
  return { l with candidates := (l.depth, here) :: l.candidates }

------------------------------------------------------------
-- Indentation
------------------------------------------------------------

/- Close the blocks deeper than a column. -/
def closeTo
    (column : Int)
    (indent : Int) :
    List Int → List Token → Int × List Int × List Token
  | [], tokens => (indent, [], tokens)
  | above :: outer, tokens =>
      if column < indent then
        closeTo column above outer (tokens ++ [.blockEnd])
      else (indent, above :: outer, tokens)

/- Close the blocks deeper than a column, outside brackets. -/
def unwind
    (l : Layout)
    (column : Int) : Layout :=
  if l.inFlow then l
  else
    let (indent, outer, tokens) :=
      closeTo column l.indent l.outer l.tokens
    { l with indent := indent, outer := outer, tokens := tokens }

/- A block opens at a column. -/
def opens
    (l : Layout)
    (column : Nat) : Bool :=
  !l.inFlow && l.indent < column

/- The column of the innermost block becomes a given one. -/
def indentTo
    (l : Layout)
    (column : Nat) : Layout :=
  { l with indent := column, outer := l.indent :: l.outer }

/- Open a block here, unless one is open. -/
def openBlock
    (l : Layout)
    (token : Token) : Layout :=
  if l.opens l.cursor.column then
    (l.indentTo l.cursor.column).push token
  else l

------------------------------------------------------------
-- Kinds of Token
------------------------------------------------------------

/- The end of the text. -/
def finish (l : Layout) : Except Fault Layout := do
  let l ← (l.unwind (-1)).dropCandidate
  return { l.push .streamEnd with candidates := [] }

/- A directive. -/
def directive (l : Layout) : Except Fault Layout := do
  let l ← (l.unwind (-1)).dropCandidate
  let (d, rest) ← Lexeme.directive (l.cursor.rest.drop 1)
  return { (l.allowKey false).push (.directive d) with
    cursor := l.cursor.moveTo rest }

/- A marker of the start or the end of a document. -/
def marker
    (l : Layout)
    (token : Token) : Except Fault Layout := do
  let l ← (l.unwind (-1)).dropCandidate
  return ((l.allowKey false).push token).skip 3

/- An opening bracket. -/
def openBracket
    (l : Layout)
    (token : Token) : Except Fault Layout := do
  let l ← l.noteCandidate
  let inside := { l with depth := l.depth + 1 }
  return ((inside.allowKey true).push token).skip 1

/- A closing bracket. -/
def closeBracket
    (l : Layout)
    (token : Token) : Except Fault Layout := do
  let l ← l.dropCandidate
  let outside := { l with depth := l.depth - 1 }
  return ((outside.allowKey false).push token).skip 1

/- A comma between brackets. -/
def comma (l : Layout) : Except Fault Layout := do
  let l ← (l.allowKey true).dropCandidate
  return (l.push .comma).skip 1

/- The sign of an entry, or of a key, outside brackets. -/
def sign
    (l : Layout)
    (block token : Token)
    (keyAllowed : Bool) : Except Fault Layout := do
  if !l.inFlow && !l.keyAllowed then throw .malformed
  let l ← ((l.openBlock block).allowKey keyAllowed).dropCandidate
  return (l.push token).skip 1

/- A colon after a candidate. -/
def valueOf
    (l : Layout)
    (c : Candidate) : Layout :=
  let l := l.forget.insert c.number .key
  let l :=
    if l.opens c.column then
      (l.indentTo c.column).insert c.number .blockMapping
    else l
  ((l.allowKey false).push .value).skip 1

/- A colon. -/
def value (l : Layout) : Except Fault Layout :=
  match l.candidate? with
  | some c => .ok (l.valueOf c)
  | none => l.sign .blockMapping .value (!l.inFlow)

/- A token that may be a key, or the property of one. -/
def part
    (l : Layout)
    (found : Except Fault (Found Token)) :
    Except Fault Layout := do
  let l ← l.noteCandidate
  let (token, rest) ← found
  return { (l.allowKey false).push token with
    cursor := l.cursor.moveTo rest }

/- A plain scalar. -/
def plain (l : Layout) : Except Fault Layout := do
  let found := Lexeme.plain l.inFlow (l.indent + 1) l.cursor.rest
  let l ← l.part
    (.ok (.scalar true (Text.ofChars found.content), found.rest))
  return l.allowKey found.atLineStart

/- A block scalar. -/
def block
    (l : Layout)
    (fold : Bool) : Except Fault Layout := do
  let l ← (l.allowKey true).dropCandidate
  let (t, rest) ←
    Lexeme.block fold l.indent (l.cursor.rest.drop 1)
  return { l.push (.scalar false t) with
    cursor := l.cursor.moveTo rest }

/- What a reader finds, as a token. -/
def found
    {α : Type}
    (token : α → Token)
    (read : Except Fault (Found α)) :
    Except Fault (Found Token) :=
  read.map fun (a, rest) => (token a, rest)

/- The token that starts with a character. -/
def tokenAt
    (l : Layout)
    (c : Char)
    (rest : List Char) : Except Fault Layout :=
  let atMargin := l.cursor.column == 0
  let isSign := l.inFlow || endsWord rest
  if c == '%' && atMargin then l.directive
  else if atMargin && atMarker (c :: rest) then
    l.marker (if c == '-' then .documentStart else .documentEnd)
  else if c == '[' then l.openBracket .openSequence
  else if c == '{' then l.openBracket .openMapping
  else if c == ']' then l.closeBracket .closeSequence
  else if c == '}' then l.closeBracket .closeMapping
  else if c == ',' then l.comma
  else if c == '-' && endsWord rest then
    l.sign .blockSequence .entry true
  else if c == '?' && isSign then
    l.sign .blockMapping .key (!l.inFlow)
  else if c == ':' && isSign then l.value
  else if c == '*' then
    l.part (found .alias (Lexeme.label rest))
  else if c == '&' then
    l.part (found .anchor (Lexeme.label rest))
  else if c == '!' then
    l.part (found (fun (h, e) => .tag h e) (Lexeme.tag rest))
  else if c == '|' && !l.inFlow then l.block false
  else if c == '>' && !l.inFlow then l.block true
  else if c == '\'' then
    l.part (found (.scalar false) (Lexeme.quoted .single rest))
  else if c == '"' then
    l.part (found (.scalar false) (Lexeme.quoted .double rest))
  else if Lexeme.startsPlain l.inFlow (c :: rest) then l.plain
  else .error .malformed

/- The next token, or the end. -/
def next (l : Layout) : Except Fault Layout := do
  let (broken, cursor) := l.cursor.gap
  let l := { l with cursor := cursor }
  let l := if broken && !l.inFlow then l.allowKey true else l
  let l ← l.dropStale
  let l := l.unwind cursor.column
  match cursor.rest with
  | [] => l.finish
  | c :: rest => l.tokenAt c rest

end Layout

------------------------------------------------------------
-- All Tokens
------------------------------------------------------------

/-
  The tokens of a text. A fault in the text comes after the
  tokens that can be read without it.
-/
structure Tokens where
  list : List Token
  fault? : Option Fault

/-
  The tokens that are settled before the next one is read:
  those in front of the first candidate.
-/
def Layout.settled (l : Layout) : List Token :=
  match (l.candidates.map fun (_, c) => c.number).min? with
  | some number => l.tokens.take number
  | none => l.tokens

/- Read up to `count` tokens. -/
def tokensFrom
    (l : Layout) :
    Nat → Tokens
  | 0 => ⟨l.tokens, none⟩
  | count + 1 =>
      match l.dropStale with
      | .error fault => ⟨l.settled, some fault⟩
      | .ok l =>
          match l.next with
          | .error fault => ⟨l.settled, some fault⟩
          | .ok l =>
              if l.tokens.getLast? == some .streamEnd then
                ⟨l.tokens, none⟩
              else tokensFrom l count

/-
  The tokens of a text. Each but the last takes at least
  one character.
-/
def tokens (cs : List Char) : Tokens :=
  if cs.all isAllowed then
    tokensFrom (.ofText cs) (cs.length + 1)
  else ⟨[], some .malformed⟩

end Yaml

end BiomeMigration
