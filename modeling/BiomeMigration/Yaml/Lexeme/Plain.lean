import BiomeMigration.Yaml.Lexeme.Property

/-
  This file defines the reading of plain scalars, which
  have no quotes and end where something else must start.

  Key definitions include:
    * `Yaml.Lexeme.startsPlain`
    * `Yaml.Lexeme.Plain`
    * `Yaml.Lexeme.plain`
-/

namespace BiomeMigration

namespace Yaml

namespace Lexeme

/- The characters that start another kind of token. -/
def indicators : List Char :=
  "-?:,[]\x7b\x7d#&*!|>'\"%@\x60".toList

/-
  A plain scalar starts here: with a character that starts
  no other token, or with one of `-`, `?` and `:` in front
  of more of a word. Inside brackets only `-` may do so.
-/
def startsPlain
    (inFlow : Bool) :
    List Char → Bool
  | [] => false
  | c :: rest =>
      if endsWord [c] then false
      else if indicators.contains c then
        !endsWord rest
          && (c == '-' || (!inFlow && (c == '?' || c == ':')))
      else true

/-
  The scalar ends before this character: a tab or a line
  break, a colon that ends a key, or, inside brackets, a
  character that has a meaning there.
-/
def endsPlain
    (inFlow : Bool)
    (c : Char)
    (rest : List Char) : Bool :=
  let closes (cs : List Char) : Bool :=
    match cs with
    | [] => false
    | d :: _ => ",[]\x7b\x7d".toList.contains d
  c == '\t' || isBreak c
    || (c == ':' && (endsWord rest || (inFlow && closes rest)))
    || (inFlow && ",?[]\x7b\x7d".toList.contains c)

/-
  A plain scalar that has been read. `atLineStart` says
  that line breaks were read after its last character.
-/
structure Plain where
  content : List Char
  atLineStart : Bool
  rest : List Char

/-
  Where the reader is: in a word, after spaces that are
  content if a word follows, or after line breaks, the
  first one and the others, with spaces up to a column.
-/
inductive PlainStage where
  | word
  | spaces (pending : List Char)
  | breaks (first : Char) (others : List Char) (column : Nat)

/- Line breaks between two words. -/
def foldedBreaks
    (first : Char)
    (others : List Char) : List Char :=
  if first != '\n' then first :: others
  else if others.isEmpty then [' ']
  else others

/-
  A plain scalar from a stage on. `indent` is the least
  column at which it may go on, outside of brackets.
-/
def plainFrom
    (inFlow : Bool)
    (indent : Int)
    (stage : PlainStage) :
    List Char → Plain
  | [] =>
      match stage with
      | .breaks _ _ _ => ⟨[], true, []⟩
      | _ => ⟨[], false, []⟩
  | c :: rest =>
      let goOn (stage : PlainStage) : Plain :=
        plainFrom inFlow indent stage rest
      let word (lead : List Char) : Plain :=
        let found := goOn .word
        { found with content := lead ++ c :: found.content }
      let afterBreak (first : Char) (others : List Char) : Plain :=
        if atMarker rest then ⟨[], true, rest⟩
        else goOn (.breaks first others 0)
      match stage with
      | .word =>
          if c == ' ' then goOn (.spaces [c])
          else if isBreak c then afterBreak (breakOf c) []
          else if endsPlain inFlow c rest then
            ⟨[], false, c :: rest⟩
          else word []
      | .spaces pending =>
          if c == ' ' then goOn (.spaces (pending ++ [c]))
          else if isBreak c then afterBreak (breakOf c) []
          else if c == '#' || endsPlain inFlow c rest then
            ⟨[], false, c :: rest⟩
          else word pending
      | .breaks first others column =>
          if c == ' ' then goOn (.breaks first others (column + 1))
          else if isBreak c then
            afterBreak first (others ++ [breakOf c])
          else if c == '#'
              || (!inFlow && (column : Int) < indent)
              || endsPlain inFlow c rest then
            ⟨[], true, c :: rest⟩
          else word (foldedBreaks first others)

/- The plain scalar that a text starts with. -/
def plain
    (inFlow : Bool)
    (indent : Int)
    (cs : List Char) : Plain :=
  plainFrom inFlow indent .word cs

end Lexeme

end Yaml

end BiomeMigration
