/-
  This file defines file paths: how the text of a path is
  read and written, and its last component.

  Key definitions include:
    * `Path`
    * `Path.ofString`
    * `Path.text`
    * `Path.join`
    * `Path.parent`
    * `Path.name`
    * `Path.suffix`
-/

namespace BiomeMigration

/-
  Where a path starts: at the working directory or at the
  root. Exactly two leading slashes are kept apart from one.
-/
inductive Anchor where
  | working
  | root
  | doubleRoot
  deriving DecidableEq, Repr

/- The slashes that a path starts with. -/
def Anchor.text : Anchor → String
  | .working => ""
  | .root => "/"
  | .doubleRoot => "//"

/- The anchor of a text. -/
def Anchor.ofChars : List Char → Anchor
  | '/' :: '/' :: '/' :: _ => .root
  | '/' :: '/' :: _ => .doubleRoot
  | '/' :: _ => .root
  | _ => .working

/-
  A path: its anchor and its components. No component is
  empty or a single dot.
-/
structure Path where
  anchor : Anchor
  parts : List String
  deriving DecidableEq, Repr

namespace Path

------------------------------------------------------------
-- Text
------------------------------------------------------------

/- The pieces of a text between slashes. -/
def split : List Char → List (List Char)
  | [] => [[]]
  | c :: rest =>
      if c = '/' then [] :: split rest
      else
        match split rest with
        | [] => [[c]]
        | piece :: pieces => (c :: piece) :: pieces

/- The components of a text. -/
def components (s : String) : List String :=
  ((split s.toList).map String.ofList).filter fun part =>
    part != "" && part != "."

/- The path of a text. -/
def ofString (s : String) : Path :=
  ⟨Anchor.ofChars s.toList, components s⟩

/- The text of a path; the empty path is a single dot. -/
def text (p : Path) : String :=
  let names := "/".intercalate p.parts
  if p.anchor == .working && p.parts.isEmpty then "."
  else p.anchor.text ++ names

------------------------------------------------------------
-- Components
------------------------------------------------------------

/- A path below another one, unless it starts at the root. -/
def join (p q : Path) : Path :=
  match q.anchor with
  | .working => ⟨p.anchor, p.parts ++ q.parts⟩
  | _ => q

/- A path followed by a text. -/
def child
    (p : Path)
    (s : String) : Path :=
  p.join (ofString s)

/- The path without its last component. -/
def parent (p : Path) : Path :=
  ⟨p.anchor, p.parts.dropLast⟩

/- The last component. -/
def name (p : Path) : String :=
  p.parts.getLast?.getD ""

/-
  The last dot of a component and what follows it, unless
  the dot is the first or the last character.
-/
def suffixOf (s : String) : String :=
  let reversed := s.toList.reverse
  let ending := reversed.takeWhile (· != '.')
  let before := reversed.drop (ending.length + 1)
  if ending.isEmpty || before.isEmpty then ""
  else String.ofList ('.' :: ending.reverse)

/- The suffix of the last component. -/
def suffix (p : Path) : String :=
  suffixOf p.name

/- A component holds a NUL, which no file name can. -/
def hasNul (p : Path) : Bool :=
  p.parts.any (·.toList.contains '\x00')

end Path

end BiomeMigration
