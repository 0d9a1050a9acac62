import BiomeMigration.Directive.Rule

/-
  This file defines the removal of directive comments from
  a text. A scan marks the characters to delete; marks can
  be applied to any list of the same length, so that a
  character can be followed through several passes.

  Key definitions include:
    * `Directive.Form.piece?`
    * `Directive.Mark`
    * `Directive.Form.marks`
    * `Directive.keep`
    * `Directive.Stripped`
    * `Directive.strip`
-/

namespace BiomeMigration

namespace Directive

------------------------------------------------------------
-- Pieces
------------------------------------------------------------

/- The line break, or the end, that a text starts with. -/
def lineBreak? :
    List Char → Option (List Char × List Char)
  | '\r' :: '\n' :: rest => some (['\r', '\n'], rest)
  | '\n' :: rest => some (['\n'], rest)
  | '\r' :: rest => some (['\r'], rest)
  | [] => some ([], [])
  | _ => none

/-
  A comment alone on its line, with its indentation, the
  blanks behind it and the line break, and the rest.
-/
def Form.wholeLine?
    (form : Form)
    (cs : List Char) :
    Option (List Char × List Char) := do
  let (indent, rest) := run isIndent cs
  let (comment, rest) ← form.comment? rest
  let (trail, rest) := run isIndent rest
  let (ending, rest) ← lineBreak? rest
  return (indent ++ comment ++ trail ++ ending, rest)

/-
  The piece to delete that a text starts with: at the start
  of a line the whole line if the comment is alone on it,
  else the comment itself.
-/
def Form.piece?
    (form : Form)
    (lineStart : Bool)
    (cs : List Char) :
    Option (List Char × List Char) :=
  let whole := if lineStart then form.wholeLine? cs else none
  whole.or (form.comment? cs)

------------------------------------------------------------
-- Marks
------------------------------------------------------------

/-
  What happens to a character: it stays, or it is cut, as
  the first one of a piece or not.
-/
inductive Mark where
  | stays
  | cut (first : Bool)
  deriving DecidableEq, Repr

/-
  The marks of a text in one scan from left to right. The
  first `skip` characters belong to a piece that has been
  found; a line starts after a line feed.
-/
def Form.marksFrom
    (form : Form)
    (lineStart : Bool)
    (skip : Nat) :
    List Char → List Mark
  | [] => []
  | c :: rest =>
      match skip with
      | skip + 1 =>
          .cut false :: form.marksFrom (c == '\n') skip rest
      | 0 =>
          match form.piece? lineStart (c :: rest) with
          | some (piece, _) =>
              .cut true
                :: form.marksFrom (c == '\n')
                    (piece.length - 1) rest
          | none => .stays :: form.marksFrom (c == '\n') 0 rest

/- The marks of a text. -/
def Form.marks
    (form : Form)
    (cs : List Char) : List Mark :=
  form.marksFrom true 0 cs

/- The entries of a list whose marks let them stay. -/
def keep
    {α : Type} :
    List Mark → List α → List α
  | .stays :: ms, x :: xs => x :: keep ms xs
  | .cut _ :: ms, _ :: xs => keep ms xs
  | _, _ => []

/- The number of pieces that are cut. -/
def pieces (ms : List Mark) : Nat :=
  ms.count (.cut true)

/- There is one mark for each character. -/
theorem Form.length_marksFrom
    (form : Form)
    (lineStart : Bool)
    (skip : Nat)
    (cs : List Char) :
    (form.marksFrom lineStart skip cs).length = cs.length := by
  induction cs generalizing lineStart skip with
  | nil => rfl
  | cons c rest ih =>
      cases skip with
      | succ skip => simp [Form.marksFrom, ih]
      | zero =>
          simp only [Form.marksFrom]
          split <;> simp [ih]

@[simp] theorem Form.length_marks
    (form : Form)
    (cs : List Char) :
    (form.marks cs).length = cs.length :=
  form.length_marksFrom true 0 cs

/- What stays comes in the order of the list. -/
theorem keep_sublist
    {α : Type}
    (ms : List Mark)
    (xs : List α) :
    (keep ms xs).Sublist xs := by
  fun_induction keep ms xs with
  | case1 ms x xs ih => exact ih.cons_cons x
  | case2 first ms x xs ih => exact ih.cons x
  | case3 => exact List.nil_sublist _

/- Marks act on labels as they act on what is labelled. -/
theorem keep_map
    {α β : Type}
    (f : α → β)
    (ms : List Mark)
    (xs : List α) :
    keep ms (xs.map f) = (keep ms xs).map f := by
  fun_induction keep ms xs with
  | case1 ms x xs ih => simp [keep, ih]
  | case2 first ms x xs ih => simp [keep, ih]
  | case3 ms xs h₁ h₂ =>
      cases ms with
      | nil => rfl
      | cons m ms =>
          cases xs with
          | nil => cases m <;> rfl
          | cons x xs =>
              cases m with
              | stays => exact absurd rfl (h₁ ms x xs rfl)
              | cut first => exact absurd rfl (h₂ first ms x xs rfl)

------------------------------------------------------------
-- Passes
------------------------------------------------------------

/- A text after some passes, and the pieces each one cut. -/
structure Stripped where
  text : List Char
  counts : List Nat
  deriving DecidableEq, Repr

/- The number of pieces that were cut. -/
def Stripped.removed (s : Stripped) : Nat :=
  s.counts.foldr (· + ·) 0

/-
  One pass a rule, from left to right; each pass sees what
  the passes before it left.
-/
def strip
    (rules : List Rule)
    (cs : List Char) : Stripped :=
  match rules with
  | [] => ⟨cs, []⟩
  | rule :: rules =>
      let ms := rule.form.marks cs
      let rest := strip rules (keep ms cs)
      ⟨rest.text, pieces ms :: rest.counts⟩

end Directive

end BiomeMigration
