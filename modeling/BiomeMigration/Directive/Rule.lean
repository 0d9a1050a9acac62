import BiomeMigration.Text.Blank
import BiomeMigration.Text.Run

/-
  This file defines the directive comments that steer
  ESLint from inside a source file: their forms, the rules
  that name them, and the comment that a form reads at the
  start of a text.

  Key definitions include:
    * `Directive.Form`
    * `Directive.Form.comment?`
    * `Directive.Rule`
    * `Directive.Rule.standard`
-/

namespace BiomeMigration

namespace Directive

------------------------------------------------------------
-- Forms
------------------------------------------------------------

/-
  The form of a directive comment. A block starts with `/*`,
  blanks and the word, and goes on to the first `*/` after
  it. A configuration is a block with the word `eslint` and
  a blank, and no star before its `*/`. A line starts with
  `//`, blanks and the word, and goes on to the end of the
  line.
-/
inductive Form where
  | block (word : List Char)
  | configuration
  | line (word : List Char)
  deriving DecidableEq, Repr

/- A character ends a line. -/
def isLineEnd (c : Char) : Bool :=
  c == '\n' || c == '\r'

/- The rest of a text after a given beginning. -/
def after? :
    List Char → List Char → Option (List Char)
  | [], cs => some cs
  | _ :: _, [] => none
  | a :: as, c :: cs => if a = c then after? as cs else none

/- The text up to and with the first `*/`, and the rest. -/
def throughClose? :
    List Char → Option (List Char × List Char)
  | '*' :: '/' :: rest => some (['*', '/'], rest)
  | c :: rest =>
      (throughClose? rest).map fun (body, rest) =>
        (c :: body, rest)
  | [] => none

/-
  A blank, text without a star, and `*/`, and the rest
  after them.
-/
def blankThroughClose?
    (cs : List Char) :
    Option (List Char × List Char) :=
  match run (· != '*') cs with
  | (c :: body, '*' :: '/' :: rest) =>
      if isBlank c then some (c :: body ++ ['*', '/'], rest)
      else none
  | _ => none

/- What follows the word of a form, and the rest. -/
def Form.body?
    (form : Form)
    (cs : List Char) :
    Option (List Char × List Char) :=
  match form with
  | .block _ => throughClose? cs
  | .configuration => blankThroughClose? cs
  | .line _ => some (run (!isLineEnd ·) cs)

/- The two characters that a form starts with. -/
def Form.opener : Form → List Char
  | .block _ => ['/', '*']
  | .configuration => ['/', '*']
  | .line _ => ['/', '/']

/- The word of a form. -/
def Form.word : Form → List Char
  | .block word => word
  | .configuration => "eslint".toList
  | .line word => word

/-
  The comment of a form that a text starts with, and the
  rest after it.
-/
def Form.comment?
    (form : Form)
    (cs : List Char) :
    Option (List Char × List Char) := do
  let inside ← after? form.opener cs
  let (blanks, rest) := run isBlank inside
  let rest ← after? form.word rest
  let (body, rest) ← form.body? rest
  return (form.opener ++ blanks ++ form.word ++ body, rest)

------------------------------------------------------------
-- Rules
------------------------------------------------------------

/- A named form. -/
structure Rule where
  name : String
  form : Form
  deriving DecidableEq, Repr

namespace Rule

/- A rule for blocks that start with a word. -/
def block (name word : String) : Rule :=
  ⟨name, .block word.toList⟩

/- A rule for lines that start with a word. -/
def line (name word : String) : Rule :=
  ⟨name, .line word.toList⟩

/-
  The rules in the order they are applied. The last one
  takes every line whose word starts with `eslint-`.
-/
def standard : List Rule :=
  [block "block-disable" "eslint-disable",
    block "block-enable" "eslint-enable",
    block "block-env" "eslint-env",
    ⟨"block-rules", .configuration⟩,
    line "line-disable" "eslint-disable",
    line "line-enable" "eslint-enable",
    line "line-env" "eslint-env",
    line "line-generic" "eslint-"]

/- The standard rule of a name. -/
def named? (name : String) : Option Rule :=
  standard.find? (·.name == name)

end Rule

------------------------------------------------------------
-- What a Comment is Made of
------------------------------------------------------------

theorem append_of_after?
    {lead cs rest : List Char}
    (h : after? lead cs = some rest) :
    cs = lead ++ rest := by
  induction lead generalizing cs with
  | nil => simpa [after?] using h
  | cons a as ih =>
      cases cs with
      | nil => simp [after?] at h
      | cons c cs =>
          by_cases hac : a = c
          · subst hac
            simp only [after?, if_true] at h
            simp [ih h]
          · simp [after?, hac] at h

theorem append_of_throughClose?
    {cs body rest : List Char}
    (h : throughClose? cs = some (body, rest)) :
    cs = body ++ rest := by
  fun_induction throughClose? cs generalizing body with
  | case1 rest' =>
      simp only [Option.some.injEq, Prod.mk.injEq] at h
      simp [← h.1, ← h.2]
  | case2 c rest' hc ih =>
      obtain ⟨⟨body', rest''⟩, h', heq⟩ :=
        Option.map_eq_some_iff.1 h
      simp only [Prod.mk.injEq] at heq
      obtain ⟨rfl, rfl⟩ := heq
      simp [ih h']
  | case3 => simp at h

theorem append_of_blankThroughClose?
    {cs body rest : List Char}
    (h : blankThroughClose? cs = some (body, rest)) :
    cs = body ++ rest := by
  have hrun := run_append (· != '*') cs
  rw [blankThroughClose?] at h
  split at h
  · next c body' rest' heq =>
      split at h
      · simp only [Option.some.injEq, Prod.mk.injEq] at h
        rw [heq] at hrun
        rw [← hrun, ← h.1, ← h.2]
        simp
      · simp at h
  · simp at h

theorem Form.append_of_body?
    {form : Form}
    {cs body rest : List Char}
    (h : form.body? cs = some (body, rest)) :
    cs = body ++ rest := by
  cases form with
  | block word => exact append_of_throughClose? h
  | configuration => exact append_of_blankThroughClose? h
  | line word =>
      have hrun := run_append (!isLineEnd ·) cs
      simp only [Form.body?, Option.some.injEq] at h
      rw [h] at hrun
      exact hrun.symm

/- A comment and the rest after it are the text. -/
theorem Form.append_of_comment?
    {form : Form}
    {cs comment rest : List Char}
    (h : form.comment? cs = some (comment, rest)) :
    cs = comment ++ rest := by
  simp only [Form.comment?, Option.bind_eq_bind,
    Option.bind_eq_some_iff, Option.pure_def,
    Option.some.injEq, Prod.mk.injEq, Prod.exists] at h
  obtain ⟨inside, h₁, rest₁, h₂, body, rest₂, h₃, rfl, rfl⟩ := h
  have e₁ := append_of_after? h₁
  have e₂ := append_of_after? h₂
  have e₃ := Form.append_of_body? h₃
  have e₄ := run_append isBlank inside
  rw [e₂, e₃] at e₄
  rw [e₁, List.append_assoc, List.append_assoc,
    List.append_assoc, e₄]

end Directive

end BiomeMigration
