import BiomeMigration.Proofs.Directive.Places

/-
  Well-delimited source texts, and what is to become of one:
  the text without the pieces that its directive comments
  take along, said in one shot and without any pass.

  Main declarations:
    * `Comment`
    * `Script`
    * `Script.places`
    * `Script.WellDelimited`
    * `Script.Removes`
    * `Script.cleaned`
-/

------------------------------------------------------------
-- Comments
------------------------------------------------------------

namespace BiomeMigration

namespace Directive

/-
  A comment of a source: two slashes and a body that goes on
  to the end of the line, or a body between `/*` and `*/`.
-/
inductive Comment where
  | line (body : List Char)
  | block (body : List Char)
  deriving DecidableEq, Repr

namespace Comment

/- The characters of a comment. -/
def text : Comment → List Char
  | .line body => '/' :: '/' :: body
  | .block body => '/' :: '*' :: (body ++ ['*', '/'])

end Comment

/- A form matches a comment in full. -/
def Form.matchesComment
    (form : Form)
    (c : Comment) : Bool :=
  form.comment? c.text == some (c.text, [])

/- One of the rules matches a comment in full. -/
def Comment.isDirective (c : Comment) : Bool :=
  Rule.standard.any (·.form.matchesComment c)

/- A text that is over, or goes on with a line break. -/
def EndsLine : List Char → Prop
  | [] => True
  | '\n' :: _ => True
  | '\r' :: '\n' :: _ => True
  | _ => False

/- Every carriage return stands before a line feed. -/
def ReturnsPaired (cs : List Char) : Prop :=
  ∀ before after,
    cs = before ++ '\r' :: after → after.head? = some '\n'

/-
  The body of a comment can be told from what is around it.
  A body holds no slash. A line comment ends with its line,
  has a character that is not blank and does not start with
  a star; no star follows a block comment.
-/
def Comment.Delimits
    (c : Comment)
    (after : List Char) : Prop :=
  match c with
  | .line body =>
      '/' ∉ body ∧ '\n' ∉ body ∧ '\r' ∉ body ∧
        (∃ d ∈ body, isBlank d = false) ∧
        body.head? ≠ some '*' ∧
        EndsLine after
  | .block body =>
      '/' ∉ body ∧ after.head? ≠ some '*'

end Directive

end BiomeMigration

------------------------------------------------------------
-- Scripts
------------------------------------------------------------

namespace BiomeMigration

namespace Directive

/-
  A source text in pieces: the code before the first comment
  and the comments, each with the code behind it, which may
  be empty.
-/
structure Script where
  lead : List Char
  rest : List (Comment × List Char)

/- Comments and the code behind them. -/
def textOf (rest : List (Comment × List Char)) : List Char :=
  rest.flatMap fun (c, code) => c.text ++ code

/- The text of a script. -/
def Script.text (s : Script) : List Char :=
  s.lead ++ textOf s.rest

/- A comment with the text before it and behind it. -/
structure Place where
  before : List Char
  comment : Comment
  after : List Char

/- The comments behind some text, with their places. -/
def placesFrom
    (before : List Char) :
    List (Comment × List Char) → List Place
  | [] => []
  | (c, code) :: rest =>
      ⟨before, c, code ++ textOf rest⟩ ::
        placesFrom (before ++ c.text ++ code) rest

/- The comments of a script with their places. -/
def Script.places (s : Script) : List Place :=
  placesFrom s.lead s.rest

namespace Place

------------------------------------------------------------
-- Lines
------------------------------------------------------------

/- The number of the line that a comment starts on. -/
def firstLine (p : Place) : Nat :=
  p.before.count '\n'

/- The number of the line that a comment ends on. -/
def lastLine (p : Place) : Nat :=
  (p.before ++ p.comment.text).count '\n'

/- A comment touches a line. -/
def Touches
    (p : Place)
    (n : Nat) : Prop :=
  p.firstLine ≤ n ∧ n ≤ p.lastLine

------------------------------------------------------------
-- Margins
------------------------------------------------------------

/- Spaces and tabs that a text ends with. -/
def indentOf (before : List Char) : List Char :=
  (run isIndent before.reverse).1.reverse

/- A text without the spaces and tabs that it ends with. -/
def beforeIndent (before : List Char) : List Char :=
  (run isIndent before.reverse).2.reverse

/-
  The rest of a line with its line break, if it holds spaces
  and tabs only.
-/
def blankRest? (after : List Char) : Option (List Char) :=
  let (blanks, rest) := run isIndent after
  (lineBreak? rest).map fun (ending, _) => blanks ++ ending

/-
  The margins that a comment takes along. They are empty
  unless nothing but spaces and tabs shares its lines.
-/
def margins (p : Place) : List Char × List Char :=
  match blankRest? p.after with
  | some trail =>
      if startsLine true (beforeIndent p.before) then
        (indentOf p.before, trail)
      else ([], [])
  | none => ([], [])

/- The places that a comment and its margins start and end. -/
def extent (p : Place) : Nat × Nat :=
  (p.before.length - p.margins.1.length,
    p.before.length + p.comment.text.length +
      p.margins.2.length)

/- A comment and its margins cover a place of the text. -/
def Covers
    (p : Place)
    (i : Nat) : Prop :=
  p.extent.1 ≤ i ∧ i < p.extent.2

instance (p : Place) (i : Nat) : Decidable (p.Covers i) :=
  inferInstanceAs
    (Decidable (p.extent.1 ≤ i ∧ i < p.extent.2))

end Place

/- The directive comments among some places. -/
def directivesOf (places : List Place) : List Place :=
  places.filter (·.comment.isDirective)

/- No line is touched by two of some comments. -/
def Apart (places : List Place) : Prop :=
  places.Pairwise fun p q =>
    ∀ n, ¬ (p.Touches n ∧ q.Touches n)

namespace Script

/- The directive comments of a script with their places. -/
def directives (s : Script) : List Place :=
  directivesOf s.places

/-
  The pieces of a script can be told apart. Code holds no
  slash, returns are paired, and no line is touched by two
  directive comments.
-/
structure WellDelimited (s : Script) : Prop where
  lead_code : '/' ∉ s.lead
  rest_code : ∀ entry ∈ s.rest, '/' ∉ entry.2
  comments : ∀ p ∈ s.places, p.comment.Delimits p.after
  returns : ReturnsPaired s.text
  lines : Apart s.directives

/- A directive comment takes a place of the text along. -/
def Removes
    (s : Script)
    (i : Nat) : Prop :=
  ∃ p ∈ s.directives, p.Covers i

instance (s : Script) (i : Nat) : Decidable (s.Removes i) :=
  inferInstanceAs (Decidable (∃ p ∈ s.directives, p.Covers i))

/- The text without what directive comments take along. -/
def cleaned (s : Script) : List Char :=
  chars ((source s.text).filter fun x => ¬ s.Removes x.2)

end Script

------------------------------------------------------------
-- Deciding the Form of a Script
------------------------------------------------------------

instance (cs : List Char) : Decidable (EndsLine cs) := by
  unfold EndsLine
  split <;> infer_instance

/- Only the characters of the body are looked at. -/
instance (c : Comment) (after : List Char) :
    Decidable (c.Delimits after) :=
  match c with
  | .line body =>
      have := List.decidableBEx (isBlank · = false) body
      inferInstanceAs
        (Decidable
          ('/' ∉ body ∧ '\n' ∉ body ∧ '\r' ∉ body ∧
            (∃ d ∈ body, isBlank d = false) ∧
            body.head? ≠ some '*' ∧
            EndsLine after))
  | .block body =>
      inferInstanceAs
        (Decidable ('/' ∉ body ∧ after.head? ≠ some '*'))

theorem returnsPaired_cons_iff
    {c : Char}
    {cs : List Char} :
    ReturnsPaired (c :: cs) ↔
      (c = '\r' → cs.head? = some '\n') ∧
        ReturnsPaired cs := by
  constructor
  · intro hReturns
    constructor
    · rintro rfl
      exact hReturns [] cs rfl
    · intro before after hText
      exact hReturns (c :: before) after (by rw [hText]; rfl)
  · rintro ⟨hHead, hReturns⟩ before after hText
    cases before with
    | nil =>
        rcases List.cons.inj hText with ⟨hEq, rfl⟩
        exact hHead hEq
    | cons d before =>
        exact hReturns before after (List.cons.inj hText).2

instance decidableReturnsPaired :
    (cs : List Char) → Decidable (ReturnsPaired cs)
  | [] => isTrue (by intro before after hText; simp at hText)
  | _ :: cs =>
      have := decidableReturnsPaired cs
      decidable_of_iff _ returnsPaired_cons_iff.symm

theorem Place.firstLine_le_lastLine (p : Place) :
    p.firstLine ≤ p.lastLine := by
  unfold firstLine lastLine
  rw [List.count_append]
  exact Nat.le_add_right _ _

/- Comments are apart if one ends before the other starts. -/
theorem apart_iff
    {places : List Place} :
    Apart places ↔
      places.Pairwise fun p q =>
        p.lastLine < q.firstLine ∨
          q.lastLine < p.firstLine := by
  unfold Apart
  apply List.Pairwise.iff
  intro p q
  have hp := p.firstLine_le_lastLine
  have hq := q.firstLine_le_lastLine
  constructor
  · intro hApart
    by_contra hNot
    apply hApart (max p.firstLine q.firstLine)
    unfold Place.Touches
    omega
  · rintro hOrder n ⟨⟨hp₁, hp₂⟩, hq₁, hq₂⟩
    omega

instance (places : List Place) : Decidable (Apart places) :=
  decidable_of_iff _ apart_iff.symm

theorem Script.wellDelimited_iff
    {s : Script} :
    s.WellDelimited ↔
      '/' ∉ s.lead ∧
        (∀ entry ∈ s.rest, '/' ∉ entry.2) ∧
        (∀ p ∈ s.places, p.comment.Delimits p.after) ∧
        ReturnsPaired s.text ∧
        Apart s.directives :=
  ⟨fun h => ⟨h.lead_code, h.rest_code, h.comments, h.returns,
      h.lines⟩,
    fun ⟨h₁, h₂, h₃, h₄, h₅⟩ => ⟨h₁, h₂, h₃, h₄, h₅⟩⟩

instance (s : Script) : Decidable s.WellDelimited :=
  decidable_of_iff _ Script.wellDelimited_iff.symm

end Directive

end BiomeMigration
