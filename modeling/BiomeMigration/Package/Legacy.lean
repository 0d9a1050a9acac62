import BiomeMigration.Package.Manifest

/-
  This file defines which packages of a manifest belong to
  the old tools: those whose name contains the name of one,
  in any letter case.

  Key definitions include:
    * `Legacy.contains`
    * `Legacy.isLegacy`
    * `Legacy.packages`
-/

namespace BiomeMigration

namespace Legacy

------------------------------------------------------------
-- Letter Case
------------------------------------------------------------

/-
  A code point is a small letter in some case. The long s
  is a form of `s`, the dotted capital and the dotless
  small i are forms of `i`.
-/
def isFormOf
    (letter : Char) :
    CodePoint → Bool
  | .scalar c =>
      c.toLower == letter
        || (letter == 's' && c.toNat == 0x17F)
        || (letter == 'i'
              && (c.toNat == 0x130 || c.toNat == 0x131))
  | .surrogate _ => false

/- A text starts with a word in some case. -/
def startsWith :
    List Char → Text → Bool
  | [], _ => true
  | _ :: _, [] => false
  | letter :: word, p :: t =>
      isFormOf letter p && startsWith word t

/- A text contains a word in some case. -/
def contains
    (word : List Char) :
    Text → Bool
  | [] => startsWith word []
  | p :: t => startsWith word (p :: t) || contains word t

------------------------------------------------------------
-- Packages
------------------------------------------------------------

/- The names of the old tools. -/
def tools : List String :=
  ["eslint", "prettier"]

/- A package belongs to the old tools. -/
def isLegacy (package : Text) : Bool :=
  tools.any fun tool => contains tool.toList package

/- The entries of a list at their first places. -/
def distinct
    {α : Type}
    [DecidableEq α] :
    List α → List α
  | [] => []
  | x :: xs => x :: (distinct xs).filter (· ≠ x)

theorem mem_distinct
    {α : Type}
    [DecidableEq α]
    {x : α}
    {xs : List α} :
    x ∈ distinct xs ↔ x ∈ xs := by
  induction xs with
  | nil => simp [distinct]
  | cons y ys ih =>
      by_cases h : x = y <;> simp [distinct, ih, h]

theorem nodup_distinct
    {α : Type}
    [DecidableEq α]
    (xs : List α) :
    (distinct xs).Nodup := by
  induction xs with
  | nil => simp [distinct]
  | cons y ys ih =>
      rw [distinct, List.nodup_cons]
      exact ⟨by simp, List.Pairwise.filter _ ih⟩

/- The packages of the old tools, each at its first place. -/
def packages (m : Manifest) : List Text :=
  distinct ((m.dependencies.map Prod.snd).filter isLegacy)

end Legacy

end BiomeMigration
