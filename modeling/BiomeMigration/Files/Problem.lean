import BiomeMigration.Text.Quoted

/-
  This file defines why the file system refuses an
  operation, and the wording of a refusal.

  Key definitions include:
    * `Problem`
    * `Problem.message`
-/

namespace BiomeMigration

/-
  Why the file system refuses an operation. Permissions are
  not modelled: every file may be read and written.
-/
inductive Problem where
  | noEntry
  | notDirectory
  | isDirectory
  | nameTooLong
  | tooManyLinks
  deriving DecidableEq, Repr

namespace Problem

/- The error number. -/
def number : Problem → Nat
  | .noEntry => 2
  | .notDirectory => 20
  | .isDirectory => 21
  | .nameTooLong => 36
  | .tooManyLinks => 40

/- The description of the error number. -/
def description : Problem → String
  | .noEntry => "No such file or directory"
  | .notDirectory => "Not a directory"
  | .isDirectory => "Is a directory"
  | .nameTooLong => "File name too long"
  | .tooManyLinks => "Too many levels of symbolic links"

/- The wording of a refusal at a path. -/
def message
    (problem : Problem)
    (path : String) : String :=
  s!"[Errno {problem.number}] {problem.description}: "
    ++ Quoted.text path

end Problem

/-
  Why a path cannot be used: the file system refuses the
  operation, the path holds a NUL, links lead in a circle, a
  home directory is unknown, or directories nest too deep.
-/
inductive PathFault where
  | refused (problem : Problem) (path : String)
  | nul
  | linkLoop (path : String)
  | homeless
  | tooDeep
  deriving DecidableEq, Repr

namespace PathFault

/- The wording of a fault. -/
def message : PathFault → String
  | .refused problem path => problem.message path
  | .nul => "embedded null byte"
  | .linkLoop path => "Symlink loop from " ++ Quoted.text path
  | .homeless => "Could not determine home directory."
  | .tooDeep => "maximum recursion depth exceeded"

end PathFault

end BiomeMigration
