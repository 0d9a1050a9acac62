import BiomeMigration.Json.Basic
import BiomeMigration.Text.Blank

/-
  This file defines the package managers, the shell
  commands that they are driven by, and the field of a
  manifest that selects one.

  Key definitions include:
    * `Manager`
    * `Manager.named?`
    * `Manager.install`
    * `Manager.uninstall`
    * `Manager.run`
    * `Manager.ofField`
-/

namespace BiomeMigration

/- A package manager. -/
inductive Manager where
  | pnpm
  | yarn
  | bun
  | npm
  deriving DecidableEq, Repr

namespace Manager

------------------------------------------------------------
-- Names and Files
------------------------------------------------------------

/- The name that selects a manager. -/
def id : Manager → String
  | .pnpm => "pnpm"
  | .yarn => "yarn"
  | .bun => "bun"
  | .npm => "npm"

/- All managers. -/
def all : List Manager :=
  [.pnpm, .yarn, .bun, .npm]

/- The manager of a name. -/
def named? (name : String) : Option Manager :=
  all.find? (·.id == name)

/- The file that shows a manager is in use. -/
def lockfile? : Manager → Option String
  | .pnpm => some "pnpm-lock.yaml"
  | .yarn => some "yarn.lock"
  | .bun => some "bun.lockb"
  | .npm => none

@[simp] theorem named?_id
    (m : Manager) :
    named? m.id = some m := by
  cases m <;> decide

------------------------------------------------------------
-- Commands
------------------------------------------------------------

/- The command that a package is installed with. -/
def installVerb : Manager → String
  | .pnpm => "pnpm add -D -E"
  | .yarn => "yarn add -D -E"
  | .bun => "bun add -D -E"
  | .npm => "npm install -D -E"

/- The command that packages are removed with. -/
def uninstallVerb : Manager → String
  | .pnpm => "pnpm remove"
  | .yarn => "yarn remove"
  | .bun => "bun remove"
  | .npm => "npm uninstall"

/- The command that a script is run with. -/
def runVerb : Manager → String
  | .pnpm => "pnpm"
  | .yarn => "yarn"
  | .bun => "bun run"
  | .npm => "npm run"

/- Install a package in an exact version for development. -/
def install
    (m : Manager)
    (dependency : Text) : Text :=
  Text.ofString (m.installVerb ++ " ") ++ dependency

/- Remove packages. -/
def uninstall
    (m : Manager)
    (packages : List Text) : Text :=
  Text.ofString (m.uninstallVerb ++ " ") ++ Text.join " " packages

/- Run a script of the manifest. -/
def run
    (m : Manager)
    (script : String) : String :=
  m.runVerb ++ " " ++ script

/- Run the script that lints. -/
def lint (m : Manager) : String :=
  m.run "lint"

/- Run the script that lints and mends. -/
def lintFix (m : Manager) : String :=
  m.run "lint:fix"

------------------------------------------------------------
-- Selection
------------------------------------------------------------

/-
  The manager that a field such as `pnpm@9.0.0` selects:
  the text before the first `@`, without blanks around it,
  is its name.
-/
def ofField : Json → Option Manager
  | .string t =>
      let before := t.shown.toList.takeWhile (· != '@')
      named? (String.ofList (Blank.trim before))
  | _ => none

end Manager

end BiomeMigration
