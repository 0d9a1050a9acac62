import BiomeMigration.Package.Manifest

/-
  This file defines the kinds of project that differ in
  their settings, and how a manifest shows its kind.

  Key definitions include:
    * `Archetype`
    * `Archetype.named?`
    * `Archetype.ofManifest`
-/

namespace BiomeMigration

/- A kind of project. -/
inductive Archetype where
  | react
  | node
  deriving DecidableEq, Repr

namespace Archetype

/- The name of a kind. -/
def id : Archetype → String
  | .react => "react"
  | .node => "node"

/- The kind of a name. -/
def named? (name : String) : Option Archetype :=
  [.react, .node].find? (·.id == name)

/- The packages that show a React project. -/
def reactPackages : List String :=
  ["next", "react", "react-dom"]

/- The kind of the project of a manifest. -/
def ofManifest (m : Manifest) : Archetype :=
  if reactPackages.any m.hasDependency then .react else .node

end Archetype

end BiomeMigration
