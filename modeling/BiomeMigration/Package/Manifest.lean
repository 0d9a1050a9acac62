import BiomeMigration.Package.Manager

/-
  This file defines manifests: the packages that one lists,
  and the two edits that a migration makes, one removing
  the settings of the old tools and one adding scripts.

  Key definitions include:
    * `Manifest`
    * `Manifest.dependencies`
    * `Manifest.hasDependency`
    * `Manifest.withoutLegacySettings`
    * `Manifest.scripts`
    * `Manifest.withScripts`
-/

namespace BiomeMigration

/- A manifest: the members of the object in its file. -/
abbrev Manifest := List (Text × Json)

namespace Manifest

------------------------------------------------------------
-- Dependencies
------------------------------------------------------------

/- The fields that list packages, in order. -/
def groups : List String :=
  ["dependencies", "devDependencies", "peerDependencies",
    "optionalDependencies"]

/- The packages of a group; only an object lists any. -/
def group
    (m : Manifest)
    (name : String) : List Text :=
  match Members.get? m (Text.ofString name) with
  | some (.object packages) => Members.keys packages
  | _ => []

/- The packages of all groups, each with its group. -/
def dependencies (m : Manifest) : List (String × Text) :=
  groups.flatMap fun name => (m.group name).map (name, ·)

/- Some group lists a package. -/
def hasDependency
    (m : Manifest)
    (package : String) : Bool :=
  m.dependencies.any (·.2 == Text.ofString package)

------------------------------------------------------------
-- Settings of the Old Tools
------------------------------------------------------------

/- The fields that configure the old tools. -/
def legacyFields : List String :=
  ["eslintConfig", "prettier"]

/- A manifest configures one of the old tools. -/
def hasLegacySettings (m : Manifest) : Bool :=
  legacyFields.any fun key => Members.has m (Text.ofString key)

/- A manifest without the settings of the old tools. -/
def withoutLegacySettings (m : Manifest) : Manifest :=
  legacyFields.foldl
    (fun m key => Members.erase m (Text.ofString key))
    m

------------------------------------------------------------
-- Scripts
------------------------------------------------------------

/- The script that lints. -/
def lintScript : String :=
  "biome lint --diagnostic-level=error --no-errors-on-unmatched"

/- The script that lints and mends. -/
def lintFixScript : String :=
  "biome check --write --unsafe"

/- The script that checks types. -/
def typeCheckScript : String :=
  "tsc -b --noEmit"

/-
  The scripts that a migration adds. Where types are
  checked, both lint scripts run that check at their end.
-/
def scripts
    (manager : Manager)
    (typescript : Bool) : List (String × String) :=
  if typescript then
    let check := " && " ++ manager.run "type-check"
    [("type-check", typeCheckScript),
      ("lint", lintScript ++ check),
      ("lint:fix", lintFixScript ++ check)]
  else
    [("lint", lintScript), ("lint:fix", lintFixScript)]

/- The scripts of a manifest; only an object holds any. -/
def currentScripts (m : Manifest) : Members :=
  match Members.get? m (Text.ofString "scripts") with
  | some (.object scripts) => scripts
  | _ => []

/- A manifest with scripts added. -/
def withScripts
    (m : Manifest)
    (added : List (String × String)) : Manifest :=
  let members : Members :=
    added.map fun (name, command) =>
      (Text.ofString name, .ofString command)
  Members.insert m
    (Text.ofString "scripts")
    (.object (Members.insertAll m.currentScripts members))

end Manifest

end BiomeMigration
