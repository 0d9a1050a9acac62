import BiomeMigration.Package.ManifestFile

/-
  This file defines how the surroundings of a project are
  searched: the nearest of some files, and the package
  manager that the project uses.

  Key definitions include:
    * `Path.ancestry`
    * `Probe.Found`
    * `Probe.nearest`
    * `Probe.find`
    * `Probe.detect`
-/

namespace BiomeMigration

/- The paths that start a list of components, longest first. -/
def Path.ancestryOf
    (anchor : Anchor) :
    List String → List Path
  | [] => [⟨anchor, []⟩]
  | part :: parts =>
      (ancestryOf anchor parts).map
          (fun p => ⟨anchor, part :: p.parts⟩)
        ++ [⟨anchor, []⟩]

/- A path and all paths above it, the nearest first. -/
def Path.ancestry (p : Path) : List Path :=
  ancestryOf p.anchor p.parts

namespace Probe

------------------------------------------------------------
-- Search
------------------------------------------------------------

/- A file that was found under a name in a directory. -/
structure Found where
  directory : Path
  file : Path
  name : String
  deriving DecidableEq, Repr

/- The first of some names that exists in a directory. -/
def inDirectory
    (fs : FileSystem)
    (directory : Path) :
    List String → Except PathFault (Option Found)
  | [] => .ok none
  | name :: names => do
      let file := directory.child name
      if ← fs.exists? file then
        return some ⟨directory, file, name⟩
      else inDirectory fs directory names

/- The first directory in which one of some names exists. -/
def nearest
    (fs : FileSystem)
    (names : List String) :
    List Path → Except PathFault (Option Found)
  | [] => .ok none
  | directory :: others => do
      match ← inDirectory fs directory names with
      | some found => return some found
      | none => nearest fs names others

/-
  Search a directory and all directories above it. The
  nearest directory wins, and in it the first name.
-/
def find
    (fs : FileSystem)
    (start : Path)
    (names : List String) : Except PathFault (Option Found) := do
  nearest fs names (← fs.resolve start).ancestry

------------------------------------------------------------
-- The Package Manager
------------------------------------------------------------

/- The manager that a manifest's field selects. -/
def declaredBy : Json → Option Manager
  | .object members =>
      (Members.get? members (Text.ofString "packageManager")).bind
        Manager.ofField
  | _ => none

/-
  The manager that a manifest declares. A manifest that
  cannot be read declares none.
-/
def declared (p : Path) : Session (Option Manager) := do
  match (← Session.files).readJson p with
  | .ok v => return declaredBy v
  | .error cause =>
      match cause.nesting? with
      | some container => throw (.nesting container)
      | none =>
          Session.log .debug "probe"
            s!"Ignoring unreadable manifest {p.text}: {cause.message}"
          return none

/- Accept the manager that a manifest declares, if any. -/
def declaredAt (p : Path) : Session (Option Manager) := do
  match ← declared p with
  | some manager =>
      Session.log .debug "probe"
        s!"packageManager field in {p.text} selects {manager.id}"
      return some manager
  | none => return none

/- The manager that the manifest of a directory declares. -/
def local? (root : Path) : Session (Option Manager) := do
  let p := root.child Manifest.fileName
  if ← Session.ofFiles (·.exists? p) then declaredAt p
  else return none

/-
  The manager that the nearest manifest above a directory
  declares.
-/
def above? (root : Path) : Session (Option Manager) := do
  if root.parts.isEmpty then return none
  match ← Session.ofFiles
      (find · root.parent [Manifest.fileName]) with
  | some found => declaredAt found.file
  | none => return none

/-
  The managers whose lockfiles are searched for, in order,
  with the names of the lockfiles.
-/
def lockfiles : List (Manager × String) :=
  Manager.all.filterMap fun m => m.lockfile?.map (m, ·)

/- The first manager whose lockfile is found. -/
def locked?
    (root : Path) :
    List (Manager × String) → Session (Option Manager)
  | [] => return none
  | (manager, name) :: others => do
      match ← Session.ofFiles (find · root [name]) with
      | some found =>
          Session.log .debug "probe"
            s!"Lockfile {found.file.text} selects {manager.id}"
          return some manager
      | none => locked? root others

/-
  The package manager of a project: the one its manifest
  declares, else the one the nearest manifest above it
  declares, else the first one with a lockfile in the
  project or above it, else npm.
-/
def detect (root : Path) : Session Manager := do
  let root ← Session.ofFiles (·.resolve root)
  match ← local? root with
  | some manager => return manager
  | none =>
      match ← above? root with
      | some manager => return manager
      | none => return (← locked? root lockfiles).getD .npm

end Probe

end BiomeMigration
