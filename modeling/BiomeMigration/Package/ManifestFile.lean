import BiomeMigration.Json.Printer
import BiomeMigration.Package.Manifest
import BiomeMigration.Session.World
import BiomeMigration.Text.LineBreak

/-
  This file defines how a manifest is read from its file
  and written back.

  Key definitions include:
    * `Unreadable`
    * `FileSystem.readJson`
    * `Manifest.parse`
    * `Manifest.read`
    * `Manifest.text`
    * `Manifest.write`
-/

namespace BiomeMigration

------------------------------------------------------------
-- JSON Files
------------------------------------------------------------

/- Why a file holds no JSON value. -/
inductive Unreadable where
  | file (fault : PathFault)
  | encoding (fault : Utf8.Fault)
  | json (text : List Char) (fault : Json.Fault)

namespace Unreadable

/- The wording of a cause. -/
def message : Unreadable → String
  | .file fault => fault.message
  | .encoding fault => fault.message
  | .json text fault => fault.message text

/- Nesting that is too deep ends the session. -/
def nesting? : Unreadable → Option Json.Container
  | .json _ (.tooDeep container) => some container
  | _ => none

end Unreadable

/-
  The JSON value of some bytes, where at most `room`
  containers stand inside of each other.
-/
def Json.ofBytes
    (room : Nat)
    (bytes : Bytes) : Except Unreadable Json := do
  let cs ← (Utf8.decode bytes).mapError .encoding
  let text := LineBreak.unify cs
  (Json.parse room text).mapError (.json text)

/- The JSON value in a file. -/
def FileSystem.readJson
    (fs : FileSystem)
    (p : Path) : Except Unreadable Json := do
  Json.ofBytes fs.depths.json (← (fs.read p).mapError .file)

/-
  Put a text into a file. The file is empty when the text
  turns out to have no encoding.
-/
def FileSystem.writeText
    (fs : FileSystem)
    (p : Path)
    (t : Text) : Except Failure Unit × FileSystem :=
  match fs.write p [] with
  | .error fault => (.error (.path fault), fs)
  | .ok emptied =>
      match t.encode with
      | .error fault => (.error (.encoding fault), emptied)
      | .ok bytes =>
          match fs.write p bytes with
          | .error fault => (.error (.path fault), emptied)
          | .ok written => (.ok (), written)

namespace Session

/- Put a text into a file. -/
def writeText
    (p : Path)
    (t : Text) : Session Unit := do
  let (result, fs) := (← files).writeText p t
  setFiles fs
  ofExcept result

end Session

------------------------------------------------------------
-- Manifests
------------------------------------------------------------

namespace Manifest

/- The name of a manifest. -/
def fileName : String := "package.json"

/- The name of the file that configures TypeScript. -/
def typescriptFile : String := "tsconfig.json"

/- The failure that an unreadable manifest is. -/
def failureOf (cause : Unreadable) : Failure :=
  match cause.nesting? with
  | some container => .nesting container
  | none => .manifest cause.message

/- The members of the object that a value has to be. -/
def ofJson : Json → Except Failure Manifest
  | .object members => .ok members
  | _ => .error .manifestRoot

/- The manifest of a directory. -/
def read
    (fs : FileSystem)
    (root : Path) : Except Failure Manifest := do
  let p := root.child fileName
  let isThere ← (fs.exists? p).mapError .path
  if !isThere then throw .noManifest
  ofJson (← (fs.readJson p).mapError failureOf)

/- The text of a manifest. -/
def text (m : Manifest) : Text :=
  Json.print .plain (.object m) ++ Text.ofString "\n"

/- Write the manifest of a directory. -/
def write
    (root : Path)
    (m : Manifest) : Session Unit :=
  Session.writeText (root.child fileName) m.text

/-
  A project uses TypeScript: it configures it, or its
  manifest lists it.
-/
def usesTypescript
    (fs : FileSystem)
    (root : Path)
    (m : Manifest) : Except PathFault Bool := do
  let isConfigured ← fs.exists? (root.child typescriptFile)
  return isConfigured || m.hasDependency "typescript"

end Manifest

end BiomeMigration
