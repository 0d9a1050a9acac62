import BiomeMigration.Decimal.NumberFormat
import BiomeMigration.Failure
import BiomeMigration.Text.LineBreak
import BiomeMigration.Yaml.Content

/-
  This file defines the settings of a migration and how
  they are taken from a settings file. A value that a
  setting cannot use counts as none.

  Key definitions include:
    * `Settings`
    * `Settings.versionOf`
    * `Settings.choiceOf`
    * `Settings.ofEntries`
    * `Settings.ofText`
    * `Settings.load`
-/

namespace BiomeMigration

/-
  The settings of a migration. A choice that is not made
  here is left to the user.
-/
structure Settings where
  version : Text
  removeLegacy? : Option Bool
  cleanComments? : Option Bool
  runFix : Bool
  deriving DecidableEq, Repr

namespace Settings

/- The name of a settings file. -/
def fileName : String := ".biomeup.yml"

/- The settings of a project without a settings file. -/
def standard : Settings where
  version := "2.3.8"
  removeLegacy? := none
  cleanComments? := none
  runFix := true

------------------------------------------------------------
-- Values
------------------------------------------------------------

/- A whole number, unless it is too long. -/
def writeInt (n : Int) : Except Failure String :=
  if 10 ^ Digit.limit ≤ n.natAbs then .error .longNumber
  else .ok (toString n)

/- The version that a value names, which is not empty. -/
def versionOf
    (value? : Option Yaml.Value) :
    Except Failure (Option Text) := do
  let text : Text ←
    match value? with
    | some (.scalar (.text t)) => pure t
    | some (.scalar (.int n)) => (writeInt n).map Text.ofString
    | some (.scalar (.float x)) =>
        pure (Text.ofString (NumberFormat.usual.write x))
    | _ => pure []
  return if text.isEmpty then none else some text

/- The words for a choice, in small letters. -/
def choiceWords : List (String × Bool) :=
  [("true", true), ("yes", true), ("1", true),
    ("false", false), ("no", false), ("0", false)]

/- The choice that a word stands for in any case. -/
def choiceOfWord (word : List Char) : Option Bool :=
  let folded := String.ofList (Blank.lower (Blank.trim word))
  choiceWords.lookup folded

/- The choice that a value makes. -/
def choiceOf (value? : Option Yaml.Value) : Option Bool :=
  match value? with
  | some (.scalar (.bool b)) => some b
  | some (.scalar (.text t)) => t.chars?.bind choiceOfWord
  | _ => none

------------------------------------------------------------
-- Contents
------------------------------------------------------------

/- The settings that the members of a mapping make. -/
def ofEntries (entries : Yaml.Entries) : Except Failure Settings := do
  let version? ← versionOf (entries.get? "biome_version")
  return {
    version := version?.getD standard.version
    removeLegacy? := choiceOf (entries.get? "remove_legacy")
    cleanComments? := choiceOf (entries.get? "clean_comments")
    runFix :=
      (choiceOf (entries.get? "run_fix")).getD standard.runFix }

/- The settings that a content makes. -/
def ofContent : Yaml.Content → Except Failure Settings
  | .nothing => .ok standard
  | .mapping entries => ofEntries entries
  | .other => .error .settingsRoot

/- The failure that a fault in a settings file is. -/
def failureOf
    (file : String) :
    Yaml.Fault → Failure
  | .malformed => .settings file
  | fault => .settingsValue fault

/- The settings that the text of a file makes. -/
def ofText
    (depths : Yaml.Depths)
    (file : String)
    (cs : List Char) : Except Failure Settings := do
  if cs.all isBlank then return standard
  ofContent (← (Yaml.load depths cs).mapError (failureOf file))

------------------------------------------------------------
-- Files
------------------------------------------------------------

/-
  The settings file that a path stands for: the one in a
  directory, or the file itself.
-/
def fileAt
    (fs : FileSystem)
    (p : Path) : Except PathFault Path := do
  let p ← fs.expandHome p
  let isDirectory ← fs.isDirectory? p
  fs.resolve (if isDirectory then p.child fileName else p)

/- Settings, and the directory that they hold for. -/
structure Located where
  root : Path
  settings : Settings

/- The settings that a path stands for. -/
def load
    (fs : FileSystem)
    (p : Path) : Except Failure Located := do
  let file ← (fileAt fs p).mapError .path
  let root ← (fs.resolve file.parent).mapError .path
  let isThere ← (fs.exists? file).mapError .path
  if !isThere then return ⟨root, standard⟩
  let bytes ← (fs.read file).mapError .path
  let cs ← (Utf8.decode bytes).mapError .decoding
  let text := LineBreak.unify cs
  return ⟨root, ← ofText fs.depths.yaml file.name text⟩

end Settings

end BiomeMigration
