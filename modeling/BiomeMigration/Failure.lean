import BiomeMigration.Json.Parser
import BiomeMigration.Shell
import BiomeMigration.Yaml.Fault

/-
  This file defines why an operation fails, the wording of
  a failure, the name of its kind, and which failures a
  user is expected to meet.

  Key definitions include:
    * `Failure`
    * `Failure.kind`
    * `Failure.message`
    * `Failure.isExpected`
-/

namespace BiomeMigration

/-
  Why an operation fails. A word that names no archetype is
  given in the form that messages quote it in.
-/
inductive Failure where
  | path (fault : PathFault)
  | decoding (fault : Utf8.Fault)
  | encoding (fault : Text.Fault)
  | nesting (container : Json.Container)
  | noManifest
  | manifest (cause : String)
  | manifestRoot
  | notDirectory (path : String)
  | command (result : CommandResult)
  | nulCommand
  | settings (file : String)
  | settingsRoot
  | settingsValue (fault : Yaml.Fault)
  | longNumber
  | archetype (quoted : String)
  | namelessLog
  | interrupted

/- The failure that a command without a result is. -/
def CommandFault.failure : CommandFault → Failure
  | .unencodable fault => .encoding fault
  | .nul => .nulCommand
  | .interrupted => .interrupted

namespace Failure

------------------------------------------------------------
-- Kinds
------------------------------------------------------------

/- The kind of a refusal of the file system. -/
def problemKind : Problem → String
  | .noEntry => "FileNotFoundError"
  | .notDirectory => "NotADirectoryError"
  | .isDirectory => "IsADirectoryError"
  | .nameTooLong => "OSError"
  | .tooManyLinks => "OSError"

/- The kind of a fault of a path. -/
def pathKind : PathFault → String
  | .refused problem _ => problemKind problem
  | .nul => "ValueError"
  | .linkLoop _ => "RuntimeError"
  | .homeless => "RuntimeError"
  | .tooDeep => "RecursionError"

/- The kind of a fault of a setting's value. -/
def valueKind : Yaml.Fault → String
  | .malformed => "ConfigError"
  | .codePoint n => if n < 2 ^ 31 then "ValueError" else "OverflowError"
  | .tooDeep => "RecursionError"
  | .contentTooDeep => "RecursionError"
  | .mergesTooDeep => "RecursionError"
  | .noDigits => "IndexError"
  | .integer _ _ => "ValueError"
  | .longInteger _ => "ValueError"
  | .number _ => "ValueError"
  | .largeNumber => "OverflowError"
  | .truth _ => "KeyError"
  | .time => "AttributeError"
  | .timeMapping => "TypeError"
  | .timePart _ => "ValueError"
  | .offset _ _ => "ValueError"

/- The name of the kind of a failure. -/
def kind : Failure → String
  | .path fault => pathKind fault
  | .decoding _ => "UnicodeDecodeError"
  | .encoding _ => "UnicodeEncodeError"
  | .nesting _ => "RecursionError"
  | .noManifest => "ManifestError"
  | .manifest _ => "ManifestError"
  | .manifestRoot => "ManifestError"
  | .notDirectory _ => "NotADirectoryError"
  | .command _ => "CommandError"
  | .nulCommand => "ValueError"
  | .settings _ => "ConfigError"
  | .settingsRoot => "ConfigError"
  | .settingsValue fault => valueKind fault
  | .longNumber => "ValueError"
  | .archetype _ => "ValueError"
  | .namelessLog => "TypeError"
  | .interrupted => "KeyboardInterrupt"

------------------------------------------------------------
-- Wording
------------------------------------------------------------

/- The wording of a failure. -/
def message : Failure → Text
  | .path fault => fault.message
  | .decoding fault => fault.message
  | .encoding fault => fault.message
  | .nesting container => Json.Fault.message [] (.tooDeep container)
  | .noManifest =>
      "No package.json found."
        ++ " Please run this command in your project root."
  | .manifest cause =>
      "Could not read or parse package.json: " ++ cause
  | .manifestRoot =>
      "Could not read or parse package.json:"
        ++ " expected a JSON object at the root"
  | .notDirectory root =>
      "Project path is not a directory: " ++ root
  | .command result => result.message
  | .nulCommand => "embedded null byte"
  | .settings file => "Failed to parse " ++ file
  | .settingsRoot => ".biomeup.yml must contain a mapping at the root"
  | .settingsValue fault => fault.message
  | .longNumber =>
      s!"Exceeds the limit ({Digit.limit} digits) for integer"
        ++ " string conversion; use sys.set_int_max_str_digits()"
        ++ " to increase the limit"
  | .archetype quoted =>
      quoted ++ " is not a valid ProjectArchetype"
  | .namelessLog =>
      "expected str, bytes or os.PathLike object, not list"
  | .interrupted => ""

/-
  A failure that a user is expected to meet: it is reported
  by its wording alone.
-/
def isExpected : Failure → Bool
  | .noManifest => true
  | .manifest _ => true
  | .manifestRoot => true
  | .command _ => true
  | .settings _ => true
  | .settingsRoot => true
  | _ => false

end Failure

end BiomeMigration
