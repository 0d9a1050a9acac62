import BiomeMigration.Files.System

/-
  This file defines shells, which run commands in a file
  system, what a command reports, and which commands the
  system cannot be given.

  Key definitions include:
    * `CommandResult`
    * `CommandFault`
    * `Shell`
    * `Shell.guarded`
-/

namespace BiomeMigration

/-
  The result of a command: its exit code if it ended with
  one, and what kept it from running, if something did.
-/
structure CommandResult where
  command : Text
  exitCode? : Option Int
  error? : Option String
  deriving DecidableEq, Repr

namespace CommandResult

/- The command ran and succeeded. -/
def ok (r : CommandResult) : Bool :=
  r.exitCode? == some 0 && r.error?.isNone

/- What is said about a command that did not succeed. -/
def message (r : CommandResult) : Text :=
  let reason :=
    match r.exitCode?, r.error? with
    | some code, _ => s!" (exit code {code})"
    | none, some error => if error == "" then "" else s!" ({error})"
    | none, none => ""
  Text.ofString "Command failed: " ++ r.command
    ++ Text.ofString reason

end CommandResult

/-
  Why a command has no result: the system has no bytes for
  it, or one of them is NUL, or it is interrupted.
-/
inductive CommandFault where
  | unencodable (fault : Text.Fault)
  | nul
  | interrupted
  deriving DecidableEq, Repr

/-
  A shell: the result of a command, or why there is none,
  and the files after it.
-/
abbrev Shell :=
  Text → FileSystem → Except CommandFault CommandResult × FileSystem

namespace Shell

/- The bytes of a command, as the system is given it. -/
def bytesOf (command : Text) : Except CommandFault Bytes := do
  let bytes ← command.encodeForSystem.mapError .unencodable
  if bytes.contains 0 then .error .nul else .ok bytes

/- The shell for the commands that the system can be given. -/
def guarded (shell : Shell) : Shell :=
  fun command fs =>
    match bytesOf command with
    | .error fault => (.error fault, fs)
    | .ok _ => shell command fs

end Shell

end BiomeMigration
