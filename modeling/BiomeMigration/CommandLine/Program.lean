import BiomeMigration.CommandLine.Arguments
import BiomeMigration.Migration

/-
  This file defines the program: what a command line does to
  the world, its exit code, and what it prints.

  Key definitions include:
    * `CommandLine.settingsFor`
    * `CommandLine.migrate`
    * `CommandLine.guarded`
    * `CommandLine.run`
    * `World.standardOutput`
    * `World.standardError`
-/

namespace BiomeMigration

namespace CommandLine

/- The settings of a project, as the options change them. -/
def settingsFor
    (args : Arguments)
    (s : Settings) : Settings :=
  let version :=
    match args.version? with
    | some version =>
        if version == "" then s.version else Text.ofString version
    | none => s.version
  { s with
    version := version
    runFix := s.runFix && !args.skipFix }

/- Configure the logger and migrate the project. -/
def migrate
    (args : Arguments)
    (shell : Shell) : Session Unit := do
  Session.configure args.verbose args.log
  let path := Path.ofString args.path
  let located ←
    Session.ofExcept (Settings.load (← Session.files) path)
  let m ←
    Migration.prepare path (some (settingsFor args located.settings))
      args.yes
  discard (m.run shell.guarded)

/- How a failure is logged. -/
def recordOf (failure : Failure) : Record :=
  let record (message : Text) (cause? : Option Text) : Record :=
    ⟨.error, Record.sourceOf "cli", message, cause?, none⟩
  match failure with
  | .interrupted => record "Interrupted." none
  | failure =>
      if failure.isExpected then record failure.message none
      else
        record "Unexpected error while running Biome setup:"
          (some
            (Text.ofString (failure.kind ++ ": ") ++ failure.message))

/- The exit code of an operation; a failure is logged. -/
def guarded (action : Session Unit) : StateM World Nat := do
  match ← ExceptT.run action with
  | .ok () => return 0
  | .error failure =>
      discard (ExceptT.run (Session.write (recordOf failure)))
      return 1

/- Print a text as it is. -/
def printed (event : Event) : StateM World Unit :=
  discard (ExceptT.run (Session.note event))

/- Run the program; give its exit code. -/
def run
    (d : Dialect)
    (argv : List String)
    (shell : Shell) : StateM World Nat := do
  match parse d argv with
  | .error refusal =>
      printed (.console (Text.ofString (complaint refusal)))
      return 2
  | .ok .help =>
      printed (.output help)
      return 0
  | .ok (.migrate args) => guarded (migrate args shell)

end CommandLine

namespace World

/- What has been printed on standard output. -/
def standardOutput (w : World) : String :=
  String.join <| w.journal.map fun
    | .echo text => text.escaped ++ "\n"
    | .ask prompt => prompt
    | .output text => text
    | _ => ""

/- What has been printed on standard error. -/
def standardError (w : World) : String :=
  String.join <| w.journal.map fun
    | .console text => text.escaped
    | _ => ""

/- The commands that have been run. -/
def commands (w : World) : List Text :=
  w.journal.filterMap fun
    | .run command _ _ => some command
    | _ => none

end World

end BiomeMigration
