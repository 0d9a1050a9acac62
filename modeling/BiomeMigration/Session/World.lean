import BiomeMigration.Failure
import BiomeMigration.Log.Logger

/-
  This file defines the world that a session acts in: the
  files, the logger, the lines that the user types, and a
  journal of what has happened. An operation of a session
  changes the world and may fail.

  Key definitions include:
    * `Event`
    * `World`
    * `Session`
    * `Session.log`
    * `Session.echo`
    * `Session.execute`
-/

namespace BiomeMigration

/-
  What happens in a session: a record is logged, text goes
  to standard error or to standard output, a text and a line
  break are printed, a prompt is shown, or a command is given
  to a shell. A command is kept with the files before it and
  after it.
-/
inductive Event where
  | record (r : Record)
  | console (text : Text)
  | output (text : String)
  | echo (text : Text)
  | ask (prompt : String)
  | run (command : Text) (before after : FileSystem)

/-
  The world of a session. A line that is none stands for an
  interrupt; after the last line the input is at its end.
-/
structure World where
  files : FileSystem
  logger : Logger
  lines : List (Option String)
  journal : List Event

/- A world in which nothing has happened. -/
def World.initial
    (files : FileSystem)
    (lines : List (Option String)) : World :=
  ⟨files, .initial, lines, []⟩

/- An operation of a session. -/
abbrev Session := ExceptT Failure (StateM World)

namespace Session

------------------------------------------------------------
-- Files
------------------------------------------------------------

/- The files as they are. -/
def files : Session FileSystem :=
  return (← get).files

/- The files become other ones. -/
def setFiles (fs : FileSystem) : Session Unit :=
  modify fun w => { w with files := fs }

/- The result of a function that may fail. -/
def ofExcept
    {α : Type}
    (result : Except Failure α) : Session α :=
  match result with
  | .ok a => pure a
  | .error failure => throw failure

/- The result of a look-up in the files. -/
def ofFiles
    {α : Type}
    (look : FileSystem → Except PathFault α) : Session α := do
  ofExcept ((look (← files)).mapError .path)

------------------------------------------------------------
-- Output
------------------------------------------------------------

/- Note what happens. -/
def note (event : Event) : Session Unit :=
  modify fun w => { w with journal := w.journal ++ [event] }

/- Write a record to the handlers of the logger. -/
def write (r : Record) : Session Unit := do
  note (.record r)
  let logger := (← get).logger
  let text := logger.consoleText r
  if !text.isEmpty then note (.console text)
  setFiles (logger.writeFiles r (← files))

/- Log a message. -/
def log
    (level : Level)
    (name : String)
    (message : Text) : Session Unit :=
  write ⟨level, Record.sourceOf name, message, none, none⟩

/-
  Print a text for the user, and a line break. A text that
  has no UTF-8 form is not printed.
-/
def echo (text : Text) : Session Unit :=
  match text.encode with
  | .ok _ => note (.echo text)
  | .error fault => throw (.encoding fault)

/- Configure the logger. -/
def configure
    (verbose : Bool)
    (target : LogTarget) : Session Unit := do
  let old := (← get).logger
  let (logger, fs, fault?) :=
    old.configure verbose target (← files)
  modify fun w => { w with logger := logger, files := fs }
  match fault? with
  | some (.path fault) => throw (.path fault)
  | some .nameless => throw .namelessLog
  | none => pure ()

------------------------------------------------------------
-- Commands
------------------------------------------------------------

/- Run a command in a shell. -/
def execute
    (shell : Shell)
    (command : Text) : Session CommandResult := do
  let before ← files
  let (result, after) := shell command before
  note (.run command before after)
  setFiles after
  ofExcept (result.mapError CommandFault.failure)

/- Announce a command and run it. -/
def command
    (shell : Shell)
    (command : Text) : Session CommandResult := do
  log .info "runner" (Text.ofString "> " ++ command)
  execute shell command

/- Run a command that has to succeed. -/
def check
    (shell : Shell)
    (command : Text) : Session Unit := do
  let result ← Session.command shell command
  if !result.ok then throw (.command result)

end Session

end BiomeMigration
