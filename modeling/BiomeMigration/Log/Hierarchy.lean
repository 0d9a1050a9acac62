import BiomeMigration.Log.Logger
import BiomeMigration.Log.Message

/-
  This file defines the loggers of a process as a hierarchy
  of names. A record goes to the handlers of the logger that
  it is logged at and of those above it, up to one that does
  not pass it on.

  Key definitions include:
    * `TopLogger`
    * `Hierarchy`
    * `Hierarchy.ancestors`
    * `Hierarchy.texts`
    * `Logging`
    * `Logging.configure`
    * `Logging.log`
    * `Logging.run`
-/

namespace BiomeMigration

------------------------------------------------------------
-- Loggers
------------------------------------------------------------

/-
  The logger above all others. It is not configured here, so
  that its handlers may write anything to the console.
-/
structure TopLogger where
  threshold : Level
  handlers : List (Record → Text)

/- A top logger that has not been configured. -/
def TopLogger.initial : TopLogger :=
  ⟨.warning, []⟩

/-
  The loggers of a process: the one above all others, the
  one that is configured, and the names of those that have
  been asked for. These have no threshold and no handlers of
  their own, and pass all records on.
-/
structure Hierarchy where
  top : TopLogger
  main : Logger
  names : List String

namespace Hierarchy

/- A name is that of a logger. -/
def has
    (h : Hierarchy)
    (name : String) : Bool :=
  name == Record.rootSource || h.names.contains name

/-
  The loggers above a name, nearest first; names are given
  from their ends to their starts. A name is above another
  one if a dot follows it there. When it is that of no
  logger, its last character is passed over, even if that is
  a dot as well.
-/
def namesAbove (isLogger : List Char → Bool) :
    List Char → List (List Char)
  | c :: d :: rest =>
      if c != '.' then namesAbove isLogger (d :: rest)
      else if isLogger (d :: rest) then
        (d :: rest) :: namesAbove isLogger (d :: rest)
      else namesAbove isLogger rest
  | _ => []

/- The names of the loggers above one, nearest first. -/
def ancestors
    (h : Hierarchy)
    (name : String) : List String :=
  let isLogger (cs : List Char) : Bool :=
    h.has (String.ofList cs.reverse)
  (namesAbove isLogger name.toList.reverse).map fun cs =>
    String.ofList cs.reverse

/- The logger of a name. -/
def loggerOf
    (h : Hierarchy)
    (name : String) : Logger :=
  if name == Record.rootSource then h.main else .initial

/- The loggers on the way of a record, but for the top one. -/
def way
    (h : Hierarchy)
    (source : String) : List Logger :=
  (source :: h.ancestors source).map h.loggerOf

/- The first threshold on the way of a record. -/
def threshold
    (h : Hierarchy)
    (source : String) : Level :=
  ((h.way source).findSome? Logger.threshold?).getD
    h.top.threshold

/-
  The handlers of the loggers that a record comes to, and
  whether it is passed on behind the last one.
-/
def carry : List Logger → List Handler × Bool
  | [] => ([], true)
  | l :: rest =>
      if l.propagates then
        let (handlers, passed) := carry rest
        (l.handlers ++ handlers, passed)
      else (l.handlers, false)

/-
  The texts that a record writes to the console, in order. A
  record that comes to no handler is a stray one.
-/
def texts
    (h : Hierarchy)
    (r : Record) : List Text :=
  if r.level.passes (h.threshold r.source) then
    let (handlers, passed) := carry (h.way r.source)
    let others := if passed then h.top.handlers else []
    let written :=
      if handlers.isEmpty && others.isEmpty then
        [Logger.strayText r]
      else
        handlers.map (Logger.handlerText r) ++ others.map (· r)
    written.filter (!·.isEmpty)
  else []

/- The files after a record has been written. -/
def writeFiles
    (h : Hierarchy)
    (r : Record)
    (fs : FileSystem) : FileSystem :=
  if r.level.passes (h.threshold r.source) then
    (carry (h.way r.source)).1.foldl (Logger.handlerFiles r) fs
  else fs

end Hierarchy

------------------------------------------------------------
-- Calls
------------------------------------------------------------

/- The loggers of a process, and the files that it sees. -/
structure Logging where
  loggers : Hierarchy
  files : FileSystem

/-
  What is done with loggers: the main one is configured, one
  is asked for by its name, or a message is logged at one,
  with the arguments to fill into it, the failure that it
  reports, and the calls that led to it, if these are to be
  shown.
-/
inductive LogCall where
  | configure (verbose : Bool) (target : LogTarget)
  | obtain (name : String)
  | log
      (name : String)
      (level : Level)
      (message : Text)
      (args : Message.Arguments)
      (cause? stack? : Option Text)

namespace Logging

/- Nothing has been configured or asked for. -/
def initial (files : FileSystem) : Logging :=
  ⟨⟨.initial, .initial, []⟩, files⟩

/- Configure the main logger. -/
def configure
    (s : Logging)
    (verbose : Bool)
    (target : LogTarget) : Logging × Option LogFault :=
  let (main, files, fault?) :=
    s.loggers.main.configure verbose target s.files
  (⟨{ s.loggers with main := main }, files⟩, fault?)

/- Ask for the logger of a name. -/
def obtain
    (s : Logging)
    (name : String) : Logging :=
  { s with
    loggers :=
      { s.loggers with
        names := Record.sourceOf name :: s.loggers.names } }

/-
  Log a message at the logger of a name; give the texts that
  this writes to the console. Arguments that do not fit into
  the message leave it unwritten.
-/
def log
    (s : Logging)
    (name : String)
    (level : Level)
    (message : Text)
    (args : Message.Arguments)
    (cause? stack? : Option Text) : Logging × List Text :=
  let s := s.obtain name
  match args.fill? message with
  | none => (s, [])
  | some message =>
      let r : Record :=
        ⟨level, Record.sourceOf name, message, cause?, stack?⟩
      ({ s with files := s.loggers.writeFiles r s.files },
        s.loggers.texts r)

/- The loggers and the files after a call. -/
def after (s : Logging) : LogCall → Logging
  | .configure verbose target => (s.configure verbose target).1
  | .obtain name => s.obtain name
  | .log name level message args cause? stack? =>
      (s.log name level message args cause? stack?).1

/- The loggers and the files after some calls. -/
def run
    (s : Logging)
    (calls : List LogCall) : Logging :=
  calls.foldl after s

end Logging

end BiomeMigration
