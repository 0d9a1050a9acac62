import BiomeMigration.Files.System
import BiomeMigration.Log.Record

/-
  This file defines the logger: the handlers that records
  go to, and its configuration, which replaces all handlers.

  Key definitions include:
    * `LogTarget`
    * `Handler`
    * `Logger`
    * `Logger.dismiss`
    * `Logger.configure`
    * `Logger.consoleText`
    * `Logger.writeFiles`
-/

namespace BiomeMigration

/- Where records go: to the console, or to a file. -/
inductive Handler where
  | console (threshold : Level)
  | file (location : Location)
  deriving DecidableEq

/-
  Where a user wants records: on the console alone, or in a
  file as well. The file may have been left without a name,
  which is a fault once it is to be opened.
-/
inductive LogTarget where
  | console
  | nameless
  | file (path : Path)
  deriving DecidableEq, Repr

/- Why a log file cannot be opened. -/
inductive LogFault where
  | nameless
  | path (fault : PathFault)
  deriving DecidableEq, Repr

/-
  A logger. Records below its threshold are dropped; without
  one it has not been configured. Records of an unconfigured
  logger also go on to other loggers, and no handler of any
  logger takes them.
-/
structure Logger where
  threshold? : Option Level
  handlers : List Handler
  propagates : Bool

namespace Logger

/- A logger that has not been configured. -/
def initial : Logger :=
  ⟨none, [], true⟩

/- The threshold of a verbose logger, or of a usual one. -/
def thresholdFor (verbose : Bool) : Level :=
  if verbose then .debug else .info

/- A logger that only writes to the console. -/
def plain (verbose : Bool) : Logger :=
  let threshold := thresholdFor verbose
  ⟨some threshold, [.console threshold], false⟩

/- A logger with one more handler. -/
def add
    (l : Logger)
    (handler : Handler) : Logger :=
  { l with handlers := l.handlers ++ [handler] }

/-
  Open a log file at its end and hold it open. The path is
  made absolute first.
-/
def openFile
    (fs : FileSystem)
    (p : Path) : Except PathFault (Location × FileSystem) := do
  let (loc, content) ← fs.openForWriting (fs.absolute p)
  let fs := fs.setFile loc content
  return (loc, { fs with opened := loc :: fs.opened })

/- A logger without one of its handlers. -/
def remove
    (l : Logger)
    (handler : Handler) : Logger :=
  { l with handlers := l.handlers.erase handler }

/- The files after a handler has been closed. -/
def close
    (fs : FileSystem) :
    Handler → FileSystem
  | .console _ => fs
  | .file loc => { fs with opened := fs.opened.erase loc }

/- Remove the handlers of a logger one by one; close each. -/
def dismiss
    (l : Logger)
    (fs : FileSystem) : Logger × FileSystem :=
  l.handlers.foldl
    (fun (l, fs) handler => (l.remove handler, close fs handler))
    (l, fs)

/-
  A configured logger with the files after it, and why its
  log file cannot be opened, if that is so. The old handlers
  are dismissed, and the console is set up in any case.
-/
def configure
    (l : Logger)
    (verbose : Bool)
    (target : LogTarget)
    (fs : FileSystem) : Logger × FileSystem × Option LogFault :=
  let threshold := thresholdFor verbose
  let l :=
    { l with threshold? := some threshold, propagates := false }
  let (l, fs) := l.dismiss fs
  let l := l.add (.console threshold)
  match target with
  | .console => (l, fs, none)
  | .nameless => (l, fs, some .nameless)
  | .file p =>
      match openFile fs p with
      | .ok (loc, fs) => (l.add (.file loc), fs, none)
      | .error fault => (l, fs, some (.path fault))

/- A logger that is dismissed has no handler left. -/
theorem dismiss_eq
    (l : Logger)
    (fs : FileSystem) :
    l.dismiss fs =
      ({ l with handlers := [] }, l.handlers.foldl close fs) := by
  rcases l with ⟨threshold?, handlers, propagates⟩
  unfold dismiss
  induction handlers generalizing fs with
  | nil => rfl
  | cons handler handlers ih =>
      have hFirst :
          Logger.remove
              ⟨threshold?, handler :: handlers, propagates⟩
              handler =
            ⟨threshold?, handlers, propagates⟩ := by
        unfold remove
        rw [List.erase_cons_head]
      simp only [List.foldl_cons, hFirst]
      exact ih (close fs handler)

/- Nothing of the old logger is left in a configured one. -/
theorem configure_eq
    (l : Logger)
    (verbose : Bool)
    (target : LogTarget)
    (fs : FileSystem) :
    l.configure verbose target fs =
      let fs := l.handlers.foldl close fs
      match target with
      | .console => (plain verbose, fs, none)
      | .nameless => (plain verbose, fs, some .nameless)
      | .file p =>
          match openFile fs p with
          | .ok (loc, fs) =>
              ((plain verbose).add (.file loc), fs, none)
          | .error fault =>
              (plain verbose, fs, some (.path fault)) := by
  unfold configure
  simp only [dismiss_eq]
  rfl

/- A record passes the threshold. -/
def accepts
    (l : Logger)
    (r : Record) : Bool :=
  l.threshold?.any r.level.passes

/- What a handler writes to the console. -/
def handlerText
    (r : Record) :
    Handler → Text
  | .console threshold =>
      if r.level.passes threshold then r.consoleLine else []
  | .file _ => []

/-
  What a record that no handler takes writes to the console:
  a bare warning, or nothing.
-/
def strayText (r : Record) : Text :=
  if r.level.passes .warning then r.line r.message else []

/- What a record writes to the console. -/
def consoleText
    (l : Logger)
    (r : Record) : Text :=
  if l.threshold?.isNone then strayText r
  else if l.accepts r then l.handlers.flatMap (handlerText r)
  else []

/-
  The files after a handler has written a record. A log
  file that is gone is not made again, and a new one in its
  place is not the handler's. A line that has no UTF-8 form
  is not written.
-/
def handlerFiles
    (r : Record)
    (fs : FileSystem) :
    Handler → FileSystem
  | .console _ => fs
  | .file loc =>
      match fs.root.at? loc, r.fileLine.encode with
      | some (.file old), .ok bytes =>
          if fs.opened.contains loc then
            fs.setFile loc (old ++ bytes)
          else fs
      | _, _ => fs

/-
  A handler leaves the files as they are, or adds a line to
  an open log file.
-/
theorem handlerFiles_cases
    (r : Record)
    (fs : FileSystem)
    (handler : Handler) :
    handlerFiles r fs handler = fs ∨
      ∃ loc old bytes,
        handler = .file loc ∧
          fs.root.at? loc = some (.file old) ∧
          loc ∈ fs.opened ∧
          r.fileLine.encode = .ok bytes ∧
          handlerFiles r fs handler =
            fs.setFile loc (old ++ bytes) := by
  fun_cases handlerFiles r fs handler with
  | case1 => exact Or.inl rfl
  | case2 loc old bytes hEncode hOld hOpened =>
      exact Or.inr
        ⟨loc, old, bytes, rfl, hOld, by simpa using hOpened,
          hEncode, rfl⟩
  | case3 => exact Or.inl rfl
  | case4 => exact Or.inl rfl

/- The files after a record has been written. -/
def writeFiles
    (l : Logger)
    (r : Record)
    (fs : FileSystem) : FileSystem :=
  if l.accepts r then l.handlers.foldl (handlerFiles r) fs else fs

end Logger

end BiomeMigration
