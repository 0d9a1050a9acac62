import BiomeMigration.Text.CodePoint

/-
  This file defines log records: their levels, and the lines
  that they are written as.

  Key definitions include:
    * `Level`
    * `Level.named?`
    * `Record`
    * `Record.follow`
    * `Record.consoleLine`
    * `Record.fileLine`
-/

namespace BiomeMigration

------------------------------------------------------------
-- Levels
------------------------------------------------------------

/- How serious a record is. Any number is a level. -/
structure Level where
  rank : Int
  deriving DecidableEq, Repr

namespace Level

/- The level that is no level: a logger that has it asks others. -/
def unset : Level := ⟨0⟩

def debug : Level := ⟨10⟩

def info : Level := ⟨20⟩

def warning : Level := ⟨30⟩

def error : Level := ⟨40⟩

def critical : Level := ⟨50⟩

/- The levels that have names. -/
def names : List (Level × String) :=
  [(unset, "NOTSET"), (debug, "DEBUG"), (info, "INFO"),
    (warning, "WARNING"), (error, "ERROR"),
    (critical, "CRITICAL")]

/- The name of a level; a level without one shows its number. -/
def name (level : Level) : String :=
  (names.lookup level).getD s!"Level {level.rank}"

/- The levels that messages are logged at. -/
def all : List Level :=
  [.debug, .info, .warning, .error, .critical]

/- Other names that levels go by. -/
def otherNames : List (String × Level) :=
  [("WARN", .warning), ("FATAL", .critical)]

/- The level of a name. -/
def named? (name : String) : Option Level :=
  (all.find? (·.name == name)).or (otherNames.lookup name)

/- A record of a level passes a threshold. -/
def passes (level threshold : Level) : Bool :=
  threshold.rank ≤ level.rank

end Level

------------------------------------------------------------
-- Records
------------------------------------------------------------

/-
  A log record: where it comes from, its message, the
  failure that it reports, and the calls that led to it, if
  these are to be shown.
-/
structure Record where
  level : Level
  source : String
  message : Text
  cause? : Option Text
  stack? : Option Text
  deriving DecidableEq, Repr

namespace Record

/- The name that all sources start with. -/
def rootSource : String := "biomeup"

/- The full name of a source. -/
def sourceOf (name : String) : String :=
  if name == "" then rootSource else rootSource ++ "." ++ name

/-
  A text with more text behind it, which starts on a line of
  its own.
-/
def follow
    (text : Text)
    (more? : Option Text) : Text :=
  match more? with
  | none => text
  | some more =>
      if more.isEmpty then text
      else if text.getLast? == some (.scalar '\n') then text ++ more
      else text ++ .scalar '\n' :: more

/-
  The line that starts with a text, with the cause and the
  calls behind it.
-/
def line
    (r : Record)
    (start : Text) : Text :=
  follow (follow start r.cause?) r.stack? ++ Text.ofString "\n"

/-
  The start of a line on the console: the message alone for
  progress, and a mark of the level in front of everything
  else.
-/
def consoleStart (r : Record) : Text :=
  if r.level == .info && r.cause?.isNone then r.message
  else
    Text.ofString
        ("[" ++ rootSource ++ "] " ++ r.level.name ++ " ")
      ++ r.message

/- The line on the console. -/
def consoleLine (r : Record) : Text :=
  r.line r.consoleStart

/- The line in a log file, but for the time in front of it. -/
def fileLine (r : Record) : Text :=
  r.line
    (Text.ofString (r.level.name ++ " " ++ r.source ++ ": ")
      ++ r.message)

end Record

end BiomeMigration
