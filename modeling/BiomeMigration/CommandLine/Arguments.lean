import BiomeMigration.CommandLine.Option
import BiomeMigration.Log.Logger

/-
  This file defines the reading of a command line: options
  are taken from left to right, and one argument is the
  path of the project.

  Key definitions include:
    * `CommandLine.Dialect`
    * `CommandLine.Arguments`
    * `CommandLine.Request`
    * `CommandLine.parse`
    * `CommandLine.usage`
    * `CommandLine.help`
-/

namespace BiomeMigration

namespace CommandLine

/-
  How command lines are read, which has changed with time.
  Two dashes written to an option are its value, or they are
  none. Letters behind a short option that are no options are
  left over, and are none if an equals sign or a dash comes
  first; or else whatever is written there is letters, and
  each of them has to be an option.
-/
structure Dialect where
  keepsDashes : Bool
  leavesLetters : Bool
  deriving DecidableEq, Repr

/- What a command line asks for. -/
structure Arguments where
  path : String
  verbose : Bool
  yes : Bool
  version? : Option String
  skipFix : Bool
  log : LogTarget
  deriving DecidableEq, Repr

/- What an empty command line asks for. -/
def Arguments.standard : Arguments where
  path := "."
  verbose := false
  yes := false
  version? := none
  skipFix := false
  log := .console

/- A command line asks for help, or for a migration. -/
inductive Request where
  | help
  | migrate (args : Arguments)
  deriving DecidableEq, Repr

------------------------------------------------------------
-- Options
------------------------------------------------------------

/-
  The arguments with an option applied. Where two dashes are
  no value, they ask for no version, and for a log file that
  has no name.
-/
def Arguments.apply
    (d : Dialect)
    (args : Arguments)
    (switch : Switch)
    (value : String) : Arguments :=
  let isNone := !d.keepsDashes && value == "--"
  match switch with
  | .help => args
  | .verbose => { args with verbose := true }
  | .yes => { args with yes := true }
  | .biomeVersion =>
      { args with version? := if isNone then none else some value }
  | .skipFix => { args with skipFix := true }
  | .logFile =>
      { args with
        log :=
          if isNone then .nameless else .file (.ofString value) }

/-
  The options that a word stands for, in order, and the word
  that is left over of it, if any.
-/
structure Expansion where
  switches : List Switch
  rest? : Option String
  deriving DecidableEq, Repr

/-
  An option that takes no value, with something behind it
  that does not start with the letter of an option.
-/
def strayLetters
    (d : Dialect)
    (switch : Switch)
    (cs : List Char) : Except Refusal Expansion :=
  if d.leavesLetters then
    match cs with
    | '=' :: value => .error (.ignored switch (String.ofList value))
    | '-' :: _ => .error (.ignored switch (String.ofList cs))
    | _ => .ok ⟨[switch], some (String.ofList ('-' :: cs))⟩
  else .error (.ignored switch (String.ofList cs))

/-
  An option that takes no value, with the letters written
  to it: each of them may be an option of one letter.
-/
def letters
    (d : Dialect)
    (switch : Switch) :
    List Char → Except Refusal Expansion
  | [] => .ok ⟨[switch], none⟩
  | c :: rest =>
      match Switch.ofName? (String.ofList ['-', c]) with
      | some next => do
          let more ← letters d next rest
          return { more with switches := switch :: more.switches }
      | none => strayLetters d switch (c :: rest)

/- The options that an option without a value stands for. -/
def expand
    (d : Dialect)
    (switch : Switch)
    (name : String)
    (suffix? : Option Suffix) : Except Refusal Expansion :=
  match suffix? with
  | none => .ok ⟨[switch], none⟩
  | some suffix =>
      let isShort := name.toList.length == 2
      if isShort && suffix.text != "" then
        match suffix with
        | .letters text => letters d switch text.toList
        | .value text =>
            if d.leavesLetters then .error (.ignored switch text)
            else letters d switch text.toList
      else .error (.ignored switch suffix.text)

------------------------------------------------------------
-- Words
------------------------------------------------------------

/-
  What the last word was: an option that waits for its
  value, the path, or anything else.
-/
inductive Last where
  | switch (s : Switch)
  | path
  | other
  deriving DecidableEq, Repr

/-
  The state of a reading: the arguments so far, whether the
  path has been given, what the last word was, and the
  words that are left over.
-/
structure Progress where
  args : Arguments
  hasPath : Bool
  last : Last
  extras : List String

namespace Progress

/- The start of a reading. -/
def initial : Progress :=
  ⟨.standard, false, .other, []⟩

/- A word that is left over. -/
def leave
    (p : Progress)
    (word : String) : Progress :=
  { p with extras := p.extras ++ [word], last := .other }

/- An option with its value. -/
def apply
    (d : Dialect)
    (p : Progress)
    (switch : Switch)
    (value : String) : Progress :=
  { p with args := p.args.apply d switch value, last := .other }

/- Options that take no value, and what is left over of them. -/
def applyAll
    (d : Dialect)
    (p : Progress)
    (e : Expansion) : Progress :=
  let p := e.switches.foldl (fun p s => p.apply d s "") p
  match e.rest? with
  | some word => p.leave word
  | none => p

/- A word that is the path, unless that has been given. -/
def place
    (p : Progress)
    (word : String) : Progress :=
  if p.hasPath then p.leave word
  else
    { p with
      args := { p.args with path := word }
      hasPath := true
      last := .path }

/-
  Two dashes are dropped in front of the path and next to
  it.
-/
def dashes (p : Progress) : Progress :=
  if p.hasPath && p.last != .path then p.leave "--"
  else { p with last := .other }

/- The end of a reading. No word may be left over. -/
def finish (p : Progress) : Except Refusal Request :=
  match p.last with
  | .switch s => .error (.missing s)
  | _ =>
      if p.extras.isEmpty then .ok (.migrate p.args)
      else .error (.unrecognized p.extras)

end Progress

/-
  Read words from left to right. A request for help ends
  the reading.
-/
def readWords
    (d : Dialect)
    (p : Progress) :
    List Word → Except Refusal Request
  | [] => p.finish
  | word :: rest =>
      match p.last, word with
      | .switch s, .argument value => readWords d (p.apply d s value) rest
      | .switch s, _ => .error (.missing s)
      | _, .argument text => readWords d (p.place text) rest
      | _, .dashes => readWords d p.dashes rest
      | _, .unknown text => readWords d (p.leave text) rest
      | _, .option switch name suffix? =>
          if switch.takesValue then
            match suffix? with
            | some suffix =>
                readWords d (p.apply d switch suffix.text) rest
            | none => readWords d { p with last := .switch switch } rest
          else
            match expand d switch name suffix? with
            | .error refusal => .error refusal
            | .ok e =>
                if e.switches.contains .help then .ok .help
                else readWords d (p.applyAll d e) rest

/- The request of a command line. -/
def parse
    (d : Dialect)
    (words : List String) : Except Refusal Request := do
  readWords d .initial (← Word.ofStrings words)

------------------------------------------------------------
-- Texts
------------------------------------------------------------

/- How the program is used. -/
def usage : String :=
  "usage: biomeup [-h] [-v] [-y] [--biome-version BIOME_VERSION] [--skip-fix]\n"
    ++ "               [--log-file LOG_FILE]\n"
    ++ "               [path]\n"

/- The help text. -/
def help : String :=
  usage
    ++ "\n"
    ++ "Migrate a JavaScript/TypeScript project from ESLint/Prettier to Biome.\n"
    ++ "\n"
    ++ "positional arguments:\n"
    ++ "  path                  Path to the project root (defaults to current\n"
    ++ "                        directory).\n"
    ++ "\n"
    ++ "options:\n"
    ++ "  -h, --help            show this help message and exit\n"
    ++ "  -v, --verbose         Increase log verbosity for troubleshooting.\n"
    ++ "  -y, --yes             Accept the default answer to every question without\n"
    ++ "                        prompting.\n"
    ++ "  --biome-version BIOME_VERSION\n"
    ++ "                        Biome version to install and reference in biome.json.\n"
    ++ "  --skip-fix            Do not run the lint:fix script after migrating.\n"
    ++ "  --log-file LOG_FILE   Also write log output to this file.\n"

/- What is shown when a command line is refused. -/
def complaint (refusal : Refusal) : String :=
  usage ++ "biomeup: error: " ++ refusal.message ++ "\n"

end CommandLine

end BiomeMigration
