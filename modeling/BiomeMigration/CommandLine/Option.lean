import BiomeMigration.Text.CodePoint
import BiomeMigration.Text.Digit
import BiomeMigration.Text.Quoted

/-
  This file defines the options of the command line, and
  how a word of the command line is told to be an option,
  which may be cut short as long as it stays unambiguous.

  Key definitions include:
    * `CommandLine.Switch`
    * `CommandLine.Refusal`
    * `CommandLine.Word`
    * `CommandLine.Word.ofString`
-/

namespace BiomeMigration

namespace CommandLine

------------------------------------------------------------
-- Options
------------------------------------------------------------

/- An option. -/
inductive Switch where
  | help
  | verbose
  | yes
  | biomeVersion
  | skipFix
  | logFile
  deriving DecidableEq, Repr

namespace Switch

/- All options. -/
def all : List Switch :=
  [.help, .verbose, .yes, .biomeVersion, .skipFix, .logFile]

/- The names of an option. -/
def names : Switch → List String
  | .help => ["-h", "--help"]
  | .verbose => ["-v", "--verbose"]
  | .yes => ["-y", "--yes"]
  | .biomeVersion => ["--biome-version"]
  | .skipFix => ["--skip-fix"]
  | .logFile => ["--log-file"]

/- The option takes a value. -/
def takesValue : Switch → Bool
  | .biomeVersion => true
  | .logFile => true
  | _ => false

/- All names of options, each with its option. -/
def named : List (String × Switch) :=
  all.flatMap fun s => s.names.map (·, s)

/- The option of a name. -/
def ofName? (name : String) : Option Switch :=
  named.lookup name

end Switch

------------------------------------------------------------
-- Refusals
------------------------------------------------------------

/- Why a command line is refused. -/
inductive Refusal where
  | ambiguous (word : String) (names : List String)
  | ignored (switch : Switch) (value : String)
  | missing (switch : Switch)
  | unrecognized (words : List String)
  deriving DecidableEq, Repr

namespace Refusal

/- The wording of a refusal. -/
def message : Refusal → String
  | .ambiguous word names =>
      "ambiguous option: " ++ word ++ " could match "
        ++ ", ".intercalate names
  | .ignored switch value =>
      "argument " ++ "/".intercalate switch.names
        ++ ": ignored explicit argument " ++ Quoted.text value
  | .missing switch =>
      "argument " ++ "/".intercalate switch.names
        ++ ": expected one argument"
  | .unrecognized words =>
      "unrecognized arguments: " ++ " ".intercalate words

end Refusal

------------------------------------------------------------
-- Words
------------------------------------------------------------

/-
  What is written to the name of an option: a text behind an
  equals sign, or one right behind the name.
-/
inductive Suffix where
  | value (text : String)
  | letters (text : String)
  deriving DecidableEq, Repr

/- The text of a suffix. -/
def Suffix.text : Suffix → String
  | .value text => text
  | .letters text => text

/-
  A word of the command line: an argument, the two dashes
  that end the options, or an option with its name and what
  is written to it; an unknown option has no switch.
-/
inductive Word where
  | argument (text : String)
  | dashes
  | option (switch : Switch) (name : String) (suffix? : Option Suffix)
  | unknown (text : String)
  deriving DecidableEq, Repr

namespace Word

/- The text before the first equals sign, and the value after it. -/
def splitValue (cs : List Char) : List Char × Option Suffix :=
  match cs.dropWhile (· != '=') with
  | _ :: value =>
      (cs.takeWhile (· != '='), some (.value (String.ofList value)))
  | [] => (cs, none)

/- The options whose long name starts with a text. -/
def longMatches (cs : List Char) : List Word :=
  let (lead, value?) := splitValue cs
  Switch.named.filterMap fun (name, switch) =>
    if lead.isPrefixOf name.toList then
      some (.option switch name value?)
    else none

/-
  The options that a text with a single dash may mean: a
  short one with more letters after it, or one whose name
  starts with the text.
-/
def shortMatches (cs : List Char) : List Word :=
  Switch.named.filterMap fun (name, switch) =>
    if name.toList == cs.take 2 then
      some (.option switch name
        (some (.letters (String.ofList (cs.drop 2)))))
    else if cs.isPrefixOf name.toList then
      some (.option switch name none)
    else none

/- A digit of any script. -/
def isDigit (c : Char) : Bool :=
  (digitValue? c).isSome

/-
  A negative number, which is an argument. A line feed may
  end it.
-/
def isNegative (cs : List Char) : Bool :=
  match cs with
  | '-' :: digits =>
      let number :=
        if digits.getLast? == some '\n' then digits.dropLast
        else digits
      let ending := number.dropWhile isDigit
      match ending with
      | [] => !number.isEmpty
      | '.' :: decimals => !decimals.isEmpty && decimals.all isDigit
      | _ => false
  | _ => false

/- A word in front of any two dashes. -/
def ofString (s : String) : Except Refusal Word :=
  let cs := s.toList
  match cs with
  | '-' :: second :: _ =>
      let (lead, value?) := splitValue cs
      match Switch.ofName? s, Switch.ofName? (String.ofList lead) with
      | some switch, _ => .ok (.option switch s none)
      | none, some switch =>
          .ok (.option switch (String.ofList lead) value?)
      | none, none =>
          let found :=
            if second == '-' then longMatches cs else shortMatches cs
          match found with
          | [word] => .ok word
          | [] =>
              if isNegative cs || cs.contains ' ' then
                .ok (.argument s)
              else .ok (.unknown s)
          | words =>
              .error <| .ambiguous s <| words.filterMap fun
                | .option _ name _ => some name
                | _ => none
  | _ => .ok (.argument s)

/- All words; after two dashes they are arguments. -/
def ofStrings : List String → Except Refusal (List Word)
  | [] => .ok []
  | s :: rest =>
      if s == "--" then .ok (.dashes :: rest.map .argument)
      else do
        let word ← ofString s
        return word :: (← ofStrings rest)

end Word

end CommandLine

end BiomeMigration
