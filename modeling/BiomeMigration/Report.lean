import BiomeMigration.Package.Archetype
import BiomeMigration.Package.Manager

/-
  This file defines the texts that a migration shows at its
  start and at its end.

  Key definitions include:
    * `Report.banner`
    * `Summary`
    * `Summary.text`
-/

namespace BiomeMigration

namespace Report

/- The width of a heading. -/
def width : Nat := 47

/- A line that rules a heading off. -/
def ruler : String :=
  String.ofList (List.replicate width '=')

/- A title in the middle of a line. -/
def centred (title : String) : String :=
  let left := (width - title.length) / 2
  String.ofList (List.replicate left ' ') ++ title

/- A heading. -/
def heading (title : String) : List Text :=
  ["", ruler, centred title, ruler, ""]

/- Some lines as a text. -/
def lines (ls : List Text) : Text :=
  ls.flatMap (· ++ Text.ofString "\n")

/- The text at the start. -/
def banner : Text :=
  lines (heading "Biome Migration Assistant")

end Report

/- The numbers of a summary. -/
structure Figures where
  scanned : Int
  updated : Int
  removed : Int
  deriving DecidableEq, Repr

/- What is said at the end of a migration. -/
structure Summary where
  archetype : Archetype
  manager : Manager
  version : Text
  legacy : List Text
  legacyRemoved : Bool
  configWritten : Bool
  typescript : Bool
  figures : Figures
  deriving DecidableEq, Repr

namespace Summary

/- A word for yes or no. -/
def yesNo (b : Bool) : String :=
  if b then "yes" else "no"

/- The lines on the packages of the old tools. -/
def legacyLines (s : Summary) : List Text :=
  let count :=
    Text.ofString
      s!"Legacy ESLint/Prettier packages found: {s.legacy.length}"
  if s.legacy.isEmpty then [count]
  else
    [count,
      Text.ofString
        ("Legacy packages removed: " ++ yesNo s.legacyRemoved)]

/- The text of a summary. -/
def text (s : Summary) : Text :=
  let created := if s.configWritten then "yes" else "no (already present)"
  Report.lines <|
    Report.heading "Summary"
      ++ [Text.ofString ("Project type: " ++ s.archetype.id),
        Text.ofString ("Package manager: " ++ s.manager.id),
        Text.ofString "Biome version: " ++ s.version,
        Text.ofString ("TypeScript: " ++ yesNo s.typescript),
        Text.ofString ""]
      ++ s.legacyLines
      ++ [Text.ofString ("biome.json created: " ++ created),
        s!"Files scanned for ESLint comments: {s.figures.scanned}",
        s!"Files updated: {s.figures.updated}",
        s!"ESLint directive comments removed: {s.figures.removed}",
        "",
        "Next steps:",
        Text.ofString ("  " ++ s.manager.lint),
        Text.ofString ("  " ++ s.manager.lintFix)]

end Summary

end BiomeMigration
