import BiomeMigration.Package.Archetype
import BiomeMigration.Package.ManifestFile

/-
  This file defines the configuration of Biome that a
  migration writes, for each kind of project.

  Key definitions include:
    * `Biome.dependency`
    * `Biome.configuration`
    * `Biome.write`
-/

namespace BiomeMigration

namespace Biome

/- The name of the configuration file. -/
def fileName : String := "biome.json"

/- The name of the package. -/
def package : String := "@biomejs/biome"

/- The package in a version, as a manager is asked for it. -/
def dependency (version : Text) : Text :=
  Text.ofString (package ++ "@") ++ version

/- The address of the schema of a version. -/
def schema (version : Text) : Text :=
  Text.ofString "https://biomejs.dev/schemas/" ++ version
    ++ Text.ofString "/schema.json"

------------------------------------------------------------
-- Parts
------------------------------------------------------------

/- A list of words. -/
def words (items : List String) : Json :=
  .array (items.map .ofString)

/- Names of a kind have one of some formats. -/
def convention
    (kind : String)
    (shape? : Option String)
    (formats : List String) : Json :=
  let shape :=
    match shape? with
    | some s => [("match", Json.ofString s)]
    | none => []
  .ofPairs <|
    [("selector", .ofPairs [("kind", .ofString kind)])]
      ++ shape
      ++ [("formats", words formats)]

/- The conventions for names. -/
def conventions : Json :=
  .array
    [convention "interface" (some "I(.*)|(.*?)Error")
        ["PascalCase"],
      convention "typeAlias" (some "T(.*)|(.*?)Error")
        ["PascalCase"],
      convention "objectLiteralProperty" none
        ["camelCase", "snake_case", "CONSTANT_CASE", "PascalCase"],
      convention "enum" (some "E(.*)|(.*?)Error") ["PascalCase"],
      convention "enumMember" none ["CONSTANT_CASE"]]

/- The style rules that are errors. -/
def styleRules : List String :=
  ["useTemplate", "useImportType", "noParameterAssign",
    "useAsConstAssertion", "useDefaultParameterLast",
    "useEnumInitializers", "useSelfClosingElements", "useConst",
    "useSingleVarDeclarator", "noUnusedTemplateLiteral",
    "useNumberNamespace", "noInferrableTypes", "noUselessElse"]

/- The style rules. -/
def style : Json :=
  .ofPairs <|
    styleRules.map (fun rule => (rule, .ofString "error"))
      ++ [("useNamingConvention",
        .ofPairs
          [("level", .ofString "error"),
            ("options",
              .ofPairs
                [("strictCase", .bool false),
                  ("conventions", conventions)])])]

/- The linter. -/
def linter : Json :=
  .ofPairs
    [("enabled", .bool true),
      ("rules",
        .ofPairs
          [("recommended", .bool true),
            ("style", style),
            ("correctness",
              .ofPairs
                [("noUnusedVariables", .ofString "warn"),
                  ("noUnusedImports", .ofString "error")])])]

/- The files that are looked at. -/
def includes : Json :=
  words
    ["**", "!**/dist/**", "!**/node_modules/**", "!**/.git/**",
      "!**/coverage/**"]

/- The groups that imports are sorted into. -/
def importGroups : Json :=
  .array
    [words [":URL:", ":NODE:", ":PACKAGE:"],
      .ofString ":BLANK_LINE:",
      words ["@/"]]

/- The actions that assist the user. -/
def assist : Json :=
  .ofPairs
    [("actions",
      .ofPairs
        [("source",
          .ofPairs
            [("organizeImports",
              .ofPairs
                [("level", .ofString "on"),
                  ("options",
                    .ofPairs [("groups", importGroups)])])])])]

/- The layout of all files. -/
def formatter : Json :=
  .ofPairs
    [("enabled", .bool true),
      ("indentStyle", .ofString "space"),
      ("indentWidth", .int 2),
      ("lineWidth", .int 80)]

/- The layout of JavaScript. -/
def javascript : Json :=
  .ofPairs
    [("formatter",
      .ofPairs
        [("indentStyle", .ofString "space"),
          ("indentWidth", .int 2),
          ("quoteStyle", .ofString "double"),
          ("semicolons", .ofString "asNeeded"),
          ("lineEnding", .ofString "lf")])]

/- Version control. -/
def vcs : Json :=
  .ofPairs
    [("enabled", .bool false),
      ("clientKind", .ofString "git"),
      ("useIgnoreFile", .bool false)]

/- Style sheets, for React projects. -/
def css : Json :=
  .ofPairs
    [("parser", .ofPairs [("tailwindDirectives", .bool true)])]

------------------------------------------------------------
-- The Whole
------------------------------------------------------------

/- The members that a kind of project adds. -/
def extras : Archetype → List (String × Json)
  | .react => [("css", css)]
  | .node => []

/- The configuration for a kind of project and a version. -/
def configuration
    (archetype : Archetype)
    (version : Text) : Json :=
  .ofPairs <|
    [("$schema", .string (schema version)),
      ("linter", linter),
      ("files", .ofPairs [("includes", includes)]),
      ("assist", assist),
      ("formatter", formatter),
      ("javascript", javascript),
      ("vcs", vcs)]
      ++ extras archetype

/- The text of a configuration, in ASCII. -/
def text
    (archetype : Archetype)
    (version : Text) : Text :=
  Json.print .ascii (configuration archetype version)
    ++ Text.ofString "\n"

/-
  Write the configuration of a project, unless there is
  one; say whether it was written.
-/
def write
    (root : Path)
    (archetype : Archetype)
    (version : Text) : Session Bool := do
  let p := root.child fileName
  if ← Session.ofFiles (·.exists? p) then
    Session.log .warning "synthesizer"
      "A biome.json file already exists. It will not be overwritten."
    return false
  Session.writeText p (text archetype version)
  Session.log .info "synthesizer"
    s!"Created biome.json for project type: {archetype.id}"
  return true

end Biome

end BiomeMigration
