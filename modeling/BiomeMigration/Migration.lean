import BiomeMigration.Biome
import BiomeMigration.Package.Legacy
import BiomeMigration.Probe
import BiomeMigration.Report
import BiomeMigration.Scrub
import BiomeMigration.Session.Prompt
import BiomeMigration.Settings

/-
  This file defines the migration of a project from ESLint
  and Prettier to Biome, step by step.

  Key definitions include:
    * `Migration`
    * `Migration.Survey`
    * `Migration.Outcome`
    * `Migration.run`
-/

namespace BiomeMigration

/-
  A migration of the project in a directory. One who accepts
  every default answer is not asked.
-/
structure Migration where
  root : Path
  settings : Settings
  assumeYes : Bool

namespace Migration

------------------------------------------------------------
-- What is Found and Decided
------------------------------------------------------------

/- What is found out about a project. -/
structure Survey where
  manager : Manager
  legacy : List Text
  archetype : Archetype

/- What the user wants. -/
structure Decisions where
  removeLegacy : Bool
  cleanComments : Bool
  deriving DecidableEq, Repr

/- The result of a migration. -/
structure Outcome where
  summary : Summary
  report : Scrub.Report

/- Log a step. -/
def say (message : Text) : Session Unit :=
  Session.log .info "orchestrator" message

/- Log what the user should look at. -/
def warn (message : Text) : Session Unit :=
  Session.log .warning "orchestrator" message

/- Names with commas between them. -/
def listing (names : List Text) : Text :=
  Text.join ", " names

/- Look at the manifest and around the project. -/
def survey (m : Migration) : Session Survey := do
  let manifest ←
    Session.ofExcept (Manifest.read (← Session.files) m.root)
  let manager ← Probe.detect m.root
  return ⟨manager, Legacy.packages manifest, .ofManifest manifest⟩

/- Tell the user what was found. -/
def present (s : Survey) : Session Unit := do
  Session.echo Report.banner
  say s!"Detected package manager: {s.manager.id}"
  say s!"Found ESLint/Prettier related packages: {s.legacy.length}"
  if !s.legacy.isEmpty then
    say (Text.ofString "  " ++ listing s.legacy)
  say s!"Project type selected: {s.archetype.id}"

------------------------------------------------------------
-- Questions
------------------------------------------------------------

/- The question about the packages of the old tools. -/
def removalQuestion : Question where
  message :=
    "Remove all ESLint/Prettier related packages from"
      ++ " package.json and node_modules?"
  default := true

/- The question about directive comments. -/
def cleaningQuestion : Question where
  message :=
    "Remove ESLint directive comments from project files?"
  default := true

/- A choice of the settings, or the answer to a question. -/
def decide
    (m : Migration)
    (choice? : Option Bool)
    (q : Question) : Session Bool :=
  match choice? with
  | some choice => return choice
  | none => q.confirm m.assumeYes

/-
  Find out what the user wants. Nothing is asked about
  packages that are not there.
-/
def consult
    (m : Migration)
    (s : Survey) : Session Decisions := do
  let removeLegacy ←
    if s.legacy.isEmpty then pure false
    else m.decide m.settings.removeLegacy? removalQuestion
  let cleanComments ←
    m.decide m.settings.cleanComments? cleaningQuestion
  return ⟨removeLegacy, cleanComments⟩

------------------------------------------------------------
-- Changes
------------------------------------------------------------

/-
  Remove the packages of the old tools, and then their
  settings from the manifest as it has become.
-/
def removeLegacy
    (m : Migration)
    (shell : Shell)
    (s : Survey) : Session Unit := do
  warn "Removing ESLint/Prettier related packages:"
  warn (Text.ofString "  " ++ listing s.legacy)
  Session.check shell (s.manager.uninstall s.legacy)
  let manifest ←
    Session.ofExcept (Manifest.read (← Session.files) m.root)
  if manifest.hasLegacySettings then
    Manifest.write m.root manifest.withoutLegacySettings
    say ("Removed eslintConfig/prettier configuration"
      ++ " from package.json.")

/- Remove what belongs to the old tools, or say why not. -/
def settleLegacy
    (m : Migration)
    (shell : Shell)
    (s : Survey)
    (d : Decisions) : Session Unit :=
  if d.removeLegacy then m.removeLegacy shell s
  else if s.legacy.isEmpty then return
  else
    warn "Keeping existing ESLint/Prettier packages as requested."

/- Install Biome. -/
def install
    (m : Migration)
    (shell : Shell)
    (s : Survey) : Session Unit := do
  let version := m.settings.version
  say
    (Text.ofString "Installing Biome version " ++ version
      ++ Text.ofString "...")
  Session.check shell
    (s.manager.install (Biome.dependency version))

/-
  Add the scripts to the manifest as it has become; say
  whether the project uses TypeScript.
-/
def addScripts
    (m : Migration)
    (s : Survey) : Session Bool := do
  let manifest ←
    Session.ofExcept (Manifest.read (← Session.files) m.root)
  let typescript ←
    Session.ofFiles (Manifest.usesTypescript · m.root manifest)
  let scripts := Manifest.scripts s.manager typescript
  Manifest.write m.root (manifest.withScripts scripts)
  let names := ", ".intercalate (scripts.map Prod.fst)
  say s!"Added scripts to package.json: {names}"
  return typescript

/- Remove directive comments, if the user wants that. -/
def scrub
    (m : Migration)
    (d : Decisions) : Session Scrub.Report := do
  if !d.cleanComments then return .empty
  say ("Scanning project files and removing"
    ++ " ESLint directive comments...")
  let report ← Scrub.tree Directive.Rule.standard m.root
  say "Finished cleaning ESLint comments."
  return report

/- Let Biome mend the files, if the settings say so. -/
def fix
    (m : Migration)
    (shell : Shell)
    (s : Survey) : Session Unit := do
  if m.settings.runFix then
    say "Running lint:fix to apply Biome fixes..."
    Session.check shell s.manager.lintFix
    say "Completed lint:fix."

------------------------------------------------------------
-- The Whole
------------------------------------------------------------

/- The numbers of a report. -/
def figures (r : Scrub.Report) : Figures where
  scanned := r.scanned
  updated := r.modified.length
  removed := r.removed

/-
  Migrate a project. Nothing is changed before the last
  question has been answered.
-/
def run
    (m : Migration)
    (shell : Shell) : Session Outcome := do
  let s ← m.survey
  present s
  let d ← m.consult s
  m.settleLegacy shell s d
  m.install shell s
  let version := m.settings.version
  let written ← Biome.write m.root s.archetype version
  let typescript ← m.addScripts s
  let report ← m.scrub d
  m.fix shell s
  let summary : Summary :=
    { archetype := s.archetype
      manager := s.manager
      version := version
      legacy := s.legacy
      legacyRemoved := d.removeLegacy
      configWritten := written
      typescript := typescript
      figures := figures report }
  Session.echo summary.text
  return ⟨summary, report⟩

/-
  The migration of the project at a path, with given
  settings or those of the project.
-/
def prepare
    (p : Path)
    (settings? : Option Settings)
    (assumeYes : Bool) : Session Migration := do
  let root ← Session.ofFiles (·.realPath p)
  match settings? with
  | some settings => return ⟨root, settings, assumeYes⟩
  | none =>
      let located ←
        Session.ofExcept (Settings.load (← Session.files) root)
      return ⟨root, located.settings, assumeYes⟩

end Migration

end BiomeMigration
