import BiomeMigration.Directive.Strip
import BiomeMigration.Files.CodeFiles
import BiomeMigration.Session.World

/-
  This file defines how directive comments are removed from
  the code files of a project, and the report of it.

  Key definitions include:
    * `Scrub.Report`
    * `Scrub.file`
    * `Scrub.tree`
-/

namespace BiomeMigration

namespace Scrub

/-
  What was done to some files: each with the number of the
  comments that were removed from it.
-/
structure Report where
  files : List (Path × Nat)

namespace Report

/- Nothing was done. -/
def empty : Report :=
  ⟨[]⟩

/- The number of files. -/
def scanned (r : Report) : Nat :=
  r.files.length

/- The files that were changed. -/
def modified (r : Report) : List Path :=
  (r.files.filter (0 < ·.2)).map Prod.fst

/- The number of comments that were removed. -/
def removed (r : Report) : Nat :=
  r.files.foldr (fun file n => file.2 + n) 0

end Report

/- The text of a file after the rules, and their matches. -/
def strip
    (rules : List Directive.Rule)
    (bytes : Bytes) : Except Utf8.Fault (Bytes × Nat) := do
  let cs ← Utf8.decode bytes
  let stripped := Directive.strip rules cs
  return (Utf8.encode stripped.text, stripped.removed)

/-
  Remove the comments from a file, and count them. A file
  without any is not written.
-/
def file
    (rules : List Directive.Rule)
    (p : Path) : Session Nat := do
  let bytes ← Session.ofFiles (·.read p)
  let (cleaned, removed) ←
    Session.ofExcept ((strip rules bytes).mapError .decoding)
  if 0 < removed then
    Session.setFiles (← Session.ofFiles (·.write p cleaned))
    Session.log .debug "scrubber"
      s!"Removed {removed} directive(s) from {p.text}"
  return removed

/-
  Remove the comments from the code files of a directory. A
  file that cannot be read or decoded, or met, ends the work;
  the files before it stay as they have become. All files are
  listed first: none of them changes what is listed.
-/
def tree
    (rules : List Directive.Rule)
    (root : Path) : Session Report := do
  let real ← Session.ofFiles (·.realPath root)
  if !(← Session.ofFiles (·.isDirectory? real)) then
    throw (.notDirectory root.text)
  let found ← Session.ofFiles (·.listing real)
  let files ← found.paths.mapM fun p => do
    return (p, ← file rules p)
  Session.ofExcept ((found.close ⟨files⟩).mapError .path)

end Scrub

end BiomeMigration
