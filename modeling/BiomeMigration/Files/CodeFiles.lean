import BiomeMigration.Files.System

/-
  This file defines the code files of a directory: which
  suffixes code files have, which directories are left out,
  the order in which the files are listed, and where the way
  through the directory ends early.

  Key definitions include:
    * `CodeFiles.suffixes`
    * `CodeFiles.ignored`
    * `CodeFiles.isCodeName`
    * `Node.codeFiles`
    * `Node.visits`
    * `Visit.fault?`
    * `FileSystem.listing`
    * `FileSystem.codeFiles`
-/

------------------------------------------------------------
-- Code Files
------------------------------------------------------------

namespace BiomeMigration

namespace CodeFiles

/- The suffixes of code files. -/
def suffixes : List String :=
  [".js", ".jsx", ".ts", ".tsx", ".mjs", ".cjs", ".vue",
    ".svelte", ".astro"]

/- The directories that hold no code of the project. -/
def ignored : List String :=
  ["node_modules", ".git", "dist", "build", "coverage",
    ".next", ".turbo", ".cache", ".vscode", ".idea"]

/- A name has the suffix of a code file. -/
def isCodeName (name : String) : Bool :=
  suffixes.contains (Path.suffixOf name)

/- Entries in the code-point order of their names. -/
def byName
    {α : Type}
    (entries : List (String × α)) : List (String × α) :=
  entries.mergeSort (·.1 ≤ ·.1)

/- The names of the code files of a directory, in order. -/
def names (entries : List (String × Node)) : List String :=
  let files :=
    entries.filter fun (name, node) =>
      match node with
      | .file _ => isCodeName name
      | _ => false
  (byName files).map Prod.fst

end CodeFiles

namespace Node

mutual

/-
  The places of the code files of a tree: those of a
  directory before those of its directories, each in the
  order of their names. Links are neither listed nor
  followed.
-/
def codeFiles : Node → List Location
  | .directory entries =>
      let below := CodeFiles.byName (codeFilesBelow entries)
      (CodeFiles.names entries).map ([·])
        ++ below.flatMap Prod.snd
  | _ => []

/- The code files of each directory that is not ignored. -/
def codeFilesBelow :
    List (String × Node) → List (String × List Location)
  | [] => []
  | (name, node) :: rest =>
      let others := codeFilesBelow rest
      if CodeFiles.ignored.contains name then others
      else (name, node.codeFiles.map (name :: ·)) :: others

end

end Node

------------------------------------------------------------
-- The Way through a Directory
------------------------------------------------------------

/-
  A step on the way through a directory: a directory is
  opened, or an entry that is none is looked at. The place
  is counted from where the way starts.
-/
inductive Visit where
  | opened (loc : Location)
  | seen (loc : Location) (isCode : Bool)

namespace Visit

/- The same step on the way from the directory above. -/
def below (name : String) : Visit → Visit
  | .opened loc => .opened (name :: loc)
  | .seen loc isCode => .seen (name :: loc) isCode

/- The place of a code file. -/
def code? : Visit → Option Location
  | .seen loc true => some loc
  | _ => none

end Visit

namespace CodeFiles

/- An entry is a code file. -/
def isCode : String × Node → Bool
  | (name, .file _) => isCodeName name
  | _ => false

/-
  The entries of a directory that are looked at, in the order
  of their names: the files, and the links.
-/
def looks (entries : List (String × Node)) : List Visit :=
  let others := entries.filter (!·.2.isDirectory)
  (byName others).map fun entry => .seen [entry.1] (isCode entry)

end CodeFiles

namespace Node

mutual

/-
  The way through a tree: a directory is opened, its other
  entries are looked at, and then the way leads through its
  directories, those aside that are ignored.
-/
def visits : Node → List Visit
  | .directory entries =>
      let below := CodeFiles.byName (visitsBelow entries)
      .opened [] :: CodeFiles.looks entries
        ++ below.flatMap Prod.snd
  | _ => []

/- The way through each directory that is not ignored. -/
def visitsBelow :
    List (String × Node) → List (String × List Visit)
  | [] => []
  | (name, node) :: rest =>
      let others := visitsBelow rest
      if CodeFiles.ignored.contains name then others
      else (name, node.visits.map (.below name)) :: others

end

end Node

------------------------------------------------------------
-- Limits
------------------------------------------------------------

namespace Path

/- The path of a place below a path. -/
def below
    (p : Path)
    (loc : Location) : Path :=
  ⟨p.anchor, p.parts ++ loc⟩

/-
  The text that a directory on the way is opened by. The dot
  of the working directory is kept.
-/
def openedText
    (p : Path)
    (loc : Location) : String :=
  let isDot := p.anchor == .working && p.parts.isEmpty
  let text := (p.below loc).text
  if isDot && !loc.isEmpty then "./" ++ text else text

end Path

namespace Visit

/- The fault that the text of a path is. -/
def textFault? (text : String) : Option PathFault :=
  if FileSystem.pathLimit < text.utf8ByteSize then
    some (.refused .nameTooLong text)
  else none

/-
  The fault that ends the way from a path at a step, where
  `room` directories may be passed on the way to another one.
-/
def fault?
    (room : Nat)
    (p : Path) : Visit → Option PathFault
  | .opened loc =>
      if room < loc.length then some .tooDeep
      else textFault? (p.openedText loc)
  | .seen loc _ => textFault? (p.below loc).text

end Visit

/-
  What the way through a directory comes to: the code files
  that are met before the first fault, and the fault.
-/
structure Listing where
  paths : List Path
  fault? : Option PathFault

/- A result, unless the way has ended with a fault. -/
def Listing.close
    {α : Type}
    (found : Listing)
    (result : α) : Except PathFault α :=
  match found.fault? with
  | some fault => .error fault
  | none => .ok result

/- What the way from a path comes to. -/
def Listing.ofVisits
    (room : Nat)
    (p : Path)
    (visits : List Visit) : Listing where
  paths :=
    let met :=
      visits.takeWhile fun visit => (visit.fault? room p).isNone
    met.filterMap fun visit => visit.code?.map p.below
  fault? := visits.findSome? (·.fault? room p)

namespace FileSystem

/- The way through the directory that a path leads to. -/
def listing
    (fs : FileSystem)
    (p : Path) : Except PathFault Listing := do
  let directory ← fs.list p
  return .ofVisits fs.depths.directories p directory.visits

/- The code files of the directory that a path leads to. -/
def codeFiles
    (fs : FileSystem)
    (p : Path) : Except PathFault (List Path) := do
  let found ← fs.listing p
  found.close found.paths

end FileSystem

end BiomeMigration
