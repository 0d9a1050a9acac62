import BiomeMigration.Files.Node
import BiomeMigration.Files.Path
import BiomeMigration.Files.Problem
import BiomeMigration.Yaml.Fault

/-
  This file defines a file system: a tree, a working
  directory and a home directory. Paths are looked up with
  symbolic links followed, files are read and written, and
  paths are resolved to real ones.

  Key definitions include:
    * `Depths`
    * `FileSystem`
    * `FileSystem.locate`
    * `FileSystem.exists?`
    * `FileSystem.read`
    * `FileSystem.write`
    * `FileSystem.append`
    * `FileSystem.remove`
    * `FileSystem.resolve`
    * `FileSystem.expandHome`
-/

namespace BiomeMigration

/-
  How deep a process may go, which its stack decides: the
  containers of JSON that stand inside of each other, how
  deep it goes into YAML, and the directories that it passes
  on the way to another one. There is room for an object
  inside of another one, as the scripts of a manifest are.
-/
structure Depths where
  json : Nat
  yaml : Yaml.Depths
  directories : Nat
  two_le_json : 2 ≤ json

/-
  What a stack of the usual size has room for. How much of it
  is taken when a reading starts differs from call to call by
  some frames; this is what is left at the least.
-/
def Depths.usual : Depths where
  json := 973
  yaml := ⟨480, 959, 959⟩
  directories := 985
  two_le_json := by decide

/-
  A file tree, as a process meets it: with the place of the
  working directory, which no link leads to, the path of the
  home directory, those of other users by their names, the
  places of the files that are held open, and how deep the
  process may go in what it reads.
-/
structure FileSystem where
  root : Node
  working : Location
  home : Path
  homes : List (String × Path)
  opened : List Location
  depths : Depths := .usual

namespace FileSystem

------------------------------------------------------------
-- Steps of a Look-up
------------------------------------------------------------

/- A step of a look-up. -/
inductive Step where
  | here
  | up
  | down (name : String)
  deriving DecidableEq, Repr

/- The step of a component. -/
def Step.ofString (part : String) : Step :=
  if part == "" || part == "." then .here
  else if part == ".." then .up
  else .down part

/- The pieces of a link's target between slashes. -/
def targetPieces (target : String) : List String :=
  (Path.split target.toList).map String.ofList

/-
  The steps of a link's target. A slash at the end asks for
  a directory.
-/
def targetSteps (target : String) : List Step :=
  (targetPieces target).map Step.ofString

/-
  The steps to the directory in which a link's target names
  its last entry, if the name has a slash behind it.
-/
def slashedSteps? (target : String) : Option (List Step) :=
  let pieces := targetPieces target
  let names := pieces.filter (· != "")
  match names.getLast?, pieces.getLast? with
  | some name, some "" =>
      if name == "." || name == ".." then none
      else some (names.dropLast.map Step.ofString ++ [.here])
  | _, _ => none

/- A target that starts at the root. -/
def isAbsolute (target : String) : Bool :=
  target.toList.head? == some '/'

/- The greatest length of a name, in bytes. -/
def nameLimit : Nat := 255

/- The greatest length of a path, in bytes. -/
def pathLimit : Nat := 4095

/- The greatest number of links that a look-up follows. -/
def linkLimit : Nat := 40

/-
  What a look-up does with a link at the end of its path:
  it stops there, or it follows the link, to a file that may
  have to be made in the last case.
-/
inductive Ending where
  | link
  | target
  | newFile
  deriving DecidableEq, Repr

/-
  Where a look-up ends: a place, and the node there, unless
  only the last name is missing.
-/
structure Place where
  location : Location
  node? : Option Node

/- The directory that holds a place. -/
def directoryAbove
    (root : Node)
    (loc : Location) : Location × Node :=
  let above := loc.dropLast
  (above, (root.at? above).getD root)

/-
  Take steps from a node of the tree. A link is handed to
  `follow` with the steps after it; one at the end is only
  followed if the look-up does not end at links.
-/
def walk
    (root : Node)
    (ending : Ending)
    (follow :
      Location → String → List Step → Except Problem Place)
    (loc : Location)
    (node : Node) :
    List Step → Except Problem Place
  | [] => .ok ⟨loc, some node⟩
  | step :: rest =>
      match node with
      | .directory entries =>
          match step with
          | .here => walk root ending follow loc node rest
          | .up =>
              let (loc, node) := directoryAbove root loc
              walk root ending follow loc node rest
          | .down name =>
              if nameLimit < name.utf8ByteSize then
                .error .nameTooLong
              else
                let loc' := loc ++ [name]
                match Node.find? entries name with
                | none =>
                    if rest.isEmpty then .ok ⟨loc', none⟩
                    else .error .noEntry
                | some (.link target) =>
                    if rest.isEmpty && ending == .link then
                      .ok ⟨loc', some (.link target)⟩
                    else follow loc target rest
                | some child =>
                    walk root ending follow loc' child rest
      | _ => .error .notDirectory

/-
  Take steps and follow up to `links` links on the way. A
  target starts where its link is, or at the root. No file
  is made at a name with a slash behind it, whatever is
  there.
-/
def walkLinks
    (root : Node)
    (ending : Ending) :
    Nat → Location → Node → List Step → Except Problem Place
  | 0 => walk root ending fun _ _ _ => .error .tooManyLinks
  | links + 1 =>
      walk root ending fun loc target rest =>
        let start := if isAbsolute target then [] else loc
        let go :=
          walkLinks root ending links start
            ((root.at? start).getD root)
        match slashedSteps? target with
        | some steps =>
            if ending == .newFile && rest.isEmpty then
              (go steps).bind fun _ => .error .isDirectory
            else go (targetSteps target ++ rest)
        | none => go (targetSteps target ++ rest)

/- The place where a path starts. -/
def start
    (fs : FileSystem)
    (p : Path) : Location :=
  if p.anchor == .working then fs.working else []

/- Look a path up. -/
def lookUp
    (fs : FileSystem)
    (ending : Ending)
    (p : Path) : Except Problem Place :=
  if pathLimit < p.text.utf8ByteSize then .error .nameTooLong
  else
    let loc := fs.start p
    walkLinks fs.root ending linkLimit loc
      ((fs.root.at? loc).getD fs.root)
      (p.parts.map Step.ofString)

/- Look a path up for an operation that names it. -/
def locate
    (fs : FileSystem)
    (ending : Ending)
    (p : Path) : Except PathFault Place :=
  if p.hasNul then .error .nul
  else
    (fs.lookUp ending p).mapError fun problem =>
      .refused problem p.text

------------------------------------------------------------
-- Questions
------------------------------------------------------------

/-
  The node that a path leads to, if any. A path that leads
  nowhere is no fault, a name that is too long is one.
-/
def follow?
    (fs : FileSystem)
    (p : Path) : Except PathFault (Option Node) :=
  match fs.locate .target p with
  | .ok place => .ok place.node?
  | .error (.refused .nameTooLong path) =>
      .error (.refused .nameTooLong path)
  | .error _ => .ok none

/- A path leads to a node. -/
def exists?
    (fs : FileSystem)
    (p : Path) : Except PathFault Bool :=
  (fs.follow? p).map Option.isSome

/- A path leads to a directory. -/
def isDirectory?
    (fs : FileSystem)
    (p : Path) : Except PathFault Bool :=
  (fs.follow? p).map (·.any Node.isDirectory)

------------------------------------------------------------
-- Reading and Writing
------------------------------------------------------------

/- The content of a file. -/
def read
    (fs : FileSystem)
    (p : Path) : Except PathFault Bytes := do
  let place ← fs.locate .target p
  match place.node? with
  | some (.file content) => return content
  | some _ => throw (.refused .isDirectory p.text)
  | none => throw (.refused .noEntry p.text)

/- The directory that a path leads to. -/
def list
    (fs : FileSystem)
    (p : Path) : Except PathFault Node := do
  let place ← fs.locate .target p
  match place.node? with
  | some (.directory entries) => return .directory entries
  | some _ => throw (.refused .notDirectory p.text)
  | none => throw (.refused .noEntry p.text)

/-
  The place of the file that a path is opened for writing
  at, and the content it has; a new file has none.
-/
def openForWriting
    (fs : FileSystem)
    (p : Path) : Except PathFault (Location × Bytes) := do
  let place ← fs.locate .newFile p
  match place.node? with
  | some (.file content) => return (place.location, content)
  | some _ => throw (.refused .isDirectory p.text)
  | none => return (place.location, [])

/- The file system with a file set at a place. -/
def setFile
    (fs : FileSystem)
    (loc : Location)
    (content : Bytes) : FileSystem :=
  { fs with root := fs.root.put (.file content) loc }

/- Replace the content of a file, or make it. -/
def write
    (fs : FileSystem)
    (p : Path)
    (content : Bytes) : Except PathFault FileSystem := do
  let (loc, _) ← fs.openForWriting p
  return fs.setFile loc content

/- Add to the end of a file, or make it. -/
def append
    (fs : FileSystem)
    (p : Path)
    (content : Bytes) : Except PathFault FileSystem := do
  let (loc, old) ← fs.openForWriting p
  return fs.setFile loc (old ++ content)

/-
  Remove what a path leads to, a link at its end not
  followed. A file that was held open there is out of reach,
  even if a new one takes its place.
-/
def remove
    (fs : FileSystem)
    (p : Path) : Except PathFault FileSystem := do
  let place ← fs.locate .link p
  if place.node?.isNone then throw (.refused .noEntry p.text)
  return { fs with
    root := fs.root.remove place.location
    opened := fs.opened.filter (!place.location.isPrefixOf ·) }

------------------------------------------------------------
-- Real Paths
------------------------------------------------------------

/- Take steps by name alone. -/
def climb
    (loc : Location)
    (steps : List Step) : Location :=
  steps.foldl
    (fun loc step =>
      match step with
      | .here => loc
      | .up => loc.dropLast
      | .down name => loc ++ [name])
    loc

/-
  The absolute form of a path, dots removed by name and no
  link followed.
-/
def absolute
    (fs : FileSystem)
    (p : Path) : Path :=
  let anchor : Anchor :=
    if p.anchor == .doubleRoot then .doubleRoot else .root
  ⟨anchor, climb (fs.start p) (p.parts.map Step.ofString)⟩

/-
  A path one step up. Above the working directory the step
  is kept.
-/
def stepUp (p : Path) : Path :=
  let isStuck :=
    p.parts.isEmpty || p.parts.getLast? == some ".."
  if p.anchor == .working && isStuck then
    { p with parts := p.parts ++ [".."] }
  else p.parent

/-
  A path followed by the pieces of a text that were not
  resolved. If the text starts with a slash, it starts at
  the root.
-/
def rejoin
    (p : Path)
    (pieces : List String) : Path :=
  match pieces with
  | "" :: _ :: _ =>
      let text := "/".intercalate pieces
      ⟨Anchor.ofChars text.toList, pieces⟩
  | _ => { p with parts := p.parts ++ pieces }

/-
  Follow the pieces of a text between slashes and replace
  each link by the path that it stands for. Names that lead
  nowhere are kept. `deeper` resolves a link; a link that
  leads back to one in `active` by the same path ends the
  resolution, and what it has come to is an error.
-/
def realWalk
    (fs : FileSystem)
    (active : List Path)
    (deeper :
      List Path → Path → List String → Except Path Path)
    (p : Path) :
    List String → Except Path Path
  | [] => .ok p
  | piece :: rest =>
      match Step.ofString piece with
      | .here => realWalk fs active deeper p rest
      | .up => realWalk fs active deeper (stepUp p) rest
      | .down name =>
          let next := { p with parts := p.parts ++ [name] }
          match fs.root.at? (fs.absolute next).parts with
          | some (.link target) =>
              if active.contains next then
                .error (rejoin next rest)
              else
                let start :=
                  if isAbsolute target then ⟨.root, []⟩ else p
                match deeper (next :: active) start
                    (targetPieces target) with
                | .ok real => realWalk fs active deeper real rest
                | .error q => .error (rejoin q rest)
          | _ => realWalk fs active deeper next rest

/- Resolve links that lead through at most `depth` others. -/
def realPieces
    (fs : FileSystem) :
    Nat → List Path → Path → List String → Except Path Path
  | 0 => fun _ p pieces => .error (rejoin p pieces)
  | depth + 1 =>
      fun active => realWalk fs active (realPieces fs depth)

/-
  The greatest number of links inside of each other. A link
  can be met at the root and at each directory above the
  working one.
-/
def realDepth (fs : FileSystem) : Nat :=
  (fs.root.size + 1) * (fs.working.length + 2)

/-
  The real path of a path: absolute, without dots and
  links. Links in a circle are a fault.
-/
def resolve
    (fs : FileSystem)
    (p : Path) : Except PathFault Path :=
  if p.hasNul then .error .nul
  else
    let anchor : Anchor :=
      if p.anchor == .working then .working else .root
    let found :=
      realPieces fs fs.realDepth [] ⟨anchor, []⟩ p.parts
    let real :=
      match found with
      | .ok q => fs.absolute q
      | .error q => fs.absolute q
    match fs.lookUp .target real with
    | .error .tooManyLinks => .error (.linkLoop real.text)
    | _ => .ok real

/-
  The home directory of a user; without a name, of the one
  who runs the program.
-/
def homeOf
    (fs : FileSystem)
    (user : String) : Except PathFault Path :=
  if user == "" then .ok fs.home
  else if user.toList.contains '\x00' then .error .nul
  else
    match fs.homes.lookup user with
    | some home => .ok home
    | none => .error .homeless

/-
  A path that starts with `~` and a user's name, or with `~`
  alone, starts at a home directory.
-/
def expandHome
    (fs : FileSystem)
    (p : Path) : Except PathFault Path :=
  match p.anchor, p.parts with
  | .working, first :: rest =>
      match first.toList with
      | '~' :: user => do
          let home ← fs.homeOf (String.ofList user)
          return ⟨home.anchor, home.parts ++ rest⟩
      | _ => .ok p
  | _, _ => .ok p

/- The real path of a path that may start with `~`. -/
def realPath
    (fs : FileSystem)
    (p : Path) : Except PathFault Path := do
  fs.resolve (← fs.expandHome p)

end FileSystem

end BiomeMigration
