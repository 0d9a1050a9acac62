import BiomeMigration.CommandLine.Program
import BiomeMigration.Files.Difference

/-
  This file connects the program to the machine: it reads
  the files that a migration can look at into a tree, runs
  the program on the tree, shows what is printed, and writes
  the files that have become different.

  A command of a package manager is shown in the log and
  left to the user. It is taken to succeed and to change no
  file.
-/

namespace BiomeMigration

namespace Machine

------------------------------------------------------------
-- Reading Files
------------------------------------------------------------

/- The entry of the machine's file tree at a place. -/
def entryAt (loc : Location) : IO.FS.DirEntry :=
  ⟨"", "/".intercalate loc⟩

/-
  What is at an entry; a directory is not looked into. A
  link that leads nowhere counts as nothing.
-/
def surfaceAt
    (entry : IO.FS.DirEntry) : IO (Option Node) := do
  try
    match (← entry.path.symlinkMetadata).type with
    | .dir => return some .empty
    | .symlink =>
        return some (.link (← IO.FS.realPath entry.path).toString)
    | .file =>
        return some (.file (← IO.FS.readBinFile entry.path).toList)
    | .other => return some (.file [])
  catch _ => return none

/-
  The tree at an entry. The directories that hold no code of
  the project are taken to be empty.
-/
partial def treeAt
    (entry : IO.FS.DirEntry) : IO (Option Node) := do
  match ← surfaceAt entry with
  | some (.directory _) =>
      if CodeFiles.ignored.contains entry.fileName then
        return some .empty
      let entries ← entry.path.readDir
      let nodes ← entries.toList.filterMapM fun e =>
        return (← treeAt e).map (e.fileName, ·)
      return some (.directory nodes)
  | node? => return node?

/- Add what is at a place, unless the tree has the place. -/
def addSurface
    (root : Node)
    (loc : Location) : IO Node := do
  if (root.at? loc).isSome then return root
  match ← surfaceAt (entryAt loc) with
  | some node => return root.put node loc
  | none => return root

/- Add what is at a place and on the way to it. -/
def addPath
    (root : Node)
    (loc : Location) : IO Node :=
  ((List.range (loc.length + 1)).map loc.take).foldlM addSurface root

/- The names of the files that are searched for. -/
def soughtNames : List String :=
  Manifest.fileName :: Probe.lockfiles.map Prod.snd

/-
  Add the tree of a project, and the files above it that
  may be searched for.
-/
def addProject
    (root : Node)
    (loc : Location) : IO Node := do
  let above := (List.range loc.length).map loc.take
  let sought :=
    above.flatMap fun dir => soughtNames.map (dir ++ [·])
  let root ← sought.foldlM addSurface root
  match ← treeAt (entryAt loc) with
  | some node => return root.put node loc
  | none => return root

/- The name and the home directory in a line about a user. -/
def homeIn? (line : String) : Option (String × Path) :=
  match line.splitOn ":" with
  | [name, _, _, _, _, home, _] => some (name, .ofString home)
  | _ => none

/- The home directories of the users of the machine. -/
def homes : IO (List (String × Path)) := do
  try
    let text ← IO.FS.readFile (entryAt ["etc", "passwd"]).path
    return (text.splitOn "\n").filterMap homeIn?
  catch _ => return []

/- The place that a text leads to, links followed. -/
def placeOf (text : String) : IO Location := do
  let real ←
    try pure (← IO.FS.realPath text).toString
    catch _ => pure text
  return (Path.ofString real).parts

/- How command lines are read. -/
def dialect : CommandLine.Dialect where
  keepsDashes := true
  leavesLetters := true

/- The files that a command line leads to. -/
def filesFor (argv : List String) : IO FileSystem := do
  let working ← placeOf (← IO.currentDir).toString
  let home := Path.ofString ((← IO.getEnv "HOME").getD "/")
  let root ← addPath .empty working
  let start : FileSystem :=
    { root := root
      working := working
      home := home
      homes := ← homes
      opened := [] }
  match CommandLine.parse dialect argv with
  | .ok (.migrate args) =>
      let path := Path.ofString args.path
      let project :=
        start.absolute ((start.expandHome path).toOption.getD path)
      let root ← addPath root project.parts
      let root ← addProject root (← placeOf project.text)
      let root ←
        match args.log with
        | .file p => addPath root (start.absolute p).parts
        | _ => pure root
      return { start with root := root }
  | _ => return start

------------------------------------------------------------
-- Writing Files
------------------------------------------------------------

/- Make a place of the machine what it has become. -/
def update
    (loc : Location) :
    Option Difference.Leaf → IO Unit
  | none => IO.FS.removeFile (entryAt loc).path
  | some .directory => IO.FS.createDirAll (entryAt loc).path
  | some (.file content) =>
      IO.FS.writeBinFile (entryAt loc).path ⟨content.toArray⟩
  | some (.link _) => return

------------------------------------------------------------
-- Conversation
------------------------------------------------------------

/- Show what happens to the user. -/
def display : Event → IO Unit
  | .console text => IO.eprint text.escaped
  | .output text => IO.print text
  | .echo text => IO.println text.escaped
  | .ask prompt => do
      IO.print prompt
      (← IO.getStdout).flush
  | .record _ => return
  | .run _ _ _ => return

/- The events up to a prompt, after some answered prompts. -/
def upToPrompt : Nat → List Event → List Event
  | _, [] => []
  | 0, .ask prompt :: _ => [.ask prompt]
  | n + 1, .ask prompt :: rest => .ask prompt :: upToPrompt n rest
  | n, event :: rest => event :: upToPrompt n rest

/- The number of prompts. -/
def prompts (journal : List Event) : Nat :=
  journal.countP fun
    | .ask _ => true
    | _ => false

/-
  Run a program on the lines typed so far. Where it asks for
  one more, show what it has come to, read the line, and run
  it again; what has been shown is not shown again.
-/
partial def converse
    (program : List (Option String) → Nat × World)
    (lines : List (Option String))
    (shown : Nat) : IO (Nat × World) := do
  let result := program lines
  let journal := result.2.journal
  let events := upToPrompt lines.length journal
  (events.drop shown).forM display
  if prompts journal ≤ lines.length then return result
  let line ← (← IO.getStdin).getLine
  if line.isEmpty then
    (journal.drop events.length).forM display
    return result
  else
    let typed := (line.dropEndWhile (· == '\n')).toString
    converse program (lines ++ [some typed]) events.length

/- A shell that leaves every command to the user. -/
def rehearse : Shell := fun command files =>
  (.ok ⟨command, some 0, none⟩, files)

/- Run a command line on the machine. -/
def run (argv : List String) : IO UInt32 := do
  let files ← filesFor argv
  let program (lines : List (Option String)) : Nat × World :=
    (CommandLine.run dialect argv rehearse).run (.initial files lines)
  let (code, w) ← converse program [] 0
  for (loc, leaf?) in Difference.between files.root w.files.root do
    update loc leaf?
  return UInt32.ofNat code

end Machine

end BiomeMigration

def main (argv : List String) : IO UInt32 :=
  BiomeMigration.Machine.run argv
