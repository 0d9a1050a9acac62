import BiomeMigration.Text.Utf8

/-
  This file defines trees of files, directories and
  symbolic links, and the look-up and update of a tree by
  the names that lead to a place in it. No link is followed
  here.

  Key definitions include:
    * `Node`
    * `Node.at?`
    * `Node.put`
    * `Node.remove`
-/

namespace BiomeMigration

/- A file tree. A link holds the text of its target. -/
inductive Node where
  | file (content : Bytes)
  | directory (entries : List (String × Node))
  | link (target : String)

/- The names from the root of a tree to a place in it. -/
abbrev Location := List String

namespace Node

------------------------------------------------------------
-- Entries
------------------------------------------------------------

/- The entries of a directory. -/
abbrev Entries := List (String × Node)

/- The entry of a name. -/
def find?
    (entries : Entries)
    (name : String) : Option Node :=
  match entries with
  | [] => none
  | (n, node) :: rest => if n = name then some node else find? rest name

/- Set or add the entry of a name. -/
def set
    (entries : Entries)
    (name : String)
    (node : Node) : Entries :=
  match entries with
  | [] => [(name, node)]
  | (n, old) :: rest =>
      if n = name then (n, node) :: rest
      else (n, old) :: set rest name node

/- Drop the entry of a name. -/
def drop
    (entries : Entries)
    (name : String) : Entries :=
  entries.filter (·.1 ≠ name)

theorem find?_set
    (entries : Entries)
    (name other : String)
    (node : Node) :
    find? (set entries name node) other =
      if name = other then some node
      else find? entries other := by
  induction entries with
  | nil => simp [set, find?]
  | cons e rest ih =>
      obtain ⟨n, old⟩ := e
      by_cases hn : n = name
      · subst hn
        by_cases ho : n = other <;> simp [set, find?, ho]
      · by_cases ho : n = other
        · subst ho
          simp [set, find?, hn, Ne.symm hn]
        · simp [set, find?, hn, ho, ih]

------------------------------------------------------------
-- Places
------------------------------------------------------------

/- An empty directory. -/
def empty : Node :=
  .directory []

/- The node is a directory. -/
def isDirectory : Node → Bool
  | .directory _ => true
  | _ => false

/- The node at a place. -/
def at?
    (node : Node) :
    Location → Option Node
  | [] => some node
  | name :: rest =>
      match node with
      | .directory entries =>
          match find? entries name with
          | some child => child.at? rest
          | none => none
      | _ => none

/-
  The tree with a node put at a place. Directories on the
  way that are missing, or are no directories, are made.
-/
def put
    (node : Node)
    (new : Node) :
    Location → Node
  | [] => new
  | name :: rest =>
      let entries :=
        match node with
        | .directory entries => entries
        | _ => []
      let child := (find? entries name).getD empty
      .directory (set entries name (child.put new rest))

/- The tree without the node at a place. -/
def remove
    (node : Node) :
    Location → Node
  | [] => node
  | name :: rest =>
      match node with
      | .directory entries =>
          match rest, find? entries name with
          | [], _ => .directory (drop entries name)
          | _, some child =>
              .directory (set entries name (child.remove rest))
          | _, none => node
      | _ => node

/- What is put at a place is found there. -/
theorem at?_put_self
    (node new : Node)
    (loc : Location) :
    (node.put new loc).at? loc = some new := by
  induction loc generalizing node with
  | nil => rfl
  | cons name rest ih => simp [put, at?, find?_set, ih]

------------------------------------------------------------
-- Size
------------------------------------------------------------

mutual

/- The number of nodes of a tree. -/
def size : Node → Nat
  | .file _ => 1
  | .link _ => 1
  | .directory entries => sizeEntries entries + 1

/- The number of nodes of some trees. -/
def sizeEntries : List (String × Node) → Nat
  | [] => 0
  | (_, node) :: rest => node.size + sizeEntries rest

end

end Node

end BiomeMigration
