import BiomeMigration.Files.Node

/-
  This file defines what changed between two states of a
  file tree: the places whose file, link or directory is
  new, gone or different.

  Key definitions include:
    * `Difference.Leaf`
    * `Difference.leaves`
    * `Difference.between`
-/

namespace BiomeMigration

namespace Difference

/- What is seen at a place without looking below it. -/
inductive Leaf where
  | file (content : Bytes)
  | link (target : String)
  | directory
  deriving DecidableEq

mutual

/- The places below a node, with what is seen there. -/
def leaves : Node → List (Location × Leaf)
  | .directory entries => leavesBelow entries
  | _ => []

/- The places of some entries and below them. -/
def leavesBelow :
    List (String × Node) → List (Location × Leaf)
  | [] => []
  | (name, node) :: rest =>
      let leaf : Leaf :=
        match node with
        | .file content => .file content
        | .link target => .link target
        | .directory _ => .directory
      ([name], leaf)
        :: (leaves node).map (fun (loc, leaf) => (name :: loc, leaf))
        ++ leavesBelow rest

end

/-
  The places that differ, with what is seen there after, or
  nothing if the place is gone.
-/
def between
    (before after : Node) : List (Location × Option Leaf) :=
  let old := leaves before
  let new := leaves after
  let gone := old.filter fun (loc, _) => (new.lookup loc).isNone
  let changed :=
    new.filter fun (loc, leaf) => old.lookup loc != some leaf
  gone.map (fun (loc, _) => (loc, none))
    ++ changed.map (fun (loc, leaf) => (loc, some leaf))

end Difference

end BiomeMigration
