import BiomeMigration.Yaml.Fault
import BiomeMigration.Yaml.Node

/-
  This file defines the merging of mappings: a pair whose
  key is `<<` gives way to the pairs of the mappings that it
  names, which are merged first. A key `=` of a mapping
  whose merges are done is text. Both hold wherever the
  nodes are used.

  Key definitions include:
    * `Yaml.Graph.cutMerge`
    * `Yaml.Graph.flatten`
-/

namespace BiomeMigration

namespace Yaml

namespace Graph

------------------------------------------------------------
-- Pairs
------------------------------------------------------------

/- The pairs of the mapping at a place. -/
def pairs
    (g : Graph)
    (id : NodeId) : List (NodeId × NodeId) :=
  (g.node id).pairs

/- The table with other pairs of a mapping. -/
def setPairs
    (g : Graph)
    (id : NodeId)
    (pairs : List (NodeId × NodeId)) : Graph :=
  g.set id (.mapping (g.tag id) pairs)

/- The key `=` becomes text. -/
def settleKey
    (g : Graph)
    (key : NodeId) : Graph :=
  if g.tag key == .value then
    g.set key ((g.node key).withTag .str)
  else g

/-
  The value of the first pair that asks for a merge, and
  the other pairs.
-/
def cutMerge
    (g : Graph) :
    List (NodeId × NodeId) →
      Option (NodeId × List (NodeId × NodeId))
  | [] => none
  | (key, value) :: rest =>
      if g.tag key == .merge then some (value, rest)
      else
        (g.cutMerge rest).map fun (found, rest) =>
          (found, (key, value) :: rest)

/- The number of pairs that ask for a merge. -/
def merges (g : Graph) : Nat :=
  (g.nodes.toList.flatMap (·.pairs)).countP fun (key, _) =>
    g.tag key == .merge

------------------------------------------------------------
-- Merging
------------------------------------------------------------

/-
  What is merged into a mapping for a value: the pairs of a
  mapping, or those of a list of mappings, the last first.
  Each of them is flattened before its pairs are taken.
-/
def mergedBy
    (flatten : Graph → NodeId → Except Fault Graph)
    (g : Graph)
    (value : NodeId) :
    Except Fault (List (NodeId × NodeId) × Graph) :=
  match g.node value with
  | .mapping _ _ => do
      let g ← flatten g value
      return (g.pairs value, g)
  | .sequence _ items => do
      let step
          (found : List (List (NodeId × NodeId)) × Graph)
          (item : NodeId) :
          Except Fault (List (List (NodeId × NodeId)) × Graph) := do
        let (lists, g) := found
        if !(g.node item).isMapping then throw .malformed
        let g ← flatten g item
        return (g.pairs item :: lists, g)
      let (lists, g) ← items.foldlM step ([], g)
      return (lists.flatten, g)
  | .scalar _ _ => .error .malformed

/-
  Do the merges of the mapping at a place, one by one, where
  `merged` has come from those before. A merge is taken out
  of its mapping first, so a mapping that is merged into
  itself comes to an end, and the first number, which is
  above that of the merges, is never used up. Merges inside
  of merges go down to a given depth.
-/
def flattenWithin :
    Nat → Nat → List (NodeId × NodeId) → Graph → NodeId →
      Except Fault Graph
  | 0, _, _, g, _ => .ok g
  | _, 0, _, _, _ => .error .mergesTooDeep
  | fuel + 1, depth + 1, merged, g, id =>
      match g.cutMerge (g.pairs id) with
      | some (value, rest) => do
          let g := g.setPairs id rest
          let (more, g) ←
            mergedBy (flattenWithin fuel depth []) g value
          flattenWithin fuel (depth + 1) (merged ++ more) g id
      | none =>
          let own := g.pairs id
          let g := own.foldl (fun g pair => g.settleKey pair.1) g
          .ok (g.setPairs id (merged ++ own))

/-
  The table after the merges of the mapping at a place, where
  `room` merges may stand around another one.
-/
def flatten
    (room : Nat)
    (g : Graph)
    (id : NodeId) : Except Fault Graph :=
  flattenWithin (g.merges + 1) (room + 1) [] g id

end Graph

end Yaml

end BiomeMigration
