import BiomeMigration.Yaml.Document
import BiomeMigration.Yaml.Merge
import BiomeMigration.Yaml.Scalar

/-
  This file defines what a document holds: its values are
  looked at level by level, the first fault ends that, and
  the members of a mapping at the root are kept.

  Key definitions include:
    * `Yaml.Value`
    * `Yaml.Evaluation`
    * `Yaml.Evaluation.valueOf`
    * `Yaml.Evaluation.openCollection`
    * `Yaml.Content`
    * `Yaml.load`
-/

namespace BiomeMigration

namespace Yaml

/- A value, without what a collection holds. -/
inductive Value where
  | scalar (s : Scalar)
  | collection
  deriving DecidableEq

/- The members of a mapping in order. -/
abbrev Entries := List (Scalar × Value)

------------------------------------------------------------
-- Scalars
------------------------------------------------------------

namespace Graph

/-
  The content of a node that stands for a scalar. A mapping
  may give it under the key `=`, and the node there may be
  a mapping in turn, down to a given depth.
-/
def contentWithin
    (g : Graph)
    (id : NodeId) :
    Nat → Except Fault Text
  | 0 => .error .contentTooDeep
  | depth + 1 =>
      match g.node id with
      | .scalar _ content => .ok content
      | .mapping _ pairs =>
          match pairs.find? fun (key, _) => g.tag key == .value with
          | some (_, value) => g.contentWithin value depth
          | none => .error .malformed
      | .sequence _ _ => .error .malformed

/-
  The content of a node that stands for a scalar, where
  `room` nodes may be passed on the way to it.
-/
def content
    (room : Nat)
    (g : Graph)
    (id : NodeId) : Except Fault Text :=
  g.contentWithin id (room + 1)

/-
  The value of a node that stands for a scalar. A mapping
  may give the content of any of them but a timestamp.
-/
def scalarOf
    (room : Nat)
    (g : Graph)
    (id : NodeId) : Except Fault Scalar := do
  let tag := g.tag id
  if tag == .unknown || tag == .merge || tag == .value then
    throw .malformed
  let content ← g.content room id
  if tag == .timestamp && (g.node id).isMapping then
    throw .timeMapping
  Scalar.ofTag tag content

end Graph

------------------------------------------------------------
-- Evaluation
------------------------------------------------------------

/-
  The state of an evaluation: the nodes, the values that are
  known, the collections that have not been opened, the last
  first, and how deep the evaluation may go.
-/
structure State where
  graph : Graph
  values : Array (Option Value)
  closed : List NodeId
  depths : Depths

/- An operation on nodes that finds out values. -/
abbrev Evaluation := StateT State (Except Fault)

namespace Evaluation

/- Keep the value of a node. -/
def keep
    (id : NodeId)
    (v : Value) : Evaluation Value := do
  modify fun s => { s with values := s.values.setIfInBounds id (some v) }
  return v

/-
  The value of a node. It is found out once, and stays as it
  is if the node gets another tag. A collection is opened
  later.
-/
def valueOf (id : NodeId) : Evaluation Value := do
  let s ← get
  match (s.values[id]?).join with
  | some v => return v
  | none =>
      if (s.graph.tag id).isCollection then
        modify fun s => { s with closed := id :: s.closed }
        keep id .collection
      else
        keep id (.scalar (← s.graph.scalarOf s.depths.content id))

/- The value of a key, which is no collection. -/
def keyOf (id : NodeId) : Evaluation Scalar := do
  match ← valueOf id with
  | .scalar s => return s
  | .collection => throw .malformed

/- The pair of an item that is a mapping of one pair. -/
def openPair (id : NodeId) : Evaluation Unit := do
  match (← get).graph.node id with
  | .mapping _ [(key, value)] =>
      discard (valueOf key)
      discard (valueOf value)
  | _ => throw .malformed

/- The items of a sequence. -/
def itemsOf (id : NodeId) : Evaluation (List NodeId) := do
  match (← get).graph.node id with
  | .sequence _ items => return items
  | _ => throw .malformed

/- The members of a mapping, its merges done. -/
def openMapping (id : NodeId) : Evaluation Entries := do
  let s ← get
  if !(s.graph.node id).isMapping then throw .malformed
  let graph ← s.graph.flatten s.depths.merges id
  modify fun s => { s with graph := graph }
  (graph.pairs id).mapM fun (key, value) => do
    let key ← keyOf key
    return (key, ← valueOf value)

/- Look at what a collection holds; the members, if any. -/
def openCollection (id : NodeId) : Evaluation Entries := do
  match (← get).graph.tag id with
  | .seq =>
      for item in ← itemsOf id do
        discard (valueOf item)
      return []
  | .omap =>
      for item in ← itemsOf id do
        openPair item
      return []
  | .pairs =>
      for item in ← itemsOf id do
        openPair item
      return []
  | _ => openMapping id

/-
  Open the collections that are closed, in order, and then
  those that are found in them, down to a given depth.
-/
def openAll : Nat → Evaluation Unit
  | 0 => return
  | depth + 1 => do
      let level := (← get).closed.reverse
      modify fun s => { s with closed := [] }
      for id in level do
        discard (openCollection id)
      if !level.isEmpty then openAll depth

end Evaluation

------------------------------------------------------------
-- Contents
------------------------------------------------------------

/- What a text holds, as far as its settings are concerned. -/
inductive Content where
  | nothing
  | mapping (entries : Entries)
  | other

namespace Document

/- Find out what a document holds. -/
def evaluate (d : Document) : Evaluation Content := do
  let all := Evaluation.openAll (d.graph.nodes.size + 1)
  match ← Evaluation.valueOf d.root with
  | .scalar .null => return .nothing
  | .scalar _ => return .other
  | .collection =>
      if d.graph.tag d.root == .map then
        modify fun s => { s with closed := [] }
        let entries ← Evaluation.openMapping d.root
        all
        return .mapping entries
      else
        all
        return .other

/- What a document holds. -/
def content
    (depths : Depths)
    (d : Document) : Except Fault Content :=
  let values := Array.replicate d.graph.nodes.size none
  d.evaluate.run' ⟨d.graph, values, [], depths⟩

end Document

/- What a text holds. -/
def load
    (depths : Depths)
    (cs : List Char) : Except Fault Content := do
  match ← document? depths.collections cs with
  | some d => d.content depths
  | none => return .nothing

namespace Entries

/- The value of a key, which is the last one given. -/
def get?
    (entries : Entries)
    (key : String) : Option Value :=
  let wanted := Scalar.text (Text.ofString key)
  (entries.reverse.find? fun (k, _) => k == wanted).map Prod.snd

end Entries

end Yaml

end BiomeMigration
