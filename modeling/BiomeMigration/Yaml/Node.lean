import BiomeMigration.Text.CodePoint

/-
  This file defines the nodes of a YAML document and the
  tags that say what they stand for.

  Key definitions include:
    * `Yaml.Tag`
    * `Yaml.Tag.ofName`
    * `Yaml.Node`
    * `Yaml.Graph`
    * `Yaml.Document`
-/

namespace BiomeMigration

namespace Yaml

------------------------------------------------------------
-- Tags
------------------------------------------------------------

/- What a node stands for. -/
inductive Tag where
  | null
  | bool
  | int
  | float
  | binary
  | timestamp
  | str
  | seq
  | map
  | set
  | omap
  | pairs
  | merge
  | value
  | unknown
  deriving DecidableEq, Repr

namespace Tag

/- The beginning of the names of the standard tags. -/
def standard : List Char :=
  "tag:yaml.org,2002:".toList

/- The standard tags by the end of their names. -/
def endings : List (String × Tag) :=
  [("null", .null), ("bool", .bool), ("int", .int),
    ("float", .float), ("binary", .binary),
    ("timestamp", .timestamp), ("str", .str), ("seq", .seq),
    ("map", .map), ("set", .set), ("omap", .omap),
    ("pairs", .pairs), ("merge", .merge), ("value", .value)]

/- The tag of a name. -/
def ofName (name : List Char) : Tag :=
  let found :=
    endings.find? fun (ending, _) =>
      standard ++ ending.toList == name
  (found.map Prod.snd).getD .unknown

/- The tag makes a collection of a node. -/
def isCollection : Tag → Bool
  | .seq => true
  | .map => true
  | .set => true
  | .omap => true
  | .pairs => true
  | _ => false

end Tag

------------------------------------------------------------
-- Nodes
------------------------------------------------------------

/- A node is known by its place in a table. -/
abbrev NodeId := Nat

/- A node. What a collection holds is told by places. -/
inductive Node where
  | scalar (tag : Tag) (content : Text)
  | sequence (tag : Tag) (items : List NodeId)
  | mapping (tag : Tag) (pairs : List (NodeId × NodeId))
  deriving DecidableEq

namespace Node

/- The tag of a node. -/
def tag : Node → Tag
  | .scalar tag _ => tag
  | .sequence tag _ => tag
  | .mapping tag _ => tag

/- The node with another tag. -/
def withTag
    (node : Node)
    (tag : Tag) : Node :=
  match node with
  | .scalar _ content => .scalar tag content
  | .sequence _ items => .sequence tag items
  | .mapping _ pairs => .mapping tag pairs

/- The pairs of a mapping. -/
def pairs : Node → List (NodeId × NodeId)
  | .mapping _ pairs => pairs
  | _ => []

/- The node is a mapping. -/
def isMapping : Node → Bool
  | .mapping _ _ => true
  | _ => false

end Node

------------------------------------------------------------
-- Graphs
------------------------------------------------------------

/-
  A table of nodes. A node with an anchor may be held by
  several others, and by itself.
-/
structure Graph where
  nodes : Array Node

namespace Graph

/- A table without nodes. -/
def empty : Graph :=
  ⟨#[]⟩

/- The node at a place; one that is missing has no meaning. -/
def node
    (g : Graph)
    (id : NodeId) : Node :=
  (g.nodes[id]?).getD (.scalar .unknown [])

/- The tag of the node at a place. -/
def tag
    (g : Graph)
    (id : NodeId) : Tag :=
  (g.node id).tag

/- The table with another node, and the place of that. -/
def add
    (g : Graph)
    (node : Node) : NodeId × Graph :=
  (g.nodes.size, ⟨g.nodes.push node⟩)

/- The table with a node in place of an old one. -/
def set
    (g : Graph)
    (id : NodeId)
    (node : Node) : Graph :=
  ⟨g.nodes.setIfInBounds id node⟩

theorem node_set
    (g : Graph)
    (id other : NodeId)
    (node : Node)
    (h : id < g.nodes.size) :
    (g.set id node).node other =
      if id = other then node else g.node other := by
  by_cases ho : id = other
  · subst ho
    simp [set, Graph.node, h]
  · simp [set, Graph.node, ho]

end Graph

/- A document: a table of nodes, and the place of its root. -/
structure Document where
  graph : Graph
  root : NodeId

end Yaml

end BiomeMigration
