import BiomeMigration.Yaml.Layout
import BiomeMigration.Yaml.Node
import BiomeMigration.Yaml.Resolve

/-
  This file defines the reading of a document: tokens are
  taken one by one, with a stack of the collections that
  are still open.

  Key definitions include:
    * `Yaml.Frame`
    * `Yaml.Stage`
    * `Yaml.Reading`
    * `Yaml.Reading.take`
    * `Yaml.document?`
-/

namespace BiomeMigration

namespace Yaml

------------------------------------------------------------
-- Open Collections
------------------------------------------------------------

/- The properties of a node. -/
structure Properties where
  anchor? : Option (List Char)
  tag? : Option (Option (List Char) × List Char)

/- The place of a node that is not complete, and its tag. -/
structure Mark where
  id : NodeId
  tag : Tag

/-
  A collection that is still open, with what it holds so
  far, last first. A block sequence without indentation has
  no end of its own. `first?` is a key that waits for its
  value. A pair is a mapping of its own between brackets, and
  a lone node between braces is a key without a value.
-/
inductive Frame where
  | blockSequence (mark : Mark) (items : List NodeId)
  | bareSequence (mark : Mark) (items : List NodeId)
  | blockMapping
      (mark : Mark)
      (pairs : List (NodeId × NodeId))
      (first? : Option NodeId)
  | flowSequence (mark : Mark) (items : List NodeId)
  | pair (first? : Option NodeId)
  | flowMapping
      (mark : Mark)
      (pairs : List (NodeId × NodeId))
      (first? : Option NodeId)
  | lone

/- Where a node is expected. -/
inductive Place where
  | root
  | content
  | entry
  | bareEntry
  | blockPart
  | item
  | pairKey
  | pairValue
  | flowKey
  | flowValue
  deriving DecidableEq, Repr

/-
  What may come next. `start` and `between` stand outside
  of documents, `prolog` follows directives, `node` waits
  for a node, `after` follows a complete part of the
  innermost collection, `opened` an opening bracket, and
  `comma` a comma.
-/
inductive Stage where
  | start
  | between
  | prolog (handles : List (List Char × List Char)) (versioned : Bool)
  | node (place : Place) (properties : Properties)
  | after
  | opened
  | comma
  | finished

/-
  The state of a reading: how many collections may stand
  around another one, the stage, the open collections, the
  handles of tags, the nodes that have anchors, all nodes,
  and the root.
-/
structure Reading where
  room : Nat
  stage : Stage
  stack : List Frame
  handles : List (List Char × List Char)
  anchors : List (List Char × NodeId)
  graph : Graph
  root? : Option NodeId

------------------------------------------------------------
-- Parts of Collections
------------------------------------------------------------

namespace Frame

/- The pairs of a mapping with the next key or value. -/
def joined
    (pairs : List (NodeId × NodeId))
    (first? : Option NodeId)
    (id : NodeId) : List (NodeId × NodeId) × Option NodeId :=
  match first? with
  | none => (pairs, some id)
  | some key => ((key, id) :: pairs, none)

/- A collection with another part. -/
def add
    (frame : Frame)
    (id : NodeId) : Frame :=
  match frame with
  | .blockSequence mark items => .blockSequence mark (id :: items)
  | .bareSequence mark items => .bareSequence mark (id :: items)
  | .flowSequence mark items => .flowSequence mark (id :: items)
  | .blockMapping mark pairs first? =>
      let (pairs, first?) := joined pairs first? id
      .blockMapping mark pairs first?
  | .flowMapping mark pairs first? =>
      let (pairs, first?) := joined pairs first? id
      .flowMapping mark pairs first?
  | .pair _ => .pair (some id)
  | .lone => .lone

end Frame

namespace Place

/- A token in front of which nothing stands at a place. -/
def isEmpty
    (place : Place)
    (token : Token) : Bool :=
  match place, token with
  | .content, .directive _ => true
  | .content, .documentStart => true
  | .content, .documentEnd => true
  | .content, .streamEnd => true
  | .entry, .entry => true
  | .entry, .blockEnd => true
  | .bareEntry, .entry => true
  | .bareEntry, .key => true
  | .bareEntry, .value => true
  | .bareEntry, .blockEnd => true
  | .blockPart, .key => true
  | .blockPart, .value => true
  | .blockPart, .blockEnd => true
  | .pairKey, .value => true
  | .pairKey, .comma => true
  | .pairKey, .closeSequence => true
  | .pairValue, .comma => true
  | .pairValue, .closeSequence => true
  | .flowKey, .value => true
  | .flowKey, .comma => true
  | .flowKey, .closeMapping => true
  | .flowValue, .comma => true
  | .flowValue, .closeMapping => true
  | _, _ => false

/- A block may open at a place. -/
def inBlock : Place → Bool
  | .root => true
  | .content => true
  | .entry => true
  | .bareEntry => true
  | .blockPart => true
  | _ => false

end Place

namespace Reading

/- The handles that need no directive. -/
def standardHandles : List (List Char × List Char) :=
  [("!".toList, "!".toList), ("!!".toList, Tag.standard)]

/- The start of a text. -/
def initial (room : Nat) : Reading where
  room := room
  stage := .start
  stack := []
  handles := standardHandles
  anchors := []
  graph := .empty
  root? := none

/- No properties. -/
def bare : Properties :=
  ⟨none, none⟩

/- Go to a stage. -/
def at_
    (r : Reading)
    (stage : Stage) : Reading :=
  { r with stage := stage }

/- Wait for a node. -/
def expect
    (r : Reading)
    (place : Place) : Reading :=
  r.at_ (.node place bare)

/- Wait for a node inside another collection. -/
def inside
    (r : Reading)
    (frame : Frame)
    (stage : Stage) : Reading :=
  { r with stack := frame :: r.stack, stage := stage }

------------------------------------------------------------
-- Complete Nodes
------------------------------------------------------------

/- A node that stands for nothing. -/
def nothing : Node :=
  .scalar .null []

/- A mapping of one pair. -/
def single (key value : NodeId) : Node :=
  .mapping .map [(key, value)]

/- Put a node into the table. -/
def add
    (r : Reading)
    (node : Node) : NodeId × Reading :=
  let (id, graph) := r.graph.add node
  (id, { r with graph := graph })

/- A part of the innermost collection is complete. -/
def put
    (r : Reading)
    (id : NodeId) : Reading :=
  match r.stack with
  | [] => { r with root? := some id, stage := .after }
  | .pair (some key) :: frame :: stack =>
      let (id, r) := r.add (single key id)
      { r with stack := frame.add id :: stack, stage := .after }
  | .lone :: frame :: stack =>
      let (value, r) := r.add nothing
      { r with
        stack := (frame.add id).add value :: stack
        stage := .after }
  | frame :: stack =>
      { r with stack := frame.add id :: stack, stage := .after }

/- A part that stands for nothing. -/
def putNothing (r : Reading) : Reading :=
  let (id, r) := r.add nothing
  r.put id

/-
  The innermost collection is complete. The other ones are
  `stack`.
-/
def close
    (r : Reading)
    (mark : Mark)
    (stack : List Frame)
    (node : Node) : Reading :=
  { r with
    stack := stack
    graph := r.graph.set mark.id node }.put mark.id

/- A sequence is complete; its last item comes first. -/
def closeSequence
    (r : Reading)
    (mark : Mark)
    (stack : List Frame)
    (items : List NodeId) : Reading :=
  r.close mark stack (.sequence mark.tag items.reverse)

/- A mapping is complete; its last pair comes first. -/
def closeMapping
    (r : Reading)
    (mark : Mark)
    (stack : List Frame)
    (pairs : List (NodeId × NodeId)) : Reading :=
  r.close mark stack (.mapping mark.tag pairs.reverse)

------------------------------------------------------------
-- Properties
------------------------------------------------------------

/- The name of a tag with its handle replaced. -/
def tagName
    (r : Reading)
    (tag : Option (List Char) × List Char) :
    Except Fault (List Char) :=
  match tag with
  | (none, ending) => .ok ending
  | (some handle, ending) =>
      match r.handles.lookup handle with
      | some lead => .ok (lead ++ ending)
      | none => .error .malformed

/-
  The name of the tag of a node. A lone exclamation mark
  names none, but makes any scalar plain.
-/
def tagOf
    (r : Reading)
    (p : Properties) : Except Fault (Option (List Char)) :=
  match p.tag? with
  | none => .ok none
  | some tag => (r.tagName tag).map some

/- The name tells the tag of a node. -/
def isTelling (name : Option (List Char)) : Bool :=
  match name with
  | none => false
  | some name => name != ['!']

/-
  Put a node into the table. The name of its anchor must be
  free.
-/
def anchored
    (r : Reading)
    (anchor? : Option (List Char))
    (node : Node) : Except Fault (NodeId × Reading) :=
  let (id, next) := r.add node
  match anchor? with
  | none => .ok (id, next)
  | some label =>
      if (r.anchors.lookup label).isSome then .error .malformed
      else
        .ok (id, { next with anchors := (label, id) :: r.anchors })

/- A scalar with its properties. -/
def scalar
    (r : Reading)
    (p : Properties)
    (plain : Bool)
    (content : Text) : Except Fault Reading := do
  let name ← r.tagOf p
  let tag :=
    if isTelling name then Tag.ofName (name.getD [])
    else if plain || name.isSome then Tag.ofPlain content
    else .str
  let (id, r) ← r.anchored p.anchor? (.scalar tag content)
  return r.put id

/- An opening collection with its properties. -/
def collection
    (r : Reading)
    (p : Properties)
    (usual : Tag)
    (frame : Mark → Frame)
    (stage : Stage) : Except Fault Reading := do
  if r.room < r.stack.length then throw .tooDeep
  let name ← r.tagOf p
  let tag :=
    if isTelling name then Tag.ofName (name.getD []) else usual
  let (id, r) ← r.anchored p.anchor? (.mapping tag [])
  return r.inside (frame ⟨id, tag⟩) stage

------------------------------------------------------------
-- Turns
------------------------------------------------------------

/- A token has been taken, or it is to be looked at again. -/
inductive Turn where
  | taken (r : Reading)
  | again (r : Reading)

/- A node without content; the token belongs to what follows. -/
def leaveEmpty
    (r : Reading)
    (p : Properties) : Except Fault Turn := do
  if p.anchor?.isNone && p.tag?.isNone then throw .malformed
  return .again (← r.scalar p true [])

/- A token where a node is expected. -/
def nodeTurn
    (r : Reading)
    (place : Place)
    (p : Properties)
    (token : Token) : Except Fault Turn := do
  let isBare := p.anchor?.isNone && p.tag?.isNone
  if isBare && place.isEmpty token then
    return .again r.putNothing
  match token with
  | .alias label =>
      if !isBare then r.leaveEmpty p
      else
        match r.anchors.lookup label with
        | some id => return .taken (r.put id)
        | none => throw .malformed
  | .anchor label =>
      if p.anchor?.isSome then r.leaveEmpty p
      else
        return .taken
          (r.at_ (.node place { p with anchor? := some label }))
  | .tag handle ending =>
      if p.tag?.isSome then r.leaveEmpty p
      else
        return .taken
          (r.at_ (.node place { p with tag? := some (handle, ending) }))
  | .scalar plain content =>
      return .taken (← r.scalar p plain content)
  | .openSequence =>
      return .taken
        (← r.collection p .seq (.flowSequence · []) .opened)
  | .openMapping =>
      return .taken
        (← r.collection p .map (.flowMapping · [] none) .opened)
  | .blockSequence =>
      if place.inBlock then
        return .taken
          (← r.collection p .seq (.blockSequence · []) .after)
      else r.leaveEmpty p
  | .blockMapping =>
      if place.inBlock then
        return .taken
          (← r.collection p .map (.blockMapping · [] none) .after)
      else r.leaveEmpty p
  | .entry =>
      if place = .blockPart then
        return .again
          (← r.collection p .seq (.bareSequence · []) .after)
      else r.leaveEmpty p
  | _ => r.leaveEmpty p

/- A token after an opening bracket, or after a comma. -/
def partTurn
    (r : Reading)
    (token : Token) : Except Fault Turn :=
  match r.stack, token with
  | .flowSequence mark items :: stack, .closeSequence =>
      .ok (.taken (r.closeSequence mark stack items))
  | .flowSequence _ _ :: _, .key =>
      .ok (.taken (r.inside (.pair none) (.node .pairKey bare)))
  | .flowSequence _ _ :: _, _ => .ok (.again (r.expect .item))
  | .flowMapping mark pairs _ :: stack, .closeMapping =>
      .ok (.taken (r.closeMapping mark stack pairs))
  | .flowMapping _ _ _ :: _, .key => .ok (.taken (r.expect .flowKey))
  | .flowMapping _ _ _ :: _, _ =>
      .ok (.again (r.inside .lone (.node .item bare)))
  | _, _ => .error .malformed

/- A token after a part of the innermost collection. -/
def afterTurn
    (r : Reading)
    (token : Token) : Except Fault Turn :=
  match r.stack, token with
  | [], .documentEnd => .ok (.taken (r.at_ .between))
  | [], _ => .ok (.again (r.at_ .between))
  | .blockSequence _ _ :: _, .entry => .ok (.taken (r.expect .entry))
  | .blockSequence mark items :: stack, .blockEnd =>
      .ok (.taken (r.closeSequence mark stack items))
  | .bareSequence _ _ :: _, .entry =>
      .ok (.taken (r.expect .bareEntry))
  | .bareSequence mark items :: stack, _ =>
      .ok (.again (r.closeSequence mark stack items))
  | .blockMapping _ _ none :: _, .key =>
      .ok (.taken (r.expect .blockPart))
  | .blockMapping mark pairs none :: stack, .blockEnd =>
      .ok (.taken (r.closeMapping mark stack pairs))
  | .blockMapping _ _ (some _) :: _, .value =>
      .ok (.taken (r.expect .blockPart))
  | .blockMapping _ _ (some _) :: _, _ => .ok (.again r.putNothing)
  | .pair (some _) :: _, .value => .ok (.taken (r.expect .pairValue))
  | .pair (some _) :: _, _ => .ok (.again r.putNothing)
  | .flowMapping _ _ (some _) :: _, .value =>
      .ok (.taken (r.expect .flowValue))
  | .flowMapping _ _ (some _) :: _, _ => .ok (.again r.putNothing)
  | .flowSequence _ _ :: _, .comma => .ok (.taken (r.at_ .comma))
  | .flowSequence _ _ :: _, .closeSequence => r.partTurn token
  | .flowMapping _ _ none :: _, .comma => .ok (.taken (r.at_ .comma))
  | .flowMapping _ _ none :: _, .closeMapping => r.partTurn token
  | _, _ => .error .malformed

/-
  A token in front of a document. The handles of its
  directives come before the standard ones.
-/
def prologTurn
    (r : Reading)
    (handles : List (List Char × List Char))
    (versioned : Bool)
    (token : Token) : Except Fault Turn :=
  match token with
  | .directive (.version major) =>
      if versioned || major != 1 then .error .malformed
      else .ok (.taken (r.at_ (.prolog handles true)))
  | .directive (.tag handle lead) =>
      if (handles.lookup handle).isSome then .error .malformed
      else
        .ok <| .taken <|
          r.at_ (.prolog ((handle, lead) :: handles) versioned)
  | .directive .other =>
      .ok (.taken (r.at_ (.prolog handles versioned)))
  | .documentStart =>
      if r.root?.isSome then .error .malformed
      else
        .ok <| .taken <|
          { r with handles := handles ++ standardHandles }.expect
            .content
  | _ => .error .malformed

/- A token at any stage. -/
def turn
    (r : Reading)
    (token : Token) : Except Fault Turn :=
  match r.stage, token with
  | .start, .directive _ => .ok (.again (r.at_ .between))
  | .start, .documentStart => .ok (.again (r.at_ .between))
  | .start, .streamEnd => .ok (.again (r.at_ .between))
  | .start, _ => .ok (.again (r.expect .root))
  | .between, .documentEnd => .ok (.taken r)
  | .between, .streamEnd => .ok (.taken (r.at_ .finished))
  | .between, _ => .ok (.again (r.at_ (.prolog [] false)))
  | .prolog handles versioned, token =>
      r.prologTurn handles versioned token
  | .node place properties, token => r.nodeTurn place properties token
  | .after, token => r.afterTurn token
  | .opened, token => r.partTurn token
  | .comma, token => r.partTurn token
  | .finished, _ => .error .malformed

/-
  The greatest number of times that a token is looked at. It
  may first end a node without content and collections
  without an end of their own.
-/
def turnLimit : Nat := 8

/- Look at a token until it is taken. -/
def takeWithin
    (token : Token) :
    Nat → Reading → Except Fault Reading
  | 0, _ => .error .malformed
  | turns + 1, r => do
      match ← r.turn token with
      | .taken r => return r
      | .again r => takeWithin token turns r

/- Take a token. -/
def take
    (r : Reading)
    (token : Token) : Except Fault Reading :=
  takeWithin token turnLimit r

end Reading

/-
  The document of a text, if it holds one, where `room`
  collections may stand around another one. The text holds
  no other document.
-/
def document?
    (room : Nat)
    (cs : List Char) : Except Fault (Option Document) := do
  let found := tokens cs
  let r ← found.list.foldlM Reading.take (.initial room)
  match found.fault? with
  | some fault => throw fault
  | none => return r.root?.map fun root => ⟨r.graph, root⟩

end Yaml

end BiomeMigration
