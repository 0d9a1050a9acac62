import BiomeMigration.Proofs.Yaml.Rows
import BiomeMigration.Yaml.Content

/-
  What the text of rows holds: one member for each row, in
  order, whose value is what the word of the row means.

  Main declarations:
    * `Yaml.Row.member`
    * `Yaml.load_textOf`
-/

------------------------------------------------------------
-- Reading Rows
------------------------------------------------------------

namespace BiomeMigration

namespace Yaml

namespace Row

/- What a word stands for: itself, if it is quoted. -/
def tag (r : Row) : Tag :=
  if r.quoted then .str else Tag.ofPlain (Text.ofChars r.word)

/- The node of the key of a row. -/
def keyNode (r : Row) : Node :=
  .scalar (Tag.ofPlain (Text.ofChars r.key)) (Text.ofChars r.key)

/- The node of the value of a row. -/
def valueNode (r : Row) : Node :=
  .scalar r.tag (Text.ofChars r.word)

end Row

namespace Reading

/- The state between two rows, by the nodes and the pairs. -/
def betweenRows
    (room : Nat)
    (nodes : Array Node)
    (pairs : List (NodeId × NodeId)) : Reading where
  room := room
  stage := .after
  stack := [.blockMapping ⟨0, .map⟩ pairs none]
  handles := standardHandles
  anchors := []
  graph := ⟨nodes⟩
  root? := none

/- The tokens of a row add two nodes and their pair. -/
theorem take_row
    (room : Nat)
    (r : Row)
    (nodes : Array Node)
    (pairs : List (NodeId × NodeId)) :
    r.tokens.foldlM take (betweenRows room nodes pairs) =
      .ok
        (betweenRows room ((nodes.push r.keyNode).push r.valueNode)
          ((nodes.size, (nodes.push r.keyNode).size) :: pairs)) := by
  rcases r with ⟨key, quoted, word⟩
  cases quoted with
  | false => rfl
  | true => rfl

end Reading

namespace Row

/- The nodes of some rows. -/
def nodesOf (rows : List Row) : List Node :=
  rows.flatMap fun r => [r.keyNode, r.valueNode]

/- The pairs of some rows, whose nodes start at a place. -/
def pairsFrom (place : Nat) : List Row → List (NodeId × NodeId)
  | [] => []
  | _ :: rows => (place, place + 1) :: pairsFrom (place + 2) rows

end Row

namespace Reading

theorem take_rows
    (room : Nat)
    (rows : List Row)
    (nodes : List Node)
    (pairs : List (NodeId × NodeId)) :
    (rows.flatMap Row.tokens).foldlM take
        (betweenRows room nodes.toArray pairs) =
      .ok
        (betweenRows room (nodes ++ Row.nodesOf rows).toArray
          ((Row.pairsFrom nodes.length rows).reverse ++ pairs)) := by
  induction rows generalizing nodes pairs with
  | nil =>
      simp only [List.flatMap_nil, Row.nodesOf, List.append_nil]
      rfl
  | cons r rows ih =>
      have hNodes :
          (nodes.toArray.push r.keyNode).push r.valueNode =
            (nodes ++ [r.keyNode, r.valueNode]).toArray := by
        simp
      rw [List.flatMap_cons, List.foldlM_append, take_row, hNodes]
      show (rows.flatMap Row.tokens).foldlM take _ = _
      rw [ih]
      simp [Row.nodesOf, Row.pairsFrom]

/- The end of a text puts the pairs into the first node. -/
theorem take_end
    (room : Nat)
    (first : Node)
    (nodes : List Node)
    (pairs : List (NodeId × NodeId)) :
    [.blockEnd, .streamEnd].foldlM take
        (betweenRows room (first :: nodes).toArray
          pairs.reverse) =
      .ok
        { room := room
          stage := .finished
          stack := []
          handles := standardHandles
          anchors := []
          graph := ⟨(.mapping .map pairs :: nodes).toArray⟩
          root? := some 0 } := by
  have hSet :
      (first :: nodes).toArray.setIfInBounds 0
          (.mapping .map pairs.reverse.reverse) =
        (.mapping .map pairs :: nodes).toArray := by
    simp
  rw [← hSet]
  rfl

end Reading

/- The document of the text of some rows. -/
def Row.documentOf (rows : List Row) : Document where
  graph :=
    ⟨(.mapping .map (Row.pairsFrom 1 rows) ::
      Row.nodesOf rows).toArray⟩
  root := 0

theorem document?_textOf
    (room : Nat)
    {r : Row}
    {rows : List Row}
    (hSound : ∀ s ∈ r :: rows, s.IsSound) :
    document? room (Row.textOf (r :: rows)) =
      .ok (some (Row.documentOf (r :: rows))) := by
  have hStart :
      (Reading.initial room).take .blockMapping =
        .ok (.betweenRows room [.mapping .map []].toArray []) :=
    rfl
  have hRows :=
    Reading.take_rows room (r :: rows) [.mapping .map []] []
  rw [List.append_nil] at hRows
  have hEnd :=
    Reading.take_end room (.mapping .map [])
      (Row.nodesOf (r :: rows)) (Row.pairsFrom 1 (r :: rows))
  unfold document?
  rw [tokens_textOf hSound]
  dsimp only
  rw [List.foldlM_cons, hStart]
  show (List.foldlM _ _ _ >>= _) = _
  rw [List.foldlM_append, hRows]
  show (List.foldlM _ _ _ >>= _) = _
  rw [List.length_singleton, List.singleton_append, hEnd]
  rfl

------------------------------------------------------------
-- Values
------------------------------------------------------------

namespace Row

/- The member of a mapping that a row makes. -/
def member (r : Row) : Except Fault (Scalar × Value) := do
  let s ← Scalar.ofTag r.tag (Text.ofChars r.word)
  return (.text (Text.ofChars r.key), .scalar s)

end Row

/- What a plain scalar shows is no collection. -/
theorem Tag.isCollection_ofPlain (t : Text) :
    (Tag.ofPlain t).isCollection = false := by
  unfold Tag.ofPlain
  cases t.chars? with
  | none => rfl
  | some cs =>
      dsimp only
      repeat' split
      all_goals rfl

theorem Row.isCollection_tag (r : Row) :
    r.tag.isCollection = false := by
  unfold Row.tag
  split
  · rfl
  · exact Tag.isCollection_ofPlain _

/- A scalar gives its own content. -/
theorem Graph.scalarOf_scalar
    {g : Graph}
    {id : NodeId}
    {tag : Tag}
    {content : Text}
    (room : Nat)
    (hNode : g.node id = .scalar tag content) :
    g.scalarOf room id = Scalar.ofTag tag content := by
  have hContent : g.content room id = .ok content := by
    unfold Graph.content
    rw [Graph.contentWithin, hNode]
  have hTag : g.tag id = tag := by
    rw [Graph.tag, hNode]
    rfl
  unfold Graph.scalarOf
  rw [hContent, hTag, hNode]
  cases tag with
  | _ => rfl

namespace Evaluation

variable {s : State} {id : NodeId}

/- The state with the value of a node. -/
def known
    (s : State)
    (id : NodeId)
    (v : Value) : State :=
  { s with values := s.values.setIfInBounds id (some v) }

/- To read the state is to go on with it. -/
theorem get_bind_apply
    {α : Type}
    (f : State → Evaluation α)
    (s : State) :
    (get >>= f) s = f s s :=
  rfl

/- The value of a scalar that has not been looked at. -/
theorem valueOf_scalar
    {tag : Tag}
    {content : Text}
    (hNode : s.graph.node id = .scalar tag content)
    (hTag : tag.isCollection = false)
    (hNone : (s.values[id]?).join = none) :
    valueOf id s =
      (Scalar.ofTag tag content).map fun v =>
        (.scalar v, known s id (.scalar v)) := by
  have hSame : s.graph.tag id = tag := by
    rw [Graph.tag, hNode]
    rfl
  have hStep :
      valueOf id s =
        (s.graph.scalarOf s.depths.content id >>= fun v =>
          .ok (.scalar v, known s id (.scalar v))) := by
    unfold valueOf
    rw [get_bind_apply, hNone]
    show (if (s.graph.tag id).isCollection then _ else _ :
      Evaluation Value) s = _
    rw [hSame, hTag]
    show ((liftM (s.graph.scalarOf s.depths.content id) :
      Evaluation Scalar) >>= _) s = _
    cases s.graph.scalarOf s.depths.content id with
    | error fault => rfl
    | ok v => rfl
  rw [hStep, s.graph.scalarOf_scalar _ hNode]
  cases Scalar.ofTag tag content with
  | error fault => rfl
  | ok v => rfl

/- The nodes from a place on have not been looked at. -/
def FreshFrom (place : Nat) (s : State) : Prop :=
  ∀ id, place ≤ id → (s.values[id]?).join = none

theorem FreshFrom.known
    {place : Nat}
    (hFresh : FreshFrom place s)
    (hLess : id < place)
    (v : Value) :
    FreshFrom place (known s id v) := by
  intro other hLe
  have hNe : id ≠ other :=
    Nat.ne_of_lt (Nat.lt_of_lt_of_le hLess hLe)
  show ((s.values.setIfInBounds id (some v))[other]?).join = none
  rw [Array.getElem?_setIfInBounds_ne hNe]
  exact hFresh other hLe

theorem FreshFrom.mono
    {place next : Nat}
    (hFresh : FreshFrom place s)
    (hLe : place ≤ next) :
    FreshFrom next s :=
  fun other hNext => hFresh other (Nat.le_trans hLe hNext)

/- The member of a pair of nodes. -/
def memberOf (pair : NodeId × NodeId) :
    Evaluation (Scalar × Value) := do
  let key ← keyOf pair.1
  return (key, ← valueOf pair.2)

/- The pair of a row gives its member. -/
theorem memberOf_row
    {r : Row}
    {place : Nat}
    (hName : Tag.ofPlain (Text.ofChars r.key) = .str)
    (hKey : s.graph.node place = r.keyNode)
    (hValue : s.graph.node (place + 1) = r.valueNode)
    (hFresh : FreshFrom place s) :
    ∃ final,
      memberOf (place, place + 1) s = r.member.map (·, final) ∧
        final.graph = s.graph ∧ final.closed = s.closed ∧
        FreshFrom (place + 2) final := by
  have hKeyKnown :
      valueOf place s =
        .ok
          (.scalar (.text (Text.ofChars r.key)),
            known s place
              (.scalar (.text (Text.ofChars r.key)))) := by
    rw [Row.keyNode, hName] at hKey
    exact valueOf_scalar hKey rfl (hFresh place (Nat.le_refl _))
  generalize hNext :
    known s place (.scalar (.text (Text.ofChars r.key))) = next at *
  have hSame : next.graph = s.graph ∧ next.closed = s.closed := by
    rw [← hNext]
    exact ⟨rfl, rfl⟩
  have hMore : FreshFrom (place + 1) next := by
    rw [← hNext]
    exact (hFresh.mono (Nat.le_succ _)).known (Nat.lt_succ_self _) _
  have hKnown :
      valueOf (place + 1) next =
        (Scalar.ofTag r.tag (Text.ofChars r.word)).map fun v =>
          (.scalar v, known next (place + 1) (.scalar v)) := by
    apply valueOf_scalar _ r.isCollection_tag
      (hMore _ (Nat.le_refl _))
    rw [hSame.1]
    exact hValue
  have hRun :
      memberOf (place, place + 1) s =
        (valueOf (place + 1) next).map fun found =>
          ((.text (Text.ofChars r.key), found.1), found.2) := by
    have hKeyOf :
        keyOf place s =
          .ok (.text (Text.ofChars r.key), next) := by
      show (valueOf place s).bind _ = _
      rw [hKeyKnown]
      rfl
    show (keyOf place s).bind _ = _
    rw [hKeyOf]
    show (valueOf (place + 1) next).bind _ = _
    cases valueOf (place + 1) next with
    | error fault => rfl
    | ok found => rfl
  cases hMeaning : Scalar.ofTag r.tag (Text.ofChars r.word) with
  | error fault =>
      refine ⟨next, ?_, hSame.1, hSame.2,
        hMore.mono (Nat.le_succ _)⟩
      rw [hRun, hKnown, Row.member, hMeaning]
      rfl
  | ok v =>
      refine ⟨known next (place + 1) (.scalar v), ?_, hSame.1,
        hSame.2,
        (hMore.mono (Nat.le_succ _)).known (Nat.lt_succ_self _) _⟩
      rw [hRun, hKnown, Row.member, hMeaning]
      rfl

/- The nodes of rows stand at their places. -/
def Holds
    (g : Graph)
    (place : Nat)
    (rows : List Row) : Prop :=
  ∃ nodes : List Node,
    nodes.length = place ∧
      g.nodes = (nodes ++ Row.nodesOf rows).toArray

theorem Holds.cons
    {g : Graph}
    {place : Nat}
    {r : Row}
    {rows : List Row}
    (hHolds : Holds g place (r :: rows)) :
    g.node place = r.keyNode ∧ g.node (place + 1) = r.valueNode ∧
      Holds g (place + 2) rows := by
  rcases hHolds with ⟨nodes, rfl, hNodes⟩
  refine ⟨?_, ?_, nodes ++ [r.keyNode, r.valueNode], ?_, ?_⟩
  · simp [Graph.node, hNodes, Row.nodesOf]
  · simp [Graph.node, hNodes, Row.nodesOf]
  · simp
  · simp [hNodes, Row.nodesOf]

/- The pairs of rows give their members in order. -/
theorem mapM_memberOf
    {rows : List Row}
    {place : Nat}
    (hNames :
      ∀ r ∈ rows, Tag.ofPlain (Text.ofChars r.key) = .str)
    (hHolds : Holds s.graph place rows)
    (hFresh : FreshFrom place s) :
    ∃ final,
      (Row.pairsFrom place rows).mapM memberOf s =
          (rows.mapM Row.member).map (·, final) ∧
        final.closed = s.closed := by
  induction rows generalizing place s with
  | nil => exact ⟨s, rfl, rfl⟩
  | cons r rows ih =>
      rcases List.forall_mem_cons.mp hNames with ⟨hName, hMore⟩
      rcases hHolds.cons with ⟨hKey, hValue, hRest⟩
      rcases memberOf_row hName hKey hValue hFresh with
        ⟨next, hRun, hGraph, hClosed, hNext⟩
      rw [← hGraph] at hRest
      rcases ih hMore hRest hNext with ⟨final, hRuns, hSame⟩
      refine ⟨final, ?_, hSame.trans hClosed⟩
      rw [Row.pairsFrom, List.mapM_cons, List.mapM_cons]
      show (memberOf (place, place + 1) s).bind _ = _
      rw [hRun]
      cases hMember : r.member with
      | error fault => rfl
      | ok m =>
          show ((Row.pairsFrom (place + 2) rows).mapM memberOf
            next).bind _ = _
          rw [hRuns]
          cases rows.mapM Row.member with
          | error fault => rfl
          | ok members => rfl

/- The keys of rows stand for themselves. -/
theorem Holds.tag_key
    {g : Graph}
    {place : Nat}
    {rows : List Row}
    (hHolds : Holds g place rows)
    (hNames :
      ∀ r ∈ rows, Tag.ofPlain (Text.ofChars r.key) = .str) :
    ∀ pair ∈ Row.pairsFrom place rows, g.tag pair.1 = .str := by
  induction rows generalizing place with
  | nil =>
      intro pair hMem
      cases hMem
  | cons r rows ih =>
      rcases List.forall_mem_cons.mp hNames with ⟨hName, hMore⟩
      rcases hHolds.cons with ⟨hKey, _, hRest⟩
      intro pair hMem
      rcases List.mem_cons.mp hMem with rfl | hMem
      · rw [Graph.tag, hKey]
        exact hName
      · exact ih hRest hMore pair hMem

end Evaluation

------------------------------------------------------------
-- Merges
------------------------------------------------------------

namespace Graph

variable {g : Graph} {pairs : List (NodeId × NodeId)}

/- A mapping without special keys asks for no merge. -/
theorem cutMerge_none
    (hKeys : ∀ pair ∈ pairs, g.tag pair.1 = .str) :
    g.cutMerge pairs = none := by
  induction pairs with
  | nil => rfl
  | cons pair pairs ih =>
      rcases List.forall_mem_cons.mp hKeys with ⟨hFirst, hMore⟩
      rcases pair with ⟨key, value⟩
      rw [cutMerge, hFirst, ih hMore]
      rfl

theorem foldl_settleKey
    (hKeys : ∀ pair ∈ pairs, g.tag pair.1 = .str) :
    pairs.foldl (fun g pair => g.settleKey pair.1) g = g := by
  induction pairs with
  | nil => rfl
  | cons pair pairs ih =>
      rcases List.forall_mem_cons.mp hKeys with ⟨hFirst, hMore⟩
      have hSame : g.settleKey pair.1 = g := by
        rw [settleKey, hFirst]
        rfl
      rw [List.foldl_cons, hSame, ih hMore]

/- Such a mapping is flat already. -/
theorem flatten_eq
    {id : NodeId}
    {tag : Tag}
    (room : Nat)
    (hNode : g.nodes[id]? = some (.mapping tag pairs))
    (hKeys : ∀ pair ∈ pairs, g.tag pair.1 = .str) :
    g.flatten room id = .ok g := by
  have hPairs : g.pairs id = pairs := by
    simp [Graph.pairs, Graph.node, hNode, Node.pairs]
  have hTag : g.tag id = tag := by
    simp [Graph.tag, Graph.node, hNode, Node.tag]
  have hSet : g.setPairs id pairs = g := by
    rcases g with ⟨nodes⟩
    rw [setPairs, hTag, Graph.set]
    congr 1
    apply Array.ext_getElem?
    intro other
    rw [Array.getElem?_setIfInBounds]
    split
    · next hSame =>
        subst hSame
        have hLess := (Array.getElem?_eq_some_iff.mp hNode).1
        rw [if_pos hLess]
        exact hNode.symm
    · rfl
  unfold flatten
  rw [flattenWithin, hPairs, cutMerge_none hKeys]
  dsimp only
  rw [foldl_settleKey hKeys, List.nil_append, hSet]

end Graph

------------------------------------------------------------
-- Contents
------------------------------------------------------------

/- The members of a mapping that is flat. -/
theorem Evaluation.openMapping_flat
    {s : State}
    {id : NodeId}
    {tag : Tag}
    {pairs : List (NodeId × NodeId)}
    (hNode : s.graph.node id = .mapping tag pairs)
    (hFlat : s.graph.flatten s.depths.merges id = .ok s.graph) :
    openMapping id s = pairs.mapM memberOf s := by
  have hPairs : s.graph.pairs id = pairs := by
    rw [Graph.pairs, hNode]
    rfl
  have hOpen :
      openMapping id s =
        ((s.graph.flatten s.depths.merges id >>= fun g =>
          (g.pairs id).mapM memberOf { s with graph := g }) :
            Except Fault (Entries × State)) := by
    unfold openMapping
    show (if !(s.graph.node id).isMapping then _ else _ :
      Evaluation Entries) s = _
    rw [hNode]
    show ((liftM (s.graph.flatten s.depths.merges id) :
      Evaluation Graph) >>= _) s = _
    cases s.graph.flatten s.depths.merges id with
    | error fault => rfl
    | ok g => rfl
  rw [hOpen, hFlat]
  show (s.graph.pairs id).mapM memberOf s = _
  rw [hPairs]

/- No value of a new evaluation is known. -/
theorem Evaluation.freshFrom_initial
    (g : Graph)
    (closed : List NodeId)
    (depths : Depths)
    (place size : Nat) :
    FreshFrom place
      ⟨g, Array.replicate size none, closed, depths⟩ := by
  intro id _
  rw [Array.getElem?_replicate]
  split
  · rfl
  · rfl

/- The state in which a document is looked at. -/
def Document.initial
    (depths : Depths)
    (d : Document) : State :=
  ⟨d.graph, Array.replicate d.graph.nodes.size none, [], depths⟩

/- The state in which the root of a document is opened. -/
def Document.opened
    (depths : Depths)
    (d : Document) : State :=
  Evaluation.known (d.initial depths) d.root .collection

/- A mapping at the root is opened first. -/
theorem content_eq
    {d : Document}
    {pairs : List (NodeId × NodeId)}
    (depths : Depths)
    (hRoot : d.graph.node d.root = .mapping .map pairs) :
    d.content depths =
      (do
        let (entries, s) ←
          Evaluation.openMapping d.root (d.opened depths)
        let _ ← Evaluation.openAll (d.graph.nodes.size + 1) s
        return .mapping entries) := by
  have hTag : d.graph.tag d.root = .map := by
    rw [Graph.tag, hRoot]
    rfl
  have hFresh :=
    Evaluation.freshFrom_initial d.graph [] depths d.root
      d.graph.nodes.size d.root (Nat.le_refl _)
  have hValue :
      Evaluation.valueOf d.root (d.initial depths) =
        .ok
          (.collection,
            { d.opened depths with closed := [d.root] }) := by
    unfold Evaluation.valueOf Document.initial
    rw [Evaluation.get_bind_apply]
    dsimp only
    rw [hFresh]
    show (if (d.graph.tag d.root).isCollection then _ else _ :
      Evaluation Value) _ = _
    rw [hTag]
    rfl
  unfold Document.content Document.evaluate
  show ((Evaluation.valueOf d.root
    (d.initial depths)).bind _).map Prod.fst = _
  rw [hValue]
  show ((if d.graph.tag d.root == .map then _ else _ :
    Evaluation Content) _).map Prod.fst = _
  rw [hTag]
  show ((Evaluation.openMapping d.root
    (d.opened depths)).bind _).map Prod.fst =
      (Evaluation.openMapping d.root (d.opened depths)).bind _
  cases Evaluation.openMapping d.root (d.opened depths) with
  | error fault => rfl
  | ok found =>
      show ((Evaluation.openAll (d.graph.nodes.size + 1)
        found.2).bind _).map Prod.fst =
          (Evaluation.openAll (d.graph.nodes.size + 1)
            found.2).bind _
      cases Evaluation.openAll (d.graph.nodes.size + 1) found.2 with
      | error fault => rfl
      | ok final => rfl

/- Nothing is left to open. -/
theorem Evaluation.openAll_nil
    {s : State}
    (hClosed : s.closed = [])
    (depth : Nat) :
    openAll (depth + 1) s = .ok ((), s) := by
  rcases s with ⟨g, values, closed, depths⟩
  cases hClosed
  rfl

/- What the document of rows holds. -/
theorem content_documentOf
    (depths : Depths)
    {rows : List Row}
    (hNames :
      ∀ r ∈ rows, Tag.ofPlain (Text.ofChars r.key) = .str) :
    (Row.documentOf rows).content depths =
      (rows.mapM Row.member).map .mapping := by
  generalize hGraph : (Row.documentOf rows).graph = g
  have hRoot :
      g.nodes[0]? =
        some (.mapping .map (Row.pairsFrom 1 rows)) := by
    rw [← hGraph]
    rfl
  have hHolds : Evaluation.Holds g 1 rows := by
    rw [← hGraph]
    exact ⟨[.mapping .map (Row.pairsFrom 1 rows)], rfl, rfl⟩
  have hKeys := hHolds.tag_key hNames
  have hFlat : g.flatten depths.merges 0 = .ok g :=
    Graph.flatten_eq _ hRoot hKeys
  have hNode : g.node 0 = .mapping .map (Row.pairsFrom 1 rows) := by
    simp [Graph.node, hRoot]
  subst hGraph
  have hFresh :
      Evaluation.FreshFrom 1
        ((Row.documentOf rows).opened depths) :=
    (Evaluation.freshFrom_initial _ [] depths 1 _).known
      Nat.one_pos .collection
  rcases Evaluation.mapM_memberOf hNames hHolds hFresh with
    ⟨final, hRun, hClosed⟩
  have hOpen :
      Evaluation.openMapping 0
        ((Row.documentOf rows).opened depths) = _ :=
    Evaluation.openMapping_flat hNode hFlat
  rw [content_eq depths hNode]
  show (Evaluation.openMapping 0 _).bind _ = _
  rw [hOpen, hRun]
  cases rows.mapM Row.member with
  | error fault => rfl
  | ok members =>
      show (Evaluation.openAll _ final).bind _ = _
      rw [Evaluation.openAll_nil hClosed]
      rfl

/- What the text of rows holds. -/
theorem load_textOf
    (depths : Depths)
    {r : Row}
    {rows : List Row}
    (hSound : ∀ s ∈ r :: rows, s.IsSound)
    (hNames :
      ∀ s ∈ r :: rows,
        Tag.ofPlain (Text.ofChars s.key) = .str) :
    load depths (Row.textOf (r :: rows)) =
      ((r :: rows).mapM Row.member).map .mapping := by
  unfold load
  rw [document?_textOf _ hSound]
  exact content_documentOf depths hNames

end Yaml

end BiomeMigration
