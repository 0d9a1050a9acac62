import BiomeMigration.Proofs.Yaml.Scalars
import BiomeMigration.Yaml.Content

/-
  What can be wrong with the values of a document. However
  deep a value is, and whatever has been merged before, a
  fault of a scalar is that of a content of the document
  under a tag of the document.

  Main declarations:
    * `Yaml.Graph.Settles`
    * `Yaml.Graph.AsksFor`
    * `Yaml.Graph.IsOfValue`
    * `Yaml.Document.only_content`
    * `Yaml.Origin`
    * `Yaml.origin_of_load`
-/

------------------------------------------------------------
-- Results and their Values
------------------------------------------------------------

namespace BiomeMigration

namespace Yaml

variable {α β : Type}

/- A result has a value of a kind, or a fault of a kind. -/
structure Gives
    (P : Fault → Prop)
    (Q : α → Prop)
    (result : Except Fault α) : Prop where
  only : Only P result
  value : ∀ a, result = .ok a → Q a

namespace Gives

variable {P : Fault → Prop} {Q Q' : α → Prop} {R : β → Prop}
variable {result : Except Fault α}

theorem ok
    {a : α}
    (hValue : Q a) :
    Gives P Q (.ok a) where
  only := Only.ok a
  value b hSame := by
    rw [← Except.ok.inj hSame]
    exact hValue

theorem error
    {fault : Fault}
    (hFault : P fault) :
    Gives P Q (.error fault : Except Fault α) where
  only := Only.error hFault
  value b hSame := by cases hSame

theorem bind
    {next : α → Except Fault β}
    (hFirst : Gives P Q result)
    (hThen : ∀ a, Q a → Gives P R (next a)) :
    Gives P R (result >>= next) := by
  cases result with
  | error fault => exact error (hFirst.only fault rfl)
  | ok a => exact hThen a (hFirst.value a rfl)

theorem mono
    (hGives : Gives P Q result)
    (hMore : ∀ a, Q a → Q' a) :
    Gives P Q' result :=
  ⟨hGives.only, fun a hSame => hMore a (hGives.value a hSame)⟩

/- A fold over a list keeps what its steps keep. -/
theorem foldlM
    {step : β → α → Except Fault β}
    {b : β}
    (hStart : R b)
    (hStep : ∀ b, R b → ∀ a, Gives P R (step b a))
    {as : List α} :
    Gives P R (as.foldlM step b) := by
  induction as generalizing b with
  | nil => exact ok hStart
  | cons a as ih =>
      rw [List.foldlM_cons]
      exact (hStep b hStart a).bind fun _ hNext => ih hNext

end Gives

end Yaml

end BiomeMigration

------------------------------------------------------------
-- Tables that Merging Changes
------------------------------------------------------------

namespace BiomeMigration

namespace Yaml

namespace Graph

/-
  A table has become another one by merging: the contents
  stay, and a tag stays unless it becomes that of text. The
  pairs of a mapping may be others.
-/
structure Settles (g g' : Graph) : Prop where
  tag : ∀ id, g'.tag id = g.tag id ∨ g'.tag id = .str
  content :
    ∀ id tag t, g'.node id = .scalar tag t →
      ∃ tag', g.node id = .scalar tag' t
  mapping : ∀ id, (g'.node id).isMapping = (g.node id).isMapping

theorem Settles.refl (g : Graph) : g.Settles g where
  tag _ := Or.inl rfl
  content _ tag _ hNode := ⟨tag, hNode⟩
  mapping _ := rfl

theorem Settles.trans
    {g g' g'' : Graph}
    (hFirst : g.Settles g')
    (hThen : g'.Settles g'') :
    g.Settles g'' where
  tag id := by
    rcases hThen.tag id with hSame | hText
    · rw [hSame]
      exact hFirst.tag id
    · exact Or.inr hText
  content id tag t hNode := by
    rcases hThen.content id tag t hNode with ⟨tag', hBefore⟩
    exact hFirst.content id tag' t hBefore
  mapping id := (hThen.mapping id).trans (hFirst.mapping id)

variable {g : Graph} {id : NodeId}

/- The node at a place that gets another node. -/
theorem node_set_cases
    (g : Graph)
    (id other : NodeId)
    (node : Node) :
    (g.set id node).node other = g.node other ∨
      id = other ∧ (g.set id node).node other = node := by
  by_cases hSame : id = other
  · subst hSame
    by_cases hLt : id < g.nodes.size
    · exact Or.inr ⟨rfl, by rw [node_set g id id node hLt, if_pos rfl]⟩
    · left
      simp [set, Graph.node, hLt]
  · left
    simp [set, Graph.node, hSame]

theorem settles_settleKey
    (g : Graph)
    (key : NodeId) :
    g.Settles (g.settleKey key) := by
  unfold settleKey
  split
  · have hCases := fun id =>
      node_set_cases g key id ((g.node key).withTag .str)
    refine ⟨fun id => ?_, fun id tag t hNode => ?_, fun id => ?_⟩
    · rcases hCases id with hSame | ⟨rfl, hText⟩
      · exact Or.inl (congrArg Node.tag hSame)
      · right
        show Node.tag _ = .str
        rw [hText]
        cases g.node key with
        | scalar tag content => rfl
        | sequence tag items => rfl
        | mapping tag pairs => rfl
    · rcases hCases id with hSame | ⟨rfl, hText⟩
      · exact ⟨tag, hSame.symm.trans hNode⟩
      · rw [hText] at hNode
        cases hKey : g.node key with
        | scalar before content =>
            rw [hKey] at hNode
            cases hNode
            exact ⟨before, rfl⟩
        | sequence before items =>
            rw [hKey] at hNode
            cases hNode
        | mapping before pairs =>
            rw [hKey] at hNode
            cases hNode
    · rcases hCases id with hSame | ⟨rfl, hText⟩
      · rw [hSame]
      · rw [hText]
        cases g.node key with
        | scalar tag content => rfl
        | sequence tag items => rfl
        | mapping tag pairs => rfl
  · exact Settles.refl g

theorem settles_setPairs
    (hMapping : (g.node id).isMapping = true)
    (pairs : List (NodeId × NodeId)) :
    g.Settles (g.setPairs id pairs) := by
  have hCases := fun other =>
    node_set_cases g id other (.mapping (g.tag id) pairs)
  refine ⟨fun other => ?_, fun other tag t hNode => ?_,
    fun other => ?_⟩
  · left
    rcases hCases other with hSame | ⟨rfl, hNew⟩
    · exact congrArg Node.tag hSame
    · exact (congrArg Node.tag hNew :)
  · rcases hCases other with hSame | ⟨rfl, hNew⟩
    · exact ⟨tag, hSame.symm.trans hNode⟩
    · cases hNew.symm.trans hNode
  · rcases hCases other with hSame | ⟨rfl, hNew⟩
    · exact congrArg Node.isMapping hSame
    · exact (congrArg Node.isMapping hNew).trans hMapping.symm

------------------------------------------------------------
-- Merging
------------------------------------------------------------

/- The faults of merging. -/
inductive IsOfMerge : Fault → Prop where
  | malformed : IsOfMerge .malformed
  | mergesTooDeep : IsOfMerge .mergesTooDeep

/-
  What is merged into a mapping: every mapping that is
  flattened for it stays settled.
-/
theorem gives_mergedBy
    {flatten : Graph → NodeId → Except Fault Graph}
    (hFlatten :
      ∀ g id, (g.node id).isMapping = true →
        Gives IsOfMerge g.Settles (flatten g id))
    (g : Graph)
    (value : NodeId) :
    Gives IsOfMerge (fun found => g.Settles found.2)
      (mergedBy flatten g value) := by
  unfold mergedBy
  split
  · next hNode =>
      have hMapping : (g.node value).isMapping = true := by
        rw [hNode]
        rfl
      exact (hFlatten g value hMapping).bind fun g' hSettles =>
        Gives.ok hSettles
  · apply Gives.bind (Q := fun found => g.Settles found.2)
    · refine Gives.foldlM ?_ ?_
      · exact Settles.refl g
      rintro ⟨lists, g'⟩ hFound item
      dsimp only
      split
      · exact Gives.error .malformed
      · next hTest =>
          have hMapping : (g'.node item).isMapping = true := by
            simpa using hTest
          exact (hFlatten g' item hMapping).bind
            fun g'' hSettles => Gives.ok (hFound.trans hSettles)
    · rintro ⟨lists, g'⟩ hSettles
      exact Gives.ok hSettles
  · exact Gives.error .malformed

/- Merging settles a table, or it fails as merging may. -/
theorem gives_flattenWithin
    (fuel depth : Nat)
    (merged : List (NodeId × NodeId))
    {g : Graph}
    {id : NodeId}
    (hMapping : (g.node id).isMapping = true) :
    Gives IsOfMerge g.Settles
      (flattenWithin fuel depth merged g id) := by
  induction fuel generalizing depth merged g id with
  | zero =>
      unfold flattenWithin
      exact Gives.ok (Settles.refl g)
  | succ fuel ih =>
      cases depth with
      | zero =>
          unfold flattenWithin
          exact Gives.error .mergesTooDeep
      | succ depth =>
          unfold flattenWithin
          split
          · next value rest hCut =>
              have hCutOut := settles_setPairs hMapping rest
              have hMerged :=
                gives_mergedBy
                  (fun g id hMapping => ih depth [] hMapping)
                  (g.setPairs id rest) value
              apply hMerged.bind
              rintro ⟨more, g'⟩ hSettles
              have hBefore := hCutOut.trans hSettles
              have hStill : (g'.node id).isMapping = true :=
                (hBefore.mapping id).trans hMapping
              exact (ih (depth + 1) (merged ++ more) hStill).mono
                fun _ hAfter => hBefore.trans hAfter
          · have hKeys :
                ∀ (own : List (NodeId × NodeId)) (g : Graph),
                  g.Settles
                    (own.foldl (fun g pair => g.settleKey pair.1)
                      g) := by
              intro own
              induction own with
              | nil => exact Settles.refl
              | cons pair own ihOwn =>
                  intro g
                  exact (settles_settleKey g pair.1).trans (ihOwn _)
            have hSettled := hKeys (g.pairs id) g
            have hStill := (hSettled.mapping id).trans hMapping
            exact Gives.ok
              (hSettled.trans (settles_setPairs hStill _))

theorem gives_flatten
    (room : Nat)
    (hMapping : (g.node id).isMapping = true) :
    Gives IsOfMerge g.Settles (g.flatten room id) :=
  gives_flattenWithin _ _ _ hMapping

------------------------------------------------------------
-- Scalars
------------------------------------------------------------

/-
  A value is asked for: a tag and a content of the table. A
  mapping has its content from another node.
-/
inductive AsksFor (g : Graph) (tag : Tag) (t : Text) : Prop where
  | own
      {id : NodeId}
      (hNode : g.node id = .scalar tag t) :
      AsksFor g tag t
  | lent
      {id other : NodeId}
      {tag' : Tag}
      (hMapping : (g.node id).isMapping = true)
      (hTag : g.tag id = tag)
      (hOther : g.node other = .scalar tag' t) :
      AsksFor g tag t

/- The faults of the values of a table. -/
inductive IsOfValue (g : Graph) : Fault → Prop where
  | merge
      {fault : Fault}
      (hMerge : IsOfMerge fault) :
      IsOfValue g fault
  | contentTooDeep
      {id : NodeId}
      (hMapping : (g.node id).isMapping = true) :
      IsOfValue g .contentTooDeep
  | timeMapping
      {id : NodeId}
      (hMapping : (g.node id).isMapping = true)
      (hTag : g.tag id = .timestamp) :
      IsOfValue g .timeMapping
  | scalar
      {tag : Tag}
      {t : Text}
      {fault : Fault}
      (hAsks : g.AsksFor tag t)
      (hFault : Scalar.ofTag tag t = .error fault)
      (hFails : Scalar.Fails tag fault) :
      IsOfValue g fault

/- The faults of looking for a content. -/
inductive IsOfContent (g : Graph) (id : NodeId) : Fault → Prop where
  | malformed : IsOfContent g id .malformed
  | tooDeep
      (hMapping : (g.node id).isMapping = true) :
      IsOfContent g id .contentTooDeep

/- A content is that of the node itself, or of another one. -/
theorem gives_content
    (room : Nat)
    (g : Graph)
    (id : NodeId) :
    Gives (IsOfContent g id)
      (fun t =>
        (∃ tag, g.node id = .scalar tag t) ∨
          (g.node id).isMapping = true ∧
            ∃ other tag, g.node other = .scalar tag t)
      (g.content room id) := by
  have hWithin :
      ∀ depth id,
        Gives (fun fault => fault = .malformed ∨
            fault = .contentTooDeep)
          (fun t => ∃ other tag, g.node other = .scalar tag t)
          (g.contentWithin id depth) := by
    intro depth
    induction depth with
    | zero => exact fun _ => Gives.error (Or.inr rfl)
    | succ depth ih =>
        intro id
        unfold contentWithin
        split
        · next tag t hNode => exact Gives.ok ⟨id, tag, hNode⟩
        · split
          · exact ih _
          · exact Gives.error (Or.inl rfl)
        · exact Gives.error (Or.inl rfl)
  unfold content contentWithin
  split
  · next tag t hNode => exact Gives.ok (Or.inl ⟨tag, hNode⟩)
  · next hNode =>
      have hMapping : (g.node id).isMapping = true := by
        rw [hNode]
        rfl
      split
      · next key value _ =>
          have hLent := hWithin room value
          refine ⟨fun fault hFault => ?_, fun t hSome =>
            Or.inr ⟨hMapping, hLent.value t hSome⟩⟩
          rcases hLent.only fault hFault with rfl | rfl
          · exact .malformed
          · exact .tooDeep hMapping
      · exact Gives.error .malformed
  · exact Gives.error .malformed

/-
  The value of a node, after merges: its fault is that of a
  content under a tag that the table had before.
-/
theorem only_scalarOf
    {g' : Graph}
    (hSettles : g.Settles g')
    (room : Nat)
    (id : NodeId) :
    Only (IsOfValue g) (g'.scalarOf room id) := by
  have hMapping :
      (g'.node id).isMapping = true → (g.node id).isMapping = true :=
    fun hNow => (hSettles.mapping id).symm.trans hNow
  have hMalformed :
      Only (IsOfValue g) (.error .malformed : Except Fault Scalar) :=
    Only.error (.merge .malformed)
  have hContent := gives_content room g' id
  unfold scalarOf
  dsimp only
  apply Only.ite hMalformed
  cases hFound : g'.content room id with
  | error fault =>
      apply Only.error
      cases hContent.only fault hFound with
      | malformed => exact .merge .malformed
      | tooDeep hNow => exact .contentTooDeep (hMapping hNow)
  | ok t =>
      have hTag :
          ∀ tag, g'.tag id = tag → tag ≠ .str → g.tag id = tag := by
        intro tag hNow hOther
        rcases hSettles.tag id with hSame | hText
        · exact hSame.symm.trans hNow
        · exact absurd (hNow.symm.trans hText) hOther
      show Only _ (if _ then _ else _)
      split
      · next hTest =>
          rw [Bool.and_eq_true, beq_iff_eq] at hTest
          exact Only.error
            (.timeMapping (hMapping hTest.2)
              (hTag _ hTest.1 (by decide)))
      · intro fault hFault
        have hOther : g'.tag id ≠ .str := by
          intro hText
          rw [hText] at hFault
          cases hFault
        have hBefore := hTag _ rfl hOther
        refine .scalar ?_ hFault (Scalar.fails_of_ofTag _ t fault hFault)
        rcases hContent.value t hFound with
          ⟨tag, hNode⟩ | ⟨hNow, other, tag, hNode⟩
        · rcases hSettles.content id tag t hNode with
            ⟨tag', hOwn⟩
          have hSame : g.tag id = tag' := congrArg Node.tag hOwn
          rw [← hSame, hBefore] at hOwn
          exact .own hOwn
        · rcases hSettles.content other tag t hNode with
            ⟨tag', hLent⟩
          exact .lent (hMapping hNow) hBefore hLent

end Graph

------------------------------------------------------------
-- Evaluations
------------------------------------------------------------

namespace Evaluation

variable {g : Graph} {x : Evaluation α}

/-
  An operation goes from tables that have come from a given
  one to such tables. It fails as the values of that one
  may.
-/
def Sound
    (g : Graph)
    (x : Evaluation α) : Prop :=
  ∀ s, g.Settles s.graph →
    Gives g.IsOfValue
      (fun found : α × State => g.Settles found.2.graph)
      (x.run s)

theorem sound_pure (a : α) : Sound g (pure a) :=
  fun _ hSettles => Gives.ok hSettles

theorem sound_malformed :
    Sound g (throw .malformed : Evaluation α) :=
  fun _ _ => Gives.error (.merge .malformed)

theorem Sound.bind
    {f : α → Evaluation β}
    (hFirst : Sound g x)
    (hThen : ∀ a, Sound g (f a)) :
    Sound g (x >>= f) :=
  fun s hSettles =>
    (hFirst s hSettles).bind fun found hNext =>
      hThen found.1 found.2 hNext

theorem Sound.discard
    (hSound : Sound g x) :
    Sound g (Functor.discard x) :=
  hSound.bind fun _ => sound_pure _

/- What is done with the state that there is. -/
theorem sound_get_bind
    {f : State → Evaluation α}
    (hThen : ∀ s, g.Settles s.graph → Sound g (f s)) :
    Sound g (get >>= f) :=
  fun s hSettles => hThen s hSettles s hSettles

theorem sound_modify_bind
    {f : State → State}
    (hGraph : ∀ s, (f s).graph = s.graph)
    (hThen : Sound g x) :
    Sound g (modify f >>= fun _ => x) := by
  intro s hSettles
  apply hThen (f s)
  rw [hGraph s]
  exact hSettles

/- What is done with a result that is found by itself. -/
theorem sound_lift_bind
    {Q : α → Prop}
    {result : Except Fault α}
    {f : α → Evaluation β}
    (hResult : Gives g.IsOfValue Q result)
    (hThen : ∀ a, Q a → Sound g (f a)) :
    Sound g (liftM result >>= f) := by
  intro s hSettles
  cases result with
  | error fault => exact Gives.error (hResult.only fault rfl)
  | ok a => exact hThen a (hResult.value a rfl) s hSettles

theorem sound_mapM
    {f : α → Evaluation β}
    (hEach : ∀ a, Sound g (f a))
    (as : List α) :
    Sound g (as.mapM f) := by
  induction as with
  | nil => exact sound_pure []
  | cons a as ih =>
      rw [List.mapM_cons]
      exact (hEach a).bind fun _ => ih.bind fun _ => sound_pure _

/- An operation on each part of a list. -/
theorem sound_forIn
    {f : α → Evaluation Unit}
    (hEach : ∀ a, Sound g (f a))
    (as : List α) :
    Sound g
      (forIn as PUnit.unit fun a _ => do
        f a
        pure (ForInStep.yield PUnit.unit)) := by
  induction as with
  | nil => exact sound_pure _
  | cons a as ih =>
      rw [List.forIn_cons]
      exact ((hEach a).bind fun _ => sound_pure _).bind fun
        | .done _ => sound_pure _
        | .yield _ => ih

------------------------------------------------------------
-- Values of Documents
------------------------------------------------------------

theorem sound_keep
    (id : NodeId)
    (v : Value) :
    Sound g (keep id v) :=
  sound_modify_bind (fun _ => rfl) (sound_pure v)

theorem sound_valueOf (id : NodeId) :
    Sound g (valueOf id) := by
  unfold valueOf
  apply sound_get_bind
  intro s hSettles
  split
  · exact sound_pure _
  · split
    · exact sound_modify_bind (fun _ => rfl) (sound_keep id _)
    · have hScalar := Graph.only_scalarOf hSettles s.depths.content id
      exact sound_lift_bind ⟨hScalar, fun _ _ => trivial⟩
        fun s _ => sound_keep id (.scalar s)

theorem sound_keyOf (id : NodeId) :
    Sound g (keyOf id) := by
  unfold keyOf
  apply (sound_valueOf id).bind
  intro v
  cases v with
  | scalar s => exact sound_pure s
  | collection => exact sound_malformed

theorem sound_openPair (id : NodeId) :
    Sound g (openPair id) := by
  unfold openPair
  apply sound_get_bind
  intro s _
  split
  · exact (sound_valueOf _).discard.bind fun _ =>
      (sound_valueOf _).discard
  · exact sound_malformed

theorem sound_itemsOf (id : NodeId) :
    Sound g (itemsOf id) := by
  unfold itemsOf
  apply sound_get_bind
  intro s _
  split
  · exact sound_pure _
  · exact sound_malformed

theorem sound_openMapping (id : NodeId) :
    Sound g (openMapping id) := by
  unfold openMapping
  apply sound_get_bind
  intro s hSettles
  dsimp only
  split
  · exact sound_malformed
  · next hTest =>
      have hMapping : (s.graph.node id).isMapping = true := by
        simpa using hTest
      have hFlatten :=
        Graph.gives_flatten s.depths.merges hMapping
      apply sound_lift_bind
        (Q := fun g' => g.Settles g')
        ⟨hFlatten.only.mono fun _ hMerge => .merge hMerge,
          fun g' hSome =>
            hSettles.trans (hFlatten.value g' hSome)⟩
      intro g' hSettles'
      apply Sound.bind
      · exact fun _ _ => Gives.ok hSettles'
      · intro _
        apply sound_mapM
        rintro ⟨key, value⟩
        exact (sound_keyOf key).bind fun _ =>
          (sound_valueOf value).bind fun _ => sound_pure _

theorem sound_openCollection (id : NodeId) :
    Sound g (openCollection id) := by
  unfold openCollection
  apply sound_get_bind
  intro s _
  split
  · exact (sound_itemsOf id).bind fun items =>
      (sound_forIn (fun item => (sound_valueOf item).discard)
        items).bind fun _ => sound_pure _
  · exact (sound_itemsOf id).bind fun items =>
      (sound_forIn sound_openPair items).bind fun _ => sound_pure _
  · exact (sound_itemsOf id).bind fun items =>
      (sound_forIn sound_openPair items).bind fun _ => sound_pure _
  · exact sound_openMapping id

theorem sound_openAll (depth : Nat) :
    Sound g (openAll depth) := by
  induction depth with
  | zero => exact sound_pure _
  | succ depth ih =>
      unfold openAll
      apply sound_get_bind
      intro s _
      refine sound_modify_bind (fun _ => rfl) ?_
      apply (sound_forIn
        (fun id => (sound_openCollection id).discard) _).bind
      intro _
      split
      · exact ih
      · exact sound_pure _

end Evaluation

namespace Document

theorem sound_evaluate (d : Document) :
    Evaluation.Sound d.graph d.evaluate := by
  have hAll := Evaluation.sound_openAll (g := d.graph)
  unfold evaluate
  apply (Evaluation.sound_valueOf d.root).bind
  intro v
  split
  · exact Evaluation.sound_pure _
  · exact Evaluation.sound_pure _
  · split
    · refine Evaluation.sound_modify_bind (fun _ => rfl) ?_
      exact (Evaluation.sound_openMapping d.root).bind fun _ =>
        (hAll _).bind fun _ => Evaluation.sound_pure _
    · exact (hAll _).bind fun _ => Evaluation.sound_pure _

/- What keeps a document from having a content. -/
theorem only_content
    (depths : Depths)
    (d : Document) :
    Only d.graph.IsOfValue (d.content depths) := by
  have hSound :=
    sound_evaluate d
      ⟨d.graph, Array.replicate d.graph.nodes.size none, [],
        depths⟩
      (Graph.Settles.refl d.graph)
  exact hSound.only.map Prod.fst

end Document

------------------------------------------------------------
-- Contents of Texts
------------------------------------------------------------

/-
  Where a fault in a text comes from: the text is no
  document, or a value of the document cannot be had.
-/
inductive Origin
    (room : Nat)
    (cs : List Char)
    (fault : Fault) : Prop where
  | document
      (hDocument : document? room cs = .error fault)
      (hSyntax : IsSyntactic fault) :
      Origin room cs fault
  | value
      {d : Document}
      (hDocument : document? room cs = .ok (some d))
      (hValue : d.graph.IsOfValue fault) :
      Origin room cs fault

theorem origin_of_load
    (depths : Depths)
    (cs : List Char) :
    Only (Origin depths.collections cs) (load depths cs) := by
  unfold load
  cases hDocument : document? depths.collections cs with
  | error fault =>
      exact Only.error
        (.document hDocument
          (syntactic_document? _ cs fault hDocument))
  | ok d? =>
      cases d? with
      | none => exact Only.ok _
      | some d =>
          exact (Document.only_content depths d).mono
            fun _ hValue => .value hDocument hValue

end Yaml

end BiomeMigration
