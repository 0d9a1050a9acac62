import BiomeMigration.Proofs.Files.LookUp

/-
  Look-ups in two trees that differ in the contents of files
  only. They end in the same way, with the same refusals.

  Main declarations:
    * `FileSystem.outline`
    * `FileSystem.outline_lookUp`
    * `FileSystem.exists?_congr`
-/

------------------------------------------------------------
-- Steps
------------------------------------------------------------

namespace BiomeMigration

namespace FileSystem

/- What a look-up has come to: a place, and if a node is there. -/
def outline
    (found : Except Problem Place) :
    Except Problem (Location × Bool) :=
  found.map fun place => (place.location, place.node?.isSome)

/- Two look-ups with one outline. -/
theorem of_outline_eq
    {found found' : Except Problem Place}
    (hSame : outline found = outline found') :
    (∃ loc node? node?',
        found = .ok ⟨loc, node?⟩ ∧ found' = .ok ⟨loc, node?'⟩ ∧
          node?.isSome = node?'.isSome) ∨
      ∃ problem,
        found = .error problem ∧ found' = .error problem := by
  cases found with
  | ok place =>
      cases found' with
      | ok place' =>
          rcases place with ⟨loc, node?⟩
          rcases place' with ⟨loc', node?'⟩
          rcases Prod.mk.inj (Except.ok.inj hSame) with
            ⟨hLoc, hSome⟩
          dsimp only at hLoc hSome
          subst hLoc
          exact Or.inl ⟨_, _, _, rfl, rfl, hSome⟩
      | error problem => cases hSame
  | error problem =>
      cases found' with
      | ok place' => cases hSame
      | error problem' =>
          rw [Except.error.inj hSame]
          exact Or.inr ⟨problem', rfl, rfl⟩

variable {root root' : Node} {ending : Ending} {loc : Location}

theorem at?_eq_none_of_grows
    (hBack : root'.Grows root)
    (hNone : root.at? loc = none) :
    root'.at? loc = none := by
  cases hNode : root'.at? loc with
  | none => rfl
  | some node =>
      rcases hBack.kept loc node hNode with ⟨node', hNode', _⟩
      rw [hNone] at hNode'
      cases hNode'

theorem file_of_grows
    (hGrows : root.Grows root')
    {content : Bytes}
    (hFile : root.at? loc = some (.file content)) :
    ∃ content', root'.at? loc = some (.file content') := by
  rcases hGrows.kept loc _ hFile with ⟨node, hNode, hKind⟩
  cases node with
  | file content' => exact ⟨content', hNode⟩
  | directory entries => exact hKind.elim
  | link target => exact hKind.elim

/-
  Steps end in the same way in both trees, if those through
  the links on the way do.
-/
theorem outline_walk
    (hGrows : root.Grows root')
    (hBack : root'.Grows root)
    {follow follow' :
      Location → String → List Step → Except Problem Place}
    (hFollow :
      ∀ {loc entries} target rest,
        root.at? loc = some (.directory entries) →
          outline (follow loc target rest) =
            outline (follow' loc target rest))
    {node node' : Node}
    (hNode : root.at? loc = some node)
    (hNode' : root'.at? loc = some node')
    (steps : List Step) :
    outline (walk root ending follow loc node steps) =
      outline (walk root' ending follow' loc node' steps) := by
  induction steps generalizing loc node node' with
  | nil => rfl
  | cons step rest ih =>
      cases node with
      | file content =>
          rcases file_of_grows hGrows hNode with ⟨content', hSame⟩
          rw [hNode'] at hSame
          rcases Option.some.inj hSame with rfl
          rfl
      | link target =>
          have hLink := hGrows.tracks.link hNode
          rw [hNode'] at hLink
          rcases Option.some.inj hLink with rfl
          rfl
      | directory entries =>
          rcases hGrows.directory hNode with ⟨entries', hSame⟩
          rw [hNode'] at hSame
          rcases Option.some.inj hSame with rfl
          cases step with
          | here => exact ih hNode hNode'
          | up =>
              rcases at?_dropLast hNode with ⟨above, hAbove⟩
              rcases at?_dropLast hNode' with ⟨above', hAbove'⟩
              have hUp := ih hAbove hAbove'
              simp only [walk, directoryAbove, hAbove, hAbove',
                Option.getD_some]
              exact hUp
          | down name =>
              rw [walk_down follow hNode, walk_down follow' hNode']
              split
              · rfl
              · cases hEntry : root.at? (loc ++ [name]) with
                | none =>
                    rw [at?_eq_none_of_grows hBack hEntry]
                | some child =>
                    cases child with
                    | link target =>
                        rw [hGrows.tracks.link hEntry]
                        dsimp only
                        split
                        · rfl
                        · exact hFollow target rest hNode
                    | file content =>
                        rcases file_of_grows hGrows hEntry with
                          ⟨content', hEntry'⟩
                        rw [hEntry']
                        exact ih hEntry hEntry'
                    | directory inner =>
                        rcases hGrows.directory hEntry with
                          ⟨inner', hEntry'⟩
                        rw [hEntry']
                        exact ih hEntry hEntry'

------------------------------------------------------------
-- Links
------------------------------------------------------------

/- The steps of a link's target, and those after the link. -/
theorem outline_link
    {go go' : List Step → Except Problem Place}
    (hGo : ∀ steps, outline (go steps) = outline (go' steps))
    (target : String)
    (rest : List Step) :
    outline
        (match slashedSteps? target with
        | some steps =>
            if ending == .newFile && rest.isEmpty then
              (go steps).bind fun _ => .error .isDirectory
            else go (targetSteps target ++ rest)
        | none => go (targetSteps target ++ rest)) =
      outline
        (match slashedSteps? target with
        | some steps =>
            if ending == .newFile && rest.isEmpty then
              (go' steps).bind fun _ => .error .isDirectory
            else go' (targetSteps target ++ rest)
        | none => go' (targetSteps target ++ rest)) := by
  cases slashedSteps? target with
  | none => exact hGo _
  | some steps =>
      dsimp only
      split
      · rcases of_outline_eq (hGo steps) with
          ⟨_, _, _, hHere, hThere, _⟩ | ⟨_, hHere, hThere⟩
        · rw [hHere, hThere]
          rfl
        · rw [hHere, hThere]
      · exact hGo _

theorem outline_walkLinks
    (hGrows : root.Grows root')
    (hBack : root'.Grows root)
    (links : Nat)
    {node node' : Node}
    (hNode : root.at? loc = some node)
    (hNode' : root'.at? loc = some node')
    (steps : List Step) :
    outline (walkLinks root ending links loc node steps) =
      outline
        (walkLinks root' ending links loc node' steps) := by
  induction links generalizing loc node node' steps with
  | zero =>
      exact outline_walk hGrows hBack (fun _ _ _ => rfl) hNode
        hNode' steps
  | succ links ih =>
      apply outline_walk hGrows hBack _ hNode hNode'
      intro above entries target rest hAbove
      apply outline_link
      rcases starts_of_tracks hGrows.tracks hAbove target with
        ⟨start, start', hStart, hStart'⟩
      intro inner
      simp only [hStart, hStart', Option.getD_some]
      exact ih hStart hStart' inner

------------------------------------------------------------
-- Paths
------------------------------------------------------------

variable {fs fs' : FileSystem} {p : Path}

theorem outline_lookUp
    (hAnchor : p.anchor ≠ .working)
    (hGrows : fs.root.Grows fs'.root)
    (hBack : fs'.root.Grows fs.root) :
    outline (fs.lookUp ending p) =
      outline (fs'.lookUp ending p) := by
  have hStart : ∀ other : FileSystem, other.start p = [] := by
    intro other
    unfold start
    rw [if_neg (by simpa using hAnchor)]
  unfold lookUp
  split
  · rfl
  · rw [hStart fs, hStart fs']
    exact outline_walkLinks hGrows hBack linkLimit rfl rfl _

/- What exists in one tree exists in the other. -/
theorem exists?_congr
    (hAnchor : p.anchor ≠ .working)
    (hGrows : fs.root.Grows fs'.root)
    (hBack : fs'.root.Grows fs.root) :
    fs'.exists? p = fs.exists? p := by
  have hSame :
      outline (fs.lookUp .target p) =
        outline (fs'.lookUp .target p) :=
    outline_lookUp hAnchor hGrows hBack
  unfold exists? follow? locate
  by_cases hNul : p.hasNul = true
  · rw [if_pos hNul, if_pos hNul]
  · rw [if_neg hNul, if_neg hNul]
    rcases of_outline_eq hSame with
      ⟨_, _, _, hHere, hThere, hSome⟩ | ⟨_, hHere, hThere⟩
    · rw [hHere, hThere]
      exact congrArg Except.ok hSome.symm
    · rw [hHere, hThere]

end FileSystem

end BiomeMigration
