import BiomeMigration.Files.System
import BiomeMigration.Proofs.Files.Tree

/-
  Look-ups in a tree that tracks another one, as one does
  that grows: a path that has led to a place goes on leading
  there. A path that a file may be made at leads to the
  place of that file.

  Main declarations:
    * `FileSystem.Stands`
    * `FileSystem.walk_of_tracks`
    * `FileSystem.walkLinks_of_tracks`
    * `FileSystem.locate_of_tracks`
    * `FileSystem.locate_of_grows`
    * `FileSystem.locate_of_begins`
-/

------------------------------------------------------------
-- Results
------------------------------------------------------------

namespace BiomeMigration

section Results

variable {ε ε' α β : Type}

/- An error in another form is still an error. -/
theorem mapError_eq_ok_iff
    {result : Except ε α}
    {form : ε → ε'}
    {a : α} :
    result.mapError form = .ok a ↔ result = .ok a := by
  cases result with
  | error e =>
      constructor
      · rintro ⟨⟩
      · rintro ⟨⟩
  | ok b =>
      constructor
      · rintro ⟨⟩
        rfl
      · rintro ⟨⟩
        rfl

/- Two steps succeed one after the other. -/
theorem bind_eq_ok_iff
    {result : Except ε α}
    {next : α → Except ε β}
    {b : β} :
    (result >>= next) = .ok b ↔
      ∃ a, result = .ok a ∧ next a = .ok b := by
  cases result with
  | error e =>
      constructor
      · rintro ⟨⟩
      · rintro ⟨a, ⟨⟩, _⟩
  | ok a =>
      constructor
      · intro hNext
        exact ⟨a, rfl, hNext⟩
      · rintro ⟨_, ⟨⟩, hNext⟩
        exact hNext

end Results

end BiomeMigration

------------------------------------------------------------
-- Steps
------------------------------------------------------------

namespace BiomeMigration

namespace FileSystem

/-
  Where a look-up in a tree has ended: at a node of the tree,
  or at a place where a file may be put.
-/
structure Stands
    (root : Node)
    (place : Place) : Prop where
  node : place.node? = root.at? place.location
  room : place.node? = none → root.Room place.location

/- An end of a look-up that finds whatever another one does. -/
def Finds (ending ending' : Ending) : Prop :=
  ending = ending' ∨ (ending = .newFile ∧ ending' = .target)

variable {root root' : Node} {ending ending' : Ending}

/-
  In a tree and a later one, a look-up ends at the same
  place.
-/
def SamePlace
    (root root' : Node)
    (found found' : Except Problem Place) : Prop :=
  ∀ place, found = .ok place →
    Stands root place ∧
      found' = .ok
        ⟨place.location, root'.at? place.location⟩

theorem at?_dropLast
    {loc : Location}
    {node : Node}
    (hNode : root.at? loc = some node) :
    ∃ above, root.at? loc.dropLast = some above := by
  rcases List.eq_nil_or_concat loc with rfl | ⟨above, name, rfl⟩
  · exact ⟨root, rfl⟩
  · rw [List.concat_eq_append, Node.at?_append] at hNode
    rw [List.concat_eq_append, List.dropLast_concat]
    rcases Option.bind_eq_some_iff.mp hNode with
      ⟨outer, hOuter, _⟩
    exact ⟨outer, hOuter⟩

/- A step to an entry, by the place of the entry. -/
theorem walk_down
    (follow :
      Location → String → List Step → Except Problem Place)
    {loc : Location}
    {entries : Node.Entries}
    (hNode : root.at? loc = some (.directory entries))
    (name : String)
    (rest : List Step) :
    walk root ending follow loc (.directory entries)
        (.down name :: rest) =
      if nameLimit < name.utf8ByteSize then
        .error .nameTooLong
      else
        match root.at? (loc ++ [name]) with
        | none =>
            if rest.isEmpty then .ok ⟨loc ++ [name], none⟩
            else .error .noEntry
        | some (.link target) =>
            if rest.isEmpty && ending == .link then
              .ok ⟨loc ++ [name], some (.link target)⟩
            else follow loc target rest
        | some child =>
            walk root ending follow (loc ++ [name]) child
              rest := by
  rw [Node.at?_append_name hNode]
  rfl

/- A look-up that ends at a node of both trees. -/
theorem samePlace_of_node
    {loc : Location}
    {node node' : Node}
    (hNode : root.at? loc = some node)
    (hNode' : root'.at? loc = some node') :
    SamePlace root root'
      (.ok ⟨loc, some node⟩) (.ok ⟨loc, some node'⟩) := by
  intro place hPlace
  rcases Except.ok.inj hPlace with rfl
  refine ⟨⟨hNode.symm, by simp⟩, ?_⟩
  rw [hNode']

/- A look-up that ends at a missing name. -/
theorem samePlace_of_missing
    (hTracks : root.Tracks root')
    {loc : Location}
    (hRoom : root.Room loc)
    (hNone : root.at? loc = none)
    {follow' :
      Location → String → List Step → Except Problem Place}
    {above : Location}
    {rest : List Step} :
    SamePlace root root'
      (if rest.isEmpty then .ok ⟨loc, none⟩
        else .error .noEntry)
      (match root'.at? loc with
      | none =>
          if rest.isEmpty then .ok ⟨loc, none⟩
          else .error .noEntry
      | some (.link target) =>
          if rest.isEmpty && ending' == .link then
            .ok ⟨loc, some (.link target)⟩
          else follow' above target rest
      | some child =>
          walk root' ending' follow' loc child rest) := by
  intro place hPlace
  cases rest with
  | cons step rest => simp at hPlace
  | nil =>
      rcases Except.ok.inj hPlace with rfl
      refine ⟨⟨hNone.symm, fun _ => hRoom⟩, ?_⟩
      cases hNode' : root'.at? loc with
      | none => rfl
      | some node' =>
          cases node' with
          | link target =>
              have hLink := hTracks.links loc target hNode'
              rw [hNone] at hLink
              simp at hLink
          | file content => rfl
          | directory entries => rfl

/- A look-up that ends at a file, which may be missing. -/
theorem samePlace_of_file
    {loc : Location}
    {content : Bytes}
    (hFile : root.at? loc = some (.file content))
    (hNone : root'.at? loc = none)
    (follow :
      Location → String → List Step → Except Problem Place)
    (rest : List Step) :
    SamePlace root root'
      (walk root ending follow loc (.file content) rest)
      (if rest.isEmpty then .ok ⟨loc, none⟩
        else .error .noEntry) := by
  intro place hPlace
  cases rest with
  | cons step rest => simp [walk] at hPlace
  | nil =>
      rcases Except.ok.inj hPlace with rfl
      refine ⟨⟨hFile.symm, by simp⟩, ?_⟩
      rw [hNone]
      rfl

/-
  Steps that a tree allows lead to the same place in a tree
  that tracks it, if that is so for the links on the way.
-/
theorem walk_of_tracks
    (hTracks : root.Tracks root')
    (hEnding : Finds ending ending')
    {follow follow' :
      Location → String → List Step → Except Problem Place}
    (hFollow :
      ∀ {loc entries} target rest,
        root.at? loc = some (.directory entries) →
          SamePlace root root'
            (follow loc target rest) (follow' loc target rest))
    {loc : Location}
    {node node' : Node}
    (hNode : root.at? loc = some node)
    (hNode' : root'.at? loc = some node')
    (steps : List Step) :
    SamePlace root root'
      (walk root ending follow loc node steps)
      (walk root' ending' follow' loc node' steps) := by
  have hLink : (ending == .link) = (ending' == .link) := by
    rcases hEnding with rfl | ⟨rfl, rfl⟩
    · rfl
    · rfl
  induction steps generalizing loc node node' with
  | nil => exact samePlace_of_node hNode hNode'
  | cons step rest ih =>
      cases node with
      | file content =>
          intro place hPlace
          simp [walk] at hPlace
      | link target =>
          intro place hPlace
          simp [walk] at hPlace
      | directory entries =>
          rcases hTracks.directory hNode with ⟨entries', hSame⟩
          rw [hNode'] at hSame
          rcases Option.some.inj hSame with rfl
          cases step with
          | here => exact ih hNode hNode'
          | up =>
              rcases at?_dropLast hNode with ⟨above, hAbove⟩
              rcases at?_dropLast hNode' with ⟨above', hAbove'⟩
              have hUp := ih hAbove hAbove'
              simp only [walk, directoryAbove, hAbove, hAbove',
                Option.getD_some]
              exact hUp
          | down name =>
              rw [walk_down follow hNode,
                walk_down follow' hNode']
              split
              · intro place hPlace
                simp at hPlace
              · cases hEntry : root.at? (loc ++ [name]) with
                | none =>
                    have hRoom : root.Room (loc ++ [name]) :=
                      Or.inr ⟨hEntry, loc, name, entries, rfl,
                        hNode⟩
                    exact samePlace_of_missing hTracks hRoom
                      hEntry
                | some child =>
                    cases child with
                    | link target =>
                        rw [hTracks.link hEntry]
                        simp only [hLink]
                        split
                        · exact samePlace_of_node hEntry
                            (hTracks.link hEntry)
                        · exact hFollow target rest hNode
                    | file content =>
                        rcases hTracks.file hEntry with
                          ⟨content', hEntry'⟩ | hNone
                        · rw [hEntry']
                          exact ih hEntry hEntry'
                        · rw [hNone]
                          exact samePlace_of_file hEntry hNone
                            follow rest
                    | directory inner =>
                        rcases hTracks.directory hEntry with
                          ⟨inner', hEntry'⟩
                        rw [hEntry']
                        exact ih hEntry hEntry'

------------------------------------------------------------
-- Links
------------------------------------------------------------

/- The steps of a link's target, and those after the link. -/
theorem samePlace_of_link
    (hEnding : Finds ending ending')
    {go go' : List Step → Except Problem Place}
    (hGo : ∀ steps, SamePlace root root' (go steps) (go' steps))
    (target : String)
    (rest : List Step) :
    SamePlace root root'
      (match slashedSteps? target with
      | some steps =>
          if ending == .newFile && rest.isEmpty then
            (go steps).bind fun _ => .error .isDirectory
          else go (targetSteps target ++ rest)
      | none => go (targetSteps target ++ rest))
      (match slashedSteps? target with
      | some steps =>
          if ending' == .newFile && rest.isEmpty then
            (go' steps).bind fun _ => .error .isDirectory
          else go' (targetSteps target ++ rest)
      | none => go' (targetSteps target ++ rest)) := by
  cases slashedSteps? target with
  | none => exact hGo (targetSteps target ++ rest)
  | some steps =>
      intro place hPlace
      simp only at hPlace ⊢
      split at hPlace
      · cases hSteps : go steps <;>
          simp [hSteps, Except.bind] at hPlace
      · next hOther =>
          have hOther' :
              (ending' == .newFile && rest.isEmpty) = false := by
            rcases hEnding with rfl | ⟨_, rfl⟩
            · simpa using hOther
            · rfl
          rw [hOther']
          exact hGo (targetSteps target ++ rest) place hPlace

/- The target of a link starts at a node of both trees. -/
theorem starts_of_tracks
    (hTracks : root.Tracks root')
    {above : Location}
    {entries : Node.Entries}
    (hAbove : root.at? above = some (.directory entries))
    (target : String) :
    ∃ start start',
      root.at? (if isAbsolute target then [] else above) =
          some start ∧
        root'.at? (if isAbsolute target then [] else above) =
          some start' := by
  split
  · exact ⟨root, root', rfl, rfl⟩
  · rcases hTracks.directory hAbove with ⟨entries', hAbove'⟩
    exact ⟨_, _, hAbove, hAbove'⟩

theorem walkLinks_of_tracks
    (hTracks : root.Tracks root')
    (hEnding : Finds ending ending')
    (links : Nat)
    {loc : Location}
    {node node' : Node}
    (hNode : root.at? loc = some node)
    (hNode' : root'.at? loc = some node')
    (steps : List Step) :
    SamePlace root root'
      (walkLinks root ending links loc node steps)
      (walkLinks root' ending' links loc node' steps) := by
  induction links generalizing loc node node' steps with
  | zero =>
      apply walk_of_tracks hTracks hEnding _ hNode hNode'
      intro _ _ _ _ _ place hPlace
      simp at hPlace
  | succ links ih =>
      apply walk_of_tracks hTracks hEnding _ hNode hNode'
      intro above entries target rest hAbove
      apply samePlace_of_link hEnding
      rcases starts_of_tracks hTracks hAbove target with
        ⟨start, start', hStart, hStart'⟩
      intro inner
      simp only [hStart, hStart', Option.getD_some]
      exact ih hStart hStart' inner

------------------------------------------------------------
-- Paths
------------------------------------------------------------

variable {fs fs' : FileSystem} {p : Path} {place : Place}

/-
  A path that leads to a place leads there in a tree that
  tracks the first one, if it starts at one place in both.
-/
theorem lookUp_of_start
    (hTracks : fs.root.Tracks fs'.root)
    (hEnding : Finds ending ending')
    (hStart : fs'.start p = fs.start p)
    {node node' : Node}
    (hNode : fs.root.at? (fs.start p) = some node)
    (hNode' : fs'.root.at? (fs.start p) = some node') :
    SamePlace fs.root fs'.root
      (fs.lookUp ending p) (fs'.lookUp ending' p) := by
  unfold lookUp
  split
  · intro place hPlace
    simp at hPlace
  · simp only [hStart, hNode, hNode', Option.getD_some]
    exact walkLinks_of_tracks hTracks hEnding linkLimit hNode
      hNode' _

/- A path that does not start at the working directory. -/
theorem start_eq_nil
    (fs : FileSystem)
    (hAnchor : p.anchor ≠ .working) :
    fs.start p = [] := by
  unfold start
  rw [if_neg (by simpa using hAnchor)]

/- So it is for a path from the root. -/
theorem lookUp_of_tracks
    (hTracks : fs.root.Tracks fs'.root)
    (hEnding : Finds ending ending')
    (hAnchor : p.anchor ≠ .working) :
    SamePlace fs.root fs'.root
      (fs.lookUp ending p) (fs'.lookUp ending' p) := by
  have hStart := start_eq_nil fs hAnchor
  apply lookUp_of_start hTracks hEnding
  · rw [hStart, start_eq_nil fs' hAnchor]
  · rw [hStart]
    rfl
  · rw [hStart]
    rfl

/- An operation names the place of the look-up. -/
theorem locate_of_samePlace
    (hSame :
      SamePlace fs.root fs'.root
        (fs.lookUp ending p) (fs'.lookUp ending' p))
    (hPlace : fs.locate ending p = .ok place) :
    Stands fs.root place ∧
      fs'.locate ending' p =
        .ok ⟨place.location, fs'.root.at? place.location⟩ := by
  unfold locate at hPlace ⊢
  split at hPlace
  · simp at hPlace
  · next hNul =>
      rw [if_neg hNul]
      rcases hSame place (mapError_eq_ok_iff.mp hPlace) with
        ⟨hStands, hFound'⟩
      exact ⟨hStands, mapError_eq_ok_iff.mpr hFound'⟩

theorem locate_of_tracks
    (hTracks : fs.root.Tracks fs'.root)
    (hEnding : Finds ending ending')
    (hAnchor : p.anchor ≠ .working)
    (hPlace : fs.locate ending p = .ok place) :
    Stands fs.root place ∧
      fs'.locate ending' p =
        .ok ⟨place.location, fs'.root.at? place.location⟩ :=
  locate_of_samePlace (lookUp_of_tracks hTracks hEnding hAnchor)
    hPlace

/- So it does in a tree that has grown. -/
theorem locate_of_grows
    (hGrows : fs.root.Grows fs'.root)
    (hEnding : Finds ending ending')
    (hAnchor : p.anchor ≠ .working)
    (hPlace : fs.locate ending p = .ok place) :
    Stands fs.root place ∧
      fs'.locate ending' p =
        .ok ⟨place.location, fs'.root.at? place.location⟩ :=
  locate_of_tracks hGrows.tracks hEnding hAnchor hPlace

/- A path starts at a node of the tree. -/
def Begins
    (fs : FileSystem)
    (p : Path) : Prop :=
  ∃ node, fs.root.at? (fs.start p) = some node

theorem begins_of_anchor
    (fs : FileSystem)
    (hAnchor : p.anchor ≠ .working) :
    fs.Begins p := by
  unfold Begins
  rw [start_eq_nil fs hAnchor]
  exact ⟨fs.root, rfl⟩

/- A path goes on starting at a node of a tree that grows. -/
theorem Begins.of_grows
    (hBegins : fs.Begins p)
    (hGrows : fs.root.Grows fs'.root)
    (hStart : fs'.start p = fs.start p) :
    fs'.Begins p := by
  rcases hBegins with ⟨node, hNode⟩
  rcases hGrows.kept _ node hNode with ⟨node', hNode', _⟩
  unfold Begins
  rw [hStart]
  exact ⟨node', hNode'⟩

/- Paths from the root start alike in all file systems. -/
theorem start_congr
    (fs fs' : FileSystem)
    (hAnchor : p.anchor ≠ .working) :
    fs'.start p = fs.start p :=
  (start_eq_nil fs' hAnchor).trans (start_eq_nil fs hAnchor).symm

/- So it does if it starts at the working directory. -/
theorem locate_of_begins
    (hGrows : fs.root.Grows fs'.root)
    (hEnding : Finds ending ending')
    (hBegins : fs.Begins p)
    (hStart : fs'.start p = fs.start p)
    (hPlace : fs.locate ending p = .ok place) :
    Stands fs.root place ∧
      fs'.locate ending' p =
        .ok ⟨place.location, fs'.root.at? place.location⟩ := by
  rcases hBegins with ⟨node, hNode⟩
  rcases hGrows.kept _ node hNode with ⟨node', hNode', _⟩
  exact locate_of_samePlace
    (lookUp_of_start hGrows.tracks hEnding hStart hNode hNode')
    hPlace

theorem absolute_anchor
    (fs : FileSystem)
    (p : Path) :
    (fs.absolute p).anchor ≠ .working := by
  unfold absolute
  dsimp only
  split
  · simp
  · simp

/- A real path starts at the root. -/
theorem resolve_anchor
    {real : Path}
    (hResolve : fs.resolve p = .ok real) :
    real.anchor ≠ .working := by
  unfold resolve at hResolve
  dsimp only at hResolve
  split at hResolve
  · simp at hResolve
  · split at hResolve
    · simp at hResolve
    · rw [← Except.ok.inj hResolve]
      split
      · exact absolute_anchor fs _
      · exact absolute_anchor fs _

theorem realPath_anchor
    {real : Path}
    (hReal : fs.realPath p = .ok real) :
    real.anchor ≠ .working := by
  rcases bind_eq_ok_iff.mp hReal with ⟨q, _, hResolve⟩
  exact resolve_anchor hResolve

end FileSystem

theorem Path.child_anchor
    {root : Path}
    (hRoot : root.anchor ≠ .working)
    {name : String}
    (hName : (Path.ofString name).anchor = .working) :
    (root.child name).anchor ≠ .working := by
  unfold child join
  rw [hName]
  exact hRoot

end BiomeMigration
