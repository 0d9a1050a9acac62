import BiomeMigration.Files.Node

/-
  How a file tree changes when a file is put into it: all
  other nodes keep their kind, the links their targets, and
  the other files their content.

  Main declarations:
    * `Node.SameKind`
    * `Node.Grows`
    * `Node.Tracks`
    * `Node.Room`
    * `Node.Room.grows_put`
    * `Node.Room.at?_put_of_ne`
-/

------------------------------------------------------------
-- Places
------------------------------------------------------------

namespace BiomeMigration

namespace Node

theorem at?_append
    (node : Node)
    (above below : Location) :
    node.at? (above ++ below) =
      (node.at? above).bind (·.at? below) := by
  induction above generalizing node with
  | nil => simp [at?]
  | cons name above ih =>
      cases node with
      | directory entries =>
          rw [List.cons_append, at?, at?]
          cases hFind : find? entries name with
          | none => simp
          | some child => simp [ih]
      | file content => simp [at?]
      | link target => simp [at?]

/- An entry of a directory, by its place in the tree. -/
theorem at?_append_name
    {root : Node}
    {loc : Location}
    {entries : Entries}
    (hNode : root.at? loc = some (.directory entries))
    (name : String) :
    root.at? (loc ++ [name]) = find? entries name := by
  rw [at?_append, hNode, Option.bind_some, at?]
  cases hFind : find? entries name with
  | none => simp
  | some child => simp [at?]

------------------------------------------------------------
-- Growth
------------------------------------------------------------

/-
  Two nodes that a look-up cannot tell apart: two files, two
  directories, or two links with one target.
-/
def SameKind : Node → Node → Prop
  | .file _, .file _ => True
  | .directory _, .directory _ => True
  | .link target, .link target' => target = target'
  | _, _ => False

theorem SameKind.refl (node : Node) : node.SameKind node := by
  cases node <;> simp [SameKind]

theorem SameKind.trans
    {a b c : Node}
    (hFirst : a.SameKind b)
    (hSecond : b.SameKind c) :
    a.SameKind c := by
  cases a <;> cases b <;> cases c <;> simp_all [SameKind]

/-
  A tree has become another one in which each place holds a
  node of the same kind as before, and no link is new.
-/
structure Grows (root root' : Node) : Prop where
  kept :
    ∀ loc node, root.at? loc = some node →
      ∃ node', root'.at? loc = some node' ∧ node.SameKind node'
  links :
    ∀ loc target, root'.at? loc = some (.link target) →
      root.at? loc = some (.link target)

theorem Grows.refl (root : Node) : root.Grows root :=
  ⟨fun _ node hNode => ⟨node, hNode, SameKind.refl node⟩,
    fun _ _ hLink => hLink⟩

theorem Grows.trans
    {a b c : Node}
    (hFirst : a.Grows b)
    (hSecond : b.Grows c) :
    a.Grows c := by
  constructor
  · intro loc node hNode
    rcases hFirst.kept loc node hNode with
      ⟨middle, hMiddle, hSame⟩
    rcases hSecond.kept loc middle hMiddle with
      ⟨last, hLast, hSame'⟩
    exact ⟨last, hLast, hSame.trans hSame'⟩
  · intro loc target hLink
    exact hFirst.links loc target
      (hSecond.links loc target hLink)

variable {root root' : Node} {loc : Location}

/-
  What a look-up meets in one tree, it meets in another one,
  but for files that it may end at and that are missing
  there.
-/
structure Tracks (root root' : Node) : Prop where
  kept :
    ∀ loc node, root.at? loc = some node →
      (∃ node',
        root'.at? loc = some node' ∧ node.SameKind node') ∨
        (∃ content, node = .file content) ∧
          root'.at? loc = none
  links :
    ∀ loc target, root'.at? loc = some (.link target) →
      root.at? loc = some (.link target)

theorem Grows.tracks
    (hGrows : root.Grows root') :
    root.Tracks root' :=
  ⟨fun loc node hNode => Or.inl (hGrows.kept loc node hNode),
    hGrows.links⟩

theorem Tracks.directory
    (hTracks : root.Tracks root')
    {entries : Entries}
    (hNode : root.at? loc = some (.directory entries)) :
    ∃ entries', root'.at? loc = some (.directory entries') := by
  rcases hTracks.kept loc _ hNode with
    ⟨node', hNode', hSame⟩ | ⟨⟨content, hFile⟩, _⟩
  · cases node' with
    | directory entries' => exact ⟨entries', hNode'⟩
    | file content => exact hSame.elim
    | link target => exact hSame.elim
  · cases hFile

theorem Grows.directory
    (hGrows : root.Grows root')
    {entries : Entries}
    (hNode : root.at? loc = some (.directory entries)) :
    ∃ entries', root'.at? loc = some (.directory entries') :=
  hGrows.tracks.directory hNode

theorem Tracks.link
    (hTracks : root.Tracks root')
    {target : String}
    (hNode : root.at? loc = some (.link target)) :
    root'.at? loc = some (.link target) := by
  rcases hTracks.kept loc _ hNode with
    ⟨node', hNode', hSame⟩ | ⟨⟨content, hFile⟩, _⟩
  · cases node' with
    | link target' =>
        have hTarget : target = target' := hSame
        rw [hTarget]
        exact hNode'
    | file content => exact hSame.elim
    | directory entries => exact hSame.elim
  · cases hFile

theorem Tracks.file
    (hTracks : root.Tracks root')
    {content : Bytes}
    (hNode : root.at? loc = some (.file content)) :
    (∃ content', root'.at? loc = some (.file content')) ∨
      root'.at? loc = none := by
  rcases hTracks.kept loc _ hNode with
    ⟨node', hNode', hSame⟩ | ⟨_, hNone⟩
  · cases node' with
    | file content' => exact Or.inl ⟨content', hNode'⟩
    | directory entries => exact hSame.elim
    | link target => exact hSame.elim
  · exact Or.inr hNone

/- One entry of a directory may grow. -/
theorem grows_set
    {entries : Entries}
    {name : String}
    {child' : Node}
    (hChild : ∀ child, find? entries name = some child →
      child.Grows child')
    (hNew : find? entries name = none →
      ∀ loc target, child'.at? loc ≠ some (.link target)) :
    (directory entries).Grows
      (directory (set entries name child')) := by
  constructor
  · intro loc node hNode
    cases loc with
    | nil =>
        rcases Option.some.inj hNode with rfl
        exact ⟨_, rfl, trivial⟩
    | cons other below =>
        rw [at?] at hNode
        rw [at?, find?_set]
        by_cases hName : name = other
        · rw [if_pos hName]
          rw [← hName] at hNode
          cases hFind : find? entries name with
          | none =>
              rw [hFind] at hNode
              simp at hNode
          | some child =>
              rw [hFind] at hNode
              exact (hChild child hFind).kept below node hNode
        · rw [if_neg hName]
          exact ⟨node, hNode, SameKind.refl node⟩
  · intro loc target hLink
    cases loc with
    | nil => simp [at?] at hLink
    | cons other below =>
        rw [at?, find?_set] at hLink
        rw [at?]
        by_cases hName : name = other
        · rw [if_pos hName] at hLink
          rw [← hName]
          cases hFind : find? entries name with
          | none => exact (hNew hFind below target hLink).elim
          | some child =>
              exact (hChild child hFind).links below target hLink
        · rw [if_neg hName] at hLink
          exact hLink

------------------------------------------------------------
-- Putting a File
------------------------------------------------------------

/-
  A file may be put at a place: it is the place of a file,
  or only the last name of it is missing.
-/
def Room
    (root : Node)
    (loc : Location) : Prop :=
  (∃ content, root.at? loc = some (.file content)) ∨
    (root.at? loc = none ∧
      ∃ above name entries,
        loc = above ++ [name] ∧
          root.at? above = some (.directory entries))

theorem Room.nil
    (hRoom : root.Room []) :
    ∃ content, root = .file content := by
  rcases hRoom with ⟨content, hNode⟩ | ⟨hNone, _⟩
  · exact ⟨content, Option.some.inj hNode⟩
  · simp [at?] at hNone

theorem Room.cons
    {name : String}
    {rest : Location}
    (hRoom : root.Room (name :: rest)) :
    ∃ entries,
      root = .directory entries ∧
        ((find? entries name = none ∧ rest = []) ∨
          ∃ child,
            find? entries name = some child ∧
              child.Room rest) := by
  rcases hRoom with
    ⟨content, hNode⟩ | ⟨hNone, above, last, entries, hLoc, hNode⟩
  · cases root with
    | directory entries =>
        refine ⟨entries, rfl, Or.inr ?_⟩
        rw [at?] at hNode
        cases hFind : find? entries name with
        | none =>
            rw [hFind] at hNode
            simp at hNode
        | some child =>
            rw [hFind] at hNode
            exact ⟨child, rfl, Or.inl ⟨content, hNode⟩⟩
    | file content => simp [at?] at hNode
    | link target => simp [at?] at hNode
  · cases above with
    | nil =>
        rcases List.cons.inj hLoc with ⟨rfl, rfl⟩
        rcases Option.some.inj hNode with rfl
        refine ⟨entries, rfl, Or.inl ⟨?_, rfl⟩⟩
        have hEntry := at?_append_name hNode name
        rw [← hEntry]
        exact hNone
    | cons first above =>
        rw [List.cons_append] at hLoc
        rcases List.cons.inj hLoc with ⟨rfl, rfl⟩
        cases root with
        | directory outer =>
            refine ⟨outer, rfl, Or.inr ?_⟩
            rw [at?] at hNode hNone
            cases hFind : find? outer name with
            | none =>
                rw [hFind] at hNode
                simp at hNode
            | some child =>
                rw [hFind] at hNode hNone
                exact ⟨child, rfl, Or.inr
                  ⟨hNone, above, last, entries, rfl, hNode⟩⟩
        | file content => simp [at?] at hNode
        | link target => simp [at?] at hNode

theorem put_cons
    {entries : Entries}
    {name : String}
    {child : Node}
    (hFind : find? entries name = some child)
    (new : Node)
    (rest : Location) :
    (directory entries).put new (name :: rest) =
      .directory (set entries name (child.put new rest)) := by
  rw [put]
  simp only [hFind, Option.getD_some]

theorem at?_file_ne_link
    (content : Bytes)
    (loc : Location)
    (target : String) :
    (file content).at? loc ≠ some (.link target) := by
  cases loc with
  | nil => simp [at?]
  | cons name rest => simp [at?]

theorem grows_file (content content' : Bytes) :
    (file content).Grows (file content') := by
  constructor
  · intro loc node hNode
    cases loc with
    | nil =>
        rcases Option.some.inj hNode with rfl
        exact ⟨_, rfl, trivial⟩
    | cons name rest => simp [at?] at hNode
  · intro loc target hLink
    exact (at?_file_ne_link content' loc target hLink).elim

/- The tree grows when a file is put where one may be. -/
theorem Room.grows_put
    (hRoom : root.Room loc)
    (content : Bytes) :
    root.Grows (root.put (.file content) loc) := by
  induction loc generalizing root with
  | nil =>
      rcases hRoom.nil with ⟨old, rfl⟩
      exact grows_file old content
  | cons name rest ih =>
      rcases hRoom.cons with
        ⟨entries, rfl, ⟨hNone, rfl⟩ | ⟨child, hFind, hChild⟩⟩
      · apply grows_set
        · intro child hFind
          rw [hNone] at hFind
          simp at hFind
        · intro _
          exact at?_file_ne_link content
      · rw [put_cons hFind]
        apply grows_set
        · intro other hOther
          rw [hFind] at hOther
          rcases Option.some.inj hOther with rfl
          exact ih hChild
        · intro hNone
          rw [hFind] at hNone
          simp at hNone

/- The other files keep their content. -/
theorem Room.at?_put_of_ne
    (hRoom : root.Room loc)
    (new : Node)
    {other : Location}
    (hOther : other ≠ loc)
    {content : Bytes}
    (hNode : root.at? other = some (.file content)) :
    (root.put new loc).at? other = some (.file content) := by
  induction loc generalizing root other with
  | nil =>
      rcases hRoom.nil with ⟨old, rfl⟩
      cases other with
      | nil => exact (hOther rfl).elim
      | cons name rest => simp [at?] at hNode
  | cons name rest ih =>
      rcases hRoom.cons with ⟨entries, rfl, hEntry⟩
      cases other with
      | nil => simp [at?] at hNode
      | cons first below =>
          rw [put, at?, find?_set]
          rw [at?] at hNode
          by_cases hName : name = first
          · rw [if_pos hName]
            rw [← hName] at hNode hOther
            rcases hEntry with
              ⟨hNone, _⟩ | ⟨child, hFind, hChild⟩
            · rw [hNone] at hNode
              simp at hNode
            · rw [hFind] at hNode
              rw [hFind, Option.getD_some]
              apply ih hChild _ hNode
              rintro rfl
              exact hOther rfl
          · rw [if_neg hName]
            exact hNode

end Node

end BiomeMigration
