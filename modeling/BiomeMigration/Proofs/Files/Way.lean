import BiomeMigration.Proofs.Files.CodeFiles

/-
  The way through a directory: which steps it has, and in
  which order it takes them. Neither what the files hold nor
  the order in which directories list their entries makes a
  difference to it.

  Main declarations:
    * `Node.Alike`
    * `Node.Alike.visits_eq`
    * `Node.Proper.opened_mem_visits_iff`
    * `Node.Proper.seen_mem_visits_iff`
    * `Visit.Ahead`
    * `Node.Proper.pairwise_visits`
    * `Listing.fault?_eq_some_iff`
-/

------------------------------------------------------------
-- Trees that are Alike
------------------------------------------------------------

namespace BiomeMigration

/- Entries in order are told by which ones they are. -/
theorem CodeFiles.byName_congr
    {α : Type}
    {entries entries' : List (String × α)}
    (hUnique : (entries.map Prod.fst).Nodup)
    (hUnique' : (entries'.map Prod.fst).Nodup)
    (hSame : ∀ e, e ∈ entries' ↔ e ∈ entries) :
    byName entries' = byName entries := by
  have hPerm : entries'.Perm entries :=
    (List.perm_ext_iff_of_nodup hUnique'.of_map
      hUnique.of_map).mpr hSame
  have hSorted : (byName entries').Perm (byName entries) :=
    (List.mergeSort_perm _ _).trans
      (hPerm.trans (List.mergeSort_perm _ _).symm)
  refine hSorted.eq_of_pairwise ?_
    (List.pairwise_map.mp (pairwise_byName entries'))
    (List.pairwise_map.mp (pairwise_byName entries))
  intro e e' hIn' hIn hLe hGe
  have hIn := List.mem_mergeSort.mp hIn
  have hIn' := (hSame e).mp (List.mem_mergeSort.mp hIn')
  exact List.inj_on_of_nodup_map hUnique hIn' hIn
    (String.le_antisymm hLe hGe)

namespace Node

variable {root root' node node' child child' : Node}
variable {entries entries' : Entries}
variable {name : String} {loc : Location}

/-
  Two trees have nodes of the same kinds at the same places,
  whatever their files hold, and whatever the order is in
  which their directories list their entries.
-/
structure Alike (root root' : Node) : Prop where
  grows : root.Grows root'
  back : root'.Grows root

theorem Alike.symm
    (hAlike : root.Alike root') :
    root'.Alike root :=
  ⟨hAlike.back, hAlike.grows⟩

theorem Alike.sameKind
    (hAlike : root.Alike root') :
    root.SameKind root' := by
  rcases hAlike.grows.kept [] root rfl with ⟨node, hNode, hSame⟩
  rcases Option.some.inj hNode with rfl
  exact hSame

/- A directory may list its entries in another order. -/
theorem alike_of_perm
    (hUnique : (entries.map Prod.fst).Nodup)
    (hPerm : entries'.Perm entries) :
    (directory entries).Alike (directory entries') := by
  have hUnique' : (entries'.map Prod.fst).Nodup :=
    (hPerm.map Prod.fst).nodup_iff.mpr hUnique
  have hFind :
      ∀ name, find? entries' name = find? entries name := by
    intro name
    apply Option.ext
    intro child
    constructor
    · intro hFind
      exact find?_of_mem hUnique
        (hPerm.mem_iff.mp (mem_of_find? hFind))
    · intro hFind
      exact find?_of_mem hUnique'
        (hPerm.mem_iff.mpr (mem_of_find? hFind))
  have hGrows :
      ∀ {es es' : Entries},
        (∀ name, find? es' name = find? es name) →
          (directory es).Grows (directory es') := by
    intro es es' hSame
    constructor
    · intro loc node hNode
      cases loc with
      | nil =>
          rcases Option.some.inj hNode with rfl
          exact ⟨_, rfl, trivial⟩
      | cons name rest =>
          refine ⟨node, ?_, SameKind.refl node⟩
          rw [at?, hSame name]
          exact hNode
    · intro loc target hLink
      cases loc with
      | nil => cases hLink
      | cons name rest =>
          rw [at?, ← hSame name]
          exact hLink
  exact ⟨hGrows hFind, hGrows fun name => (hFind name).symm⟩

/- What is below an entry has become what is below it there. -/
theorem Grows.of_find?
    (hGrows : (Node.directory entries).Grows (.directory entries'))
    (hFind : find? entries name = some child)
    (hFind' : find? entries' name = some child') :
    child.Grows child' := by
  constructor
  · intro loc node hNode
    rw [← at?_cons hFind] at hNode
    rcases hGrows.kept _ node hNode with ⟨node', hNode', hSame⟩
    rw [at?_cons hFind'] at hNode'
    exact ⟨node', hNode', hSame⟩
  · intro loc target hLink
    rw [← at?_cons hFind'] at hLink
    rw [← at?_cons hFind]
    exact hGrows.links _ target hLink

theorem Alike.find?
    (hAlike : (directory entries).Alike (directory entries'))
    (hFind : find? entries name = some child) :
    ∃ child',
      Node.find? entries' name = some child' ∧
        child.Alike child' := by
  have hNode : (directory entries).at? [name] = some child :=
    at?_cons hFind []
  rcases hAlike.grows.kept [name] child hNode with
    ⟨node, hNode', _⟩
  rcases at?_cons_eq_some_iff.mp hNode' with
    ⟨child', hFind', _⟩
  exact ⟨child', hFind', hAlike.grows.of_find? hFind hFind',
    hAlike.back.of_find? hFind' hFind⟩

/- The tree at a place of one tree is like that of the other. -/
theorem Alike.of_at?
    (hAlike : root.Alike root')
    {loc : Location}
    (hNode : root.at? loc = some node)
    (hNode' : root'.at? loc = some node') :
    node.Alike node' := by
  have hGrows :
      ∀ {a b c d : Node},
        a.Grows b → a.at? loc = some c → b.at? loc = some d →
          c.Grows d := by
    intro a b c d hGrows hHere hThere
    have hBelow :
        ∀ {top below : Node},
          top.at? loc = some below →
            ∀ rest, top.at? (loc ++ rest) = below.at? rest := by
      intro top below hTop rest
      rw [at?_append, hTop, Option.bind_some]
    constructor
    · intro rest inner hInner
      rw [← hBelow hHere] at hInner
      rcases hGrows.kept _ inner hInner with
        ⟨inner', hInner', hSame⟩
      rw [hBelow hThere] at hInner'
      exact ⟨inner', hInner', hSame⟩
    · intro rest target hLink
      rw [← hBelow hThere] at hLink
      rw [← hBelow hHere]
      exact hGrows.links _ target hLink
  exact ⟨hGrows hAlike.grows hNode hNode',
    hGrows hAlike.back hNode' hNode⟩

/- Nodes of one kind are looked at in the same way. -/
theorem SameKind.look_eq
    (hSame : child.SameKind child') :
    child'.isDirectory = child.isDirectory ∧
      CodeFiles.isCode (name, child') =
        CodeFiles.isCode (name, child) := by
  cases child <;> cases child' <;>
    first | exact ⟨rfl, rfl⟩ | exact hSame.elim

/-
  The names of the entries that are looked at, and whether
  they are code files.
-/
def marks (entries : Entries) : List (String × Bool) :=
  (entries.filter (!·.2.isDirectory)).map fun e =>
    (e.1, CodeFiles.isCode e)

theorem looks_eq (entries : Entries) :
    CodeFiles.looks entries =
      (CodeFiles.byName (marks entries)).map fun mark =>
        .seen [mark.1] mark.2 := by
  have hSorted :
      CodeFiles.byName (marks entries) =
        (CodeFiles.byName
          (entries.filter (!·.2.isDirectory))).map fun e =>
            (e.1, CodeFiles.isCode e) := by
    unfold CodeFiles.byName marks
    symm
    apply List.map_mergeSort
    intro _ _ _ _
    rfl
  rw [hSorted, List.map_map]
  rfl

theorem map_fst_marks_sublist (entries : Entries) :
    ((marks entries).map Prod.fst).Sublist
      (entries.map Prod.fst) := by
  unfold marks
  rw [List.map_map]
  exact List.filter_sublist.map Prod.fst

theorem Alike.mem_marks
    (hUnique : (entries.map Prod.fst).Nodup)
    (hAlike : (directory entries).Alike (directory entries'))
    {mark : String × Bool}
    (hMark : mark ∈ marks entries) :
    mark ∈ marks entries' := by
  rcases List.mem_map.mp hMark with ⟨⟨name, child⟩, hEntry, rfl⟩
  rcases List.mem_filter.mp hEntry with ⟨hMember, hNot⟩
  rcases hAlike.find? (find?_of_mem hUnique hMember) with
    ⟨child', hFind', hChild⟩
  rcases hChild.sameKind.look_eq with ⟨hKind, hCode⟩
  refine List.mem_map.mpr
    ⟨(name, child'), List.mem_filter.mpr
      ⟨mem_of_find? hFind', ?_⟩, ?_⟩
  · dsimp only
    rw [hKind]
    exact hNot
  · dsimp only
    rw [hCode]

/- The entries that are looked at are the same. -/
theorem Alike.looks_eq
    (hUnique : (entries.map Prod.fst).Nodup)
    (hUnique' : (entries'.map Prod.fst).Nodup)
    (hAlike : (directory entries).Alike (directory entries')) :
    CodeFiles.looks entries' = CodeFiles.looks entries := by
  have hSorted :=
    CodeFiles.byName_congr
      (hUnique.sublist (map_fst_marks_sublist entries))
      (hUnique'.sublist (map_fst_marks_sublist entries'))
      fun mark =>
        ⟨hAlike.symm.mem_marks hUnique',
          hAlike.mem_marks hUnique⟩
  rw [Node.looks_eq, Node.looks_eq, hSorted]

/- What is below an entry is passed by the same way. -/
theorem Alike.mem_visitsBelow
    (hUnique : (entries.map Prod.fst).Nodup)
    (hAlike : (directory entries).Alike (directory entries'))
    (hWays :
      ∀ name child child',
        Node.find? entries name = some child →
          Node.find? entries' name = some child' →
            child.Alike child' → child'.visits = child.visits)
    {below : String × List Visit}
    (hBelow : below ∈ visitsBelow entries) :
    below ∈ visitsBelow entries' := by
  rcases Node.mem_visitsBelow.mp hBelow with
    ⟨hKept, child, hEntry, hWay⟩
  have hFind := find?_of_mem hUnique hEntry
  rcases hAlike.find? hFind with ⟨child', hFind', hChild⟩
  refine Node.mem_visitsBelow.mpr
    ⟨hKept, child', mem_of_find? hFind', ?_⟩
  rw [hWays _ child child' hFind hFind' hChild]
  exact hWay

/- The way through two such trees is the same. -/
theorem Alike.visits_eq
    (hProper : root.Proper)
    (hProper' : root'.Proper)
    (hAlike : root.Alike root') :
    root'.visits = root.visits := by
  induction root using partsInduction generalizing root' with
  | file content =>
      cases root' with
      | directory entries => exact hAlike.sameKind.elim
      | _ => rfl
  | link target =>
      cases root' with
      | directory entries => exact hAlike.sameKind.elim
      | _ => rfl
  | directory entries ih =>
      cases root' with
      | file content => exact hAlike.sameKind.elim
      | link target => exact hAlike.sameKind.elim
      | directory entries' =>
          have hUnique := hProper.unique [] entries rfl
          have hUnique' := hProper'.unique [] entries' rfl
          have hWays :
              ∀ name child child',
                Node.find? entries name = some child →
                  Node.find? entries' name = some child' →
                    child.Alike child' →
                      child'.visits = child.visits := by
            intro name child child' hFind hFind' hChild
            exact ih (name, child) (mem_of_find? hFind)
              (hProper.of_find? hFind)
              (hProper'.of_find? hFind') hChild
          have hBelow :
              CodeFiles.byName (visitsBelow entries') =
                CodeFiles.byName (visitsBelow entries) := by
            apply CodeFiles.byName_congr
              (hUnique.sublist
                (map_fst_visitsBelow_sublist entries))
              (hUnique'.sublist
                (map_fst_visitsBelow_sublist entries'))
            intro below
            constructor
            · apply hAlike.symm.mem_visitsBelow hUnique'
              intro name child' child hFind' hFind hChild
              exact (hWays name child child' hFind hFind'
                hChild.symm).symm
            · exact hAlike.mem_visitsBelow hUnique hWays
          rw [visits, visits, hAlike.looks_eq hUnique hUnique',
            hBelow]

------------------------------------------------------------
-- Places on the Way
------------------------------------------------------------

theorem mem_looks_iff
    {visit : Visit} :
    visit ∈ CodeFiles.looks entries ↔
      ∃ e ∈ entries,
        e.2.isDirectory = false ∧
          visit = .seen [e.1] (CodeFiles.isCode e) := by
  unfold CodeFiles.looks CodeFiles.byName
  simp only [List.mem_map, List.mem_mergeSort, List.mem_filter,
    Bool.not_eq_true']
  constructor
  · rintro ⟨e, ⟨hEntry, hNot⟩, rfl⟩
    exact ⟨e, hEntry, hNot, rfl⟩
  · rintro ⟨e, hEntry, hNot, rfl⟩
    exact ⟨e, ⟨hEntry, hNot⟩, rfl⟩

/- The steps of the way through a directory. -/
theorem mem_visits_iff
    {visit : Visit} :
    visit ∈ (directory entries).visits ↔
      visit = .opened [] ∨
        visit ∈ CodeFiles.looks entries ∨
        ∃ e ∈ entries,
          e.1 ∉ CodeFiles.ignored ∧
            ∃ inner ∈ e.2.visits,
              visit = inner.below e.1 := by
  rw [visits, List.cons_append, List.mem_cons, List.mem_append,
    List.mem_flatMap]
  apply or_congr_right
  apply or_congr_right
  constructor
  · rintro ⟨below, hIn, hVisit⟩
    rcases mem_visitsBelow.mp (List.mem_mergeSort.mp hIn) with
      ⟨hKept, child, hEntry, hWay⟩
    rw [hWay] at hVisit
    rcases List.mem_map.mp hVisit with ⟨inner, hInner, rfl⟩
    exact ⟨_, hEntry, hKept, inner, hInner, rfl⟩
  · rintro ⟨e, hEntry, hKept, inner, hInner, rfl⟩
    exact ⟨(e.1, e.2.visits.map (.below e.1)),
      List.mem_mergeSort.mpr
        (mem_visitsBelow.mpr ⟨hKept, e.2, hEntry, rfl⟩),
      List.mem_map_of_mem hInner⟩

/- A directory below an entry is opened. -/
theorem opened_cons_mem_visits_iff
    {rest : Location} :
    .opened (name :: rest) ∈ (directory entries).visits ↔
      name ∉ CodeFiles.ignored ∧
        ∃ child,
          (name, child) ∈ entries ∧
            .opened rest ∈ child.visits := by
  rw [mem_visits_iff]
  constructor
  · rintro (hHere | hLook | hBelow)
    · cases hHere
    · rcases mem_looks_iff.mp hLook with ⟨_, _, _, hSeen⟩
      cases hSeen
    · rcases hBelow with
        ⟨⟨_, child⟩, hEntry, hKept, inner, hInner, hSame⟩
      cases inner with
      | seen below isCode => cases hSame
      | opened below =>
          cases hSame
          exact ⟨hKept, child, hEntry, hInner⟩
  · rintro ⟨hKept, child, hEntry, hOpened⟩
    exact Or.inr (Or.inr
      ⟨(name, child), hEntry, hKept, _, hOpened, rfl⟩)

/- An entry is looked at, or what is below it. -/
theorem seen_cons_mem_visits_iff
    {rest : Location}
    {isCode : Bool} :
    .seen (name :: rest) isCode ∈ (directory entries).visits ↔
      ∃ child,
        (name, child) ∈ entries ∧
          (rest = [] ∧
              child.isDirectory = false ∧
              isCode = CodeFiles.isCode (name, child) ∨
            name ∉ CodeFiles.ignored ∧
              .seen rest isCode ∈ child.visits) := by
  rw [mem_visits_iff]
  constructor
  · rintro (hHere | hLook | hBelow)
    · cases hHere
    · rcases mem_looks_iff.mp hLook with
        ⟨⟨_, child⟩, hEntry, hNot, hSeen⟩
      cases hSeen
      exact ⟨child, hEntry, Or.inl ⟨rfl, hNot, rfl⟩⟩
    · rcases hBelow with
        ⟨⟨_, child⟩, hEntry, hKept, inner, hInner, hSame⟩
      cases inner with
      | opened below => cases hSame
      | seen below isCode =>
          cases hSame
          exact ⟨child, hEntry, Or.inr ⟨hKept, hInner⟩⟩
  · rintro ⟨child, hEntry, ⟨rfl, hNot, rfl⟩ | ⟨hKept, hSeen⟩⟩
    · exact Or.inr (Or.inl
        (mem_looks_iff.mpr ⟨(name, child), hEntry, hNot, rfl⟩))
    · exact Or.inr (Or.inr
        ⟨(name, child), hEntry, hKept, _, hSeen, rfl⟩)

/- A directory is opened on the way. -/
structure Opens (root : Node) (loc : Location) : Prop where
  directory : ∃ entries, root.at? loc = some (.directory entries)
  kept : ∀ name ∈ loc, name ∉ CodeFiles.ignored

/- A file or a link is looked at on the way. -/
structure LooksAt (root : Node) (loc : Location) : Prop where
  entry :
    ∃ node, root.at? loc = some node ∧ node.isDirectory = false
  below : loc ≠ []
  kept : ∀ name ∈ loc.dropLast, name ∉ CodeFiles.ignored

/- Only through a directory there is a way. -/
theorem exists_entries_of_mem_visits
    {visit : Visit}
    (hIn : visit ∈ root.visits) :
    ∃ entries, root = .directory entries := by
  cases root with
  | directory entries => exact ⟨entries, rfl⟩
  | file content => cases hIn
  | link target => cases hIn

/- Only a directory has something below it. -/
theorem exists_entries_of_at?
    (hNode : root.at? loc = some node)
    (hOther : loc ≠ [] ∨ node.isDirectory = true) :
    ∃ entries, root = .directory entries := by
  cases root with
  | directory entries => exact ⟨entries, rfl⟩
  | file content =>
      cases loc with
      | nil =>
          rcases Option.some.inj hNode with rfl
          cases hOther.resolve_left (by simp)
      | cons name rest => cases hNode
  | link target =>
      cases loc with
      | nil =>
          rcases Option.some.inj hNode with rfl
          cases hOther.resolve_left (by simp)
      | cons name rest => cases hNode

theorem Opens.exists_entries
    (hOpens : root.Opens loc) :
    ∃ entries, root = .directory entries := by
  rcases hOpens.directory with ⟨entries, hAt⟩
  exact exists_entries_of_at? hAt (Or.inr rfl)

theorem LooksAt.exists_entries
    (hLooks : root.LooksAt loc) :
    ∃ entries, root = .directory entries := by
  rcases hLooks.entry with ⟨node, hAt, _⟩
  exact exists_entries_of_at? hAt (Or.inl hLooks.below)

/- The steps of the way are taken by the names of entries. -/
theorem Proper.opened_mem_visits_iff
    (hProper : root.Proper) :
    .opened loc ∈ root.visits ↔ root.Opens loc := by
  induction loc generalizing root with
  | nil =>
      constructor
      · intro hIn
        rcases exists_entries_of_mem_visits hIn with
          ⟨entries, rfl⟩
        exact ⟨⟨entries, rfl⟩, by simp⟩
      · intro hOpens
        rcases hOpens.exists_entries with ⟨entries, rfl⟩
        exact mem_visits_iff.mpr (Or.inl rfl)
  | cons name rest ih =>
      constructor
      · intro hIn
        rcases exists_entries_of_mem_visits hIn with
          ⟨entries, rfl⟩
        rcases opened_cons_mem_visits_iff.mp hIn with
          ⟨hKept, child, hEntry, hInner⟩
        have hFind :=
          find?_of_mem (hProper.unique [] entries rfl) hEntry
        rcases (ih (hProper.of_find? hFind)).mp hInner with
          ⟨⟨inner, hAt⟩, hBelow⟩
        exact
          ⟨⟨inner, at?_cons_eq_some_iff.mpr
            ⟨child, hFind, hAt⟩⟩,
            List.forall_mem_cons.mpr ⟨hKept, hBelow⟩⟩
      · intro hOpens
        rcases hOpens.exists_entries with ⟨entries, rfl⟩
        rcases hOpens with ⟨⟨inner, hAt⟩, hNames⟩
        rcases List.forall_mem_cons.mp hNames with
          ⟨hKept, hBelow⟩
        rcases at?_cons_eq_some_iff.mp hAt with
          ⟨child, hFind, hInner⟩
        exact opened_cons_mem_visits_iff.mpr
          ⟨hKept, child, mem_of_find? hFind,
            (ih (hProper.of_find? hFind)).mpr
              ⟨⟨inner, hInner⟩, hBelow⟩⟩

theorem seen_nil_not_mem_visits
    (root : Node)
    (isCode : Bool) :
    .seen [] isCode ∉ root.visits := by
  intro hIn
  rcases exists_entries_of_mem_visits hIn with
    ⟨entries, rfl⟩
  rcases mem_visits_iff.mp hIn with
    hHere | hLook | ⟨e, _, _, inner, _, hSame⟩
  · cases hHere
  · rcases mem_looks_iff.mp hLook with ⟨_, _, _, hSeen⟩
    cases hSeen
  · cases inner <;> cases hSame

theorem Proper.seen_mem_visits_iff
    (hProper : root.Proper) :
    (∃ isCode, .seen loc isCode ∈ root.visits) ↔
      root.LooksAt loc := by
  induction loc generalizing root with
  | nil =>
      constructor
      · rintro ⟨isCode, hIn⟩
        exact (seen_nil_not_mem_visits root isCode hIn).elim
      · intro hLooks
        exact (hLooks.below rfl).elim
  | cons name rest ih =>
      constructor
      · rintro ⟨isCode, hIn⟩
        rcases exists_entries_of_mem_visits hIn with
          ⟨entries, rfl⟩
        rcases seen_cons_mem_visits_iff.mp hIn with
          ⟨child, hEntry, hSteps⟩
        have hFind :=
          find?_of_mem (hProper.unique [] entries rfl) hEntry
        rcases hSteps with ⟨rfl, hNot, _⟩ | ⟨hKept, hInner⟩
        · exact ⟨⟨child, at?_cons_eq_some_iff.mpr
            ⟨child, hFind, rfl⟩, hNot⟩, by simp, by simp⟩
        · rcases (ih (hProper.of_find? hFind)).mp ⟨_, hInner⟩
            with ⟨⟨node, hAt, hNot⟩, hBelow, hNames⟩
          refine ⟨⟨node, at?_cons_eq_some_iff.mpr
            ⟨child, hFind, hAt⟩, hNot⟩, by simp, ?_⟩
          rw [List.dropLast_cons_of_ne_nil hBelow]
          exact List.forall_mem_cons.mpr ⟨hKept, hNames⟩
      · intro hLooks
        rcases hLooks.exists_entries with ⟨entries, rfl⟩
        rcases hLooks with ⟨⟨node, hAt, hNot⟩, _, hNames⟩
        rcases at?_cons_eq_some_iff.mp hAt with
          ⟨child, hFind, hNode⟩
        have hEntry := mem_of_find? hFind
        by_cases hBelow : rest = []
        · subst hBelow
          rcases Option.some.inj hNode with rfl
          exact ⟨_, seen_cons_mem_visits_iff.mpr
            ⟨child, hEntry, Or.inl ⟨rfl, hNot, rfl⟩⟩⟩
        · rw [List.dropLast_cons_of_ne_nil hBelow] at hNames
          rcases List.forall_mem_cons.mp hNames with
            ⟨hKept, hInner⟩
          rcases (ih (hProper.of_find? hFind)).mpr
              ⟨⟨node, hNode, hNot⟩, hBelow, hInner⟩ with
            ⟨isCode, hSeen⟩
          exact ⟨isCode, seen_cons_mem_visits_iff.mpr
            ⟨child, hEntry, Or.inr ⟨hKept, hSeen⟩⟩⟩

end Node

------------------------------------------------------------
-- The Order of the Way
------------------------------------------------------------

namespace Visit

variable {x y : Visit} {name name' : String}

/- The directory that a step opens, or looks around in. -/
def directory : Visit → Location
  | .opened loc => loc
  | .seen loc _ => loc.dropLast

/- The name of the entry that a step looks at. -/
def name? : Visit → Option String
  | .opened _ => none
  | .seen loc _ => loc.getLast?

/-
  The order of the steps: a directory comes before those
  below it, and other directories come in the order of their
  names. It is opened first, and then its entries are looked
  at in the order of their names.
-/
def Ahead (x y : Visit) : Prop :=
  x.directory < y.directory ∨
    x.directory = y.directory ∧ x.name? < y.name?

theorem Ahead.asymm
    (hAhead : x.Ahead y) :
    ¬ y.Ahead x := by
  rintro (hLt | ⟨hSame, hName⟩)
  · rcases hAhead with hLt' | ⟨hSame', _⟩
    · exact List.lt_asymm hLt hLt'
    · rw [hSame'] at hLt
      exact List.lt_irrefl _ hLt
  · rcases hAhead with hLt' | ⟨_, hName'⟩
    · rw [hSame] at hLt'
      exact List.lt_irrefl _ hLt'
    · revert hName hName'
      cases x.name? <;> cases y.name? <;>
        simp only [Option.some_lt_some, Option.not_lt_none,
          false_implies, implies_true]
      exact String.lt_asymm

/- A step is one on the way through a directory. -/
def IsStep : Visit → Prop
  | .opened _ => True
  | .seen loc _ => loc ≠ []

theorem directory_below
    (hStep : x.IsStep)
    (name : String) :
    (x.below name).directory = name :: x.directory := by
  cases x with
  | opened loc => rfl
  | seen loc isCode => exact List.dropLast_cons_of_ne_nil hStep

theorem name?_below
    (hStep : x.IsStep)
    (name : String) :
    (x.below name).name? = x.name? := by
  cases x with
  | opened loc => rfl
  | seen loc isCode =>
      exact List.getLast?_cons_of_ne_nil hStep

theorem Ahead.below
    (hAhead : x.Ahead y)
    (hx : x.IsStep)
    (hy : y.IsStep)
    (name : String) :
    (x.below name).Ahead (y.below name) := by
  unfold Ahead
  rw [directory_below hx, directory_below hy, name?_below hx,
    name?_below hy, List.cons_lt_cons_iff]
  rcases hAhead with hLt | ⟨hSame, hName⟩
  · exact Or.inl (Or.inr ⟨rfl, hLt⟩)
  · exact Or.inr ⟨congrArg _ hSame, hName⟩

/- Different directories are passed in the order of their names. -/
theorem ahead_below_of_lt
    (hx : x.IsStep)
    (hy : y.IsStep)
    (hLt : name < name') :
    (x.below name).Ahead (y.below name') := by
  unfold Ahead
  rw [directory_below hx, directory_below hy,
    List.cons_lt_cons_iff]
  exact Or.inl (Or.inl hLt)

/- What a directory holds comes before what is below it. -/
theorem ahead_below_of_nil
    (hx : x.directory = [])
    (hy : y.IsStep)
    (name : String) :
    x.Ahead (y.below name) := by
  unfold Ahead
  rw [hx, directory_below hy]
  exact Or.inl (List.nil_lt_cons _ _)

end Visit

namespace Node

variable {entries : Entries} {root : Node}

theorem pairwise_looks
    (hUnique : (entries.map Prod.fst).Nodup) :
    (CodeFiles.looks entries).Pairwise Visit.Ahead := by
  have hNames :
      ((CodeFiles.byName
          (entries.filter (!·.2.isDirectory))).map
        Prod.fst).Pairwise (· < ·) := by
    apply pairwise_lt_of_nodup (CodeFiles.pairwise_byName _)
    unfold CodeFiles.byName
    apply ((List.mergeSort_perm _ _).map Prod.fst).nodup_iff.mpr
    exact hUnique.sublist (List.filter_sublist.map Prod.fst)
  apply List.pairwise_map.mpr
  apply (List.pairwise_map.mp hNames).imp
  intro e e' hLt
  exact Or.inr ⟨rfl, Option.some_lt_some.mpr hLt⟩

/- The ways below a directory, in the order of names. -/
theorem pairwise_visitsBelow
    (hUnique : (entries.map Prod.fst).Nodup) :
    (CodeFiles.byName (visitsBelow entries)).Pairwise
      fun a b => a.1 < b.1 := by
  apply List.pairwise_map.mp
  apply pairwise_lt_of_nodup (CodeFiles.pairwise_byName _)
  unfold CodeFiles.byName
  apply ((List.mergeSort_perm _ _).map Prod.fst).nodup_iff.mpr
  exact hUnique.sublist (map_fst_visitsBelow_sublist entries)

theorem isStep_of_mem_visits
    {visit : Visit}
    (hIn : visit ∈ root.visits) :
    visit.IsStep := by
  cases visit with
  | opened loc => trivial
  | seen loc isCode =>
      rintro rfl
      exact seen_nil_not_mem_visits root isCode hIn

/- The steps of the way are taken in this order. -/
theorem Proper.pairwise_visits
    (hProper : root.Proper) :
    root.visits.Pairwise Visit.Ahead := by
  induction root using partsInduction with
  | file content => exact List.Pairwise.nil
  | link target => exact List.Pairwise.nil
  | directory entries ih =>
      have hUnique := hProper.unique [] entries rfl
      have hBelow :
          ∀ below ∈ CodeFiles.byName (visitsBelow entries),
            below.2.Pairwise Visit.Ahead ∧
              ∀ visit ∈ below.2, ∃ inner : Visit,
                inner.IsStep ∧ visit = inner.below below.1 := by
        intro below hIn
        rcases mem_visitsBelow.mp (List.mem_mergeSort.mp hIn)
          with ⟨_, node, hEntry, hWay⟩
        have hNode :=
          hProper.of_find? (find?_of_mem hUnique hEntry)
        rw [hWay]
        refine ⟨List.pairwise_map.mpr
          ((ih _ hEntry hNode).imp_of_mem
            fun hx hy hAhead =>
              hAhead.below (isStep_of_mem_visits hx)
                (isStep_of_mem_visits hy) _), ?_⟩
        intro visit hVisit
        rcases List.mem_map.mp hVisit with ⟨inner, hInner, rfl⟩
        exact ⟨inner, isStep_of_mem_visits hInner, rfl⟩
      have hLooks :
          ∀ visit ∈ CodeFiles.looks entries,
            visit.directory = [] ∧
              (Visit.opened []).Ahead visit := by
        intro visit hLook
        rcases mem_looks_iff.mp hLook with ⟨e, _, _, rfl⟩
        exact ⟨rfl, Or.inr ⟨rfl, Option.none_lt_some⟩⟩
      rw [visits, List.cons_append, List.pairwise_cons,
        List.pairwise_append]
      refine ⟨?first, pairwise_looks hUnique, ?below, ?both⟩
      case first =>
        intro visit hLater
        rcases List.mem_append.mp hLater with hLook | hIn
        · exact (hLooks visit hLook).2
        · rcases List.mem_flatMap.mp hIn with
            ⟨below, hMember, hVisit⟩
          rcases (hBelow below hMember).2 visit hVisit with
            ⟨inner, hStep, rfl⟩
          exact Visit.ahead_below_of_nil rfl hStep _
      case below =>
        apply List.pairwise_flatMap.mpr
        refine ⟨fun below hIn => (hBelow below hIn).1, ?_⟩
        apply (pairwise_visitsBelow hUnique).imp_of_mem
        intro a b ha hb hLt x hx y hy
        rcases (hBelow a ha).2 x hx with ⟨_, hStep, rfl⟩
        rcases (hBelow b hb).2 y hy with ⟨_, hStep', rfl⟩
        exact Visit.ahead_below_of_lt hStep hStep' hLt
      case both =>
        intro look hLook visit hIn
        rcases List.mem_flatMap.mp hIn with
          ⟨below, hMember, hVisit⟩
        rcases (hBelow below hMember).2 visit hVisit with
          ⟨inner, hStep, rfl⟩
        exact Visit.ahead_below_of_nil (hLooks look hLook).1
          hStep _

end Node

/- The fault of a way in order is that of its first faulty step. -/
theorem Listing.fault?_eq_some_iff
    {room : Nat}
    {p : Path}
    {visits : List Visit}
    {fault : PathFault}
    (hOrder : visits.Pairwise Visit.Ahead) :
    (ofVisits room p visits).fault? = some fault ↔
      ∃ visit ∈ visits,
        visit.fault? room p = some fault ∧
          ∀ other ∈ visits, other.Ahead visit →
            other.fault? room p = none := by
  unfold ofVisits
  dsimp only
  rw [List.findSome?_eq_some_iff]
  constructor
  · rintro ⟨before, visit, after, rfl, hFault, hQuiet⟩
    refine ⟨visit, by simp, hFault, ?_⟩
    intro other hIn hAhead
    rcases List.mem_append.mp hIn with hBefore | hRest
    · exact hQuiet other hBefore
    · have hLater :=
        List.pairwise_cons.mp (List.pairwise_append.mp hOrder).2.1
      rcases List.mem_cons.mp hRest with rfl | hAfter
      · exact (hAhead.asymm hAhead).elim
      · exact (hAhead.asymm (hLater.1 other hAfter)).elim
  · rintro ⟨visit, hIn, hFault, hQuiet⟩
    rcases List.append_of_mem hIn with ⟨before, after, rfl⟩
    refine ⟨before, visit, after, rfl, hFault, ?_⟩
    intro other hBefore
    exact hQuiet other (by simp [hBefore])
      ((List.pairwise_append.mp hOrder).2.2 other hBefore visit
        (by simp))

end BiomeMigration
