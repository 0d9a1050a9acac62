import BiomeMigration.Proofs.Files.Touch
import BiomeMigration.Proofs.Files.Visits

/-
  The code files that are listed for a directory. In a tree
  where names are told apart, the path of each one leads to
  a file whose own name is that of a code file.

  Main declarations:
    * `Node.Proper`
    * `Node.Proper.put`
    * `Node.Proper.of_mem_codeFiles`
    * `Node.IsListed`
    * `FileSystem.of_locate_listed`
    * `FileSystem.proper_of_write`
    * `Logger.proper_writeFiles`
-/

------------------------------------------------------------
-- Proper Trees
------------------------------------------------------------

namespace BiomeMigration

open FileSystem (Step)

namespace Node

variable {entries : Entries} {name : String} {child : Node}

/-
  The entries of a directory have different names, and no
  directory is named by a dot or two, or by nothing.
-/
structure Proper (root : Node) : Prop where
  unique :
    ∀ loc entries, root.at? loc = some (.directory entries) →
      (entries.map Prod.fst).Nodup
  named :
    ∀ loc name entries,
      root.at? (loc ++ [name]) = some (.directory entries) →
        Step.ofString name = .down name

theorem find?_of_mem
    (hUnique : (entries.map Prod.fst).Nodup)
    (hMember : (name, child) ∈ entries) :
    find? entries name = some child := by
  induction entries with
  | nil => simp at hMember
  | cons e rest ih =>
      rcases e with ⟨other, node⟩
      rw [List.map_cons, List.nodup_cons] at hUnique
      rw [find?]
      rcases List.mem_cons.mp hMember with hHead | hTail
      · rcases hHead with ⟨⟩
        rw [if_pos rfl]
      · have hOther : other ≠ name := by
          rintro rfl
          exact hUnique.1
            (List.mem_map.mpr ⟨(other, child), hTail, rfl⟩)
        rw [if_neg hOther]
        exact ih hUnique.2 hTail

theorem at?_cons
    (hFind : find? entries name = some child)
    (rest : Location) :
    (directory entries).at? (name :: rest) = child.at? rest := by
  rw [at?, hFind]

/- The tree at a place of a proper tree is proper. -/
theorem Proper.of_at?
    {root node : Node}
    (hProper : root.Proper)
    {above : Location}
    (hNode : root.at? above = some node) :
    node.Proper := by
  have hBelow :
      ∀ loc, root.at? (above ++ loc) = node.at? loc := by
    intro loc
    rw [at?_append, hNode, Option.bind_some]
  constructor
  · intro loc inner hInner
    apply hProper.unique (above ++ loc)
    rw [hBelow, hInner]
  · intro loc last inner hInner
    apply hProper.named (above ++ loc) last inner
    rw [List.append_assoc, hBelow, hInner]

theorem Proper.of_find?
    (hProper : (directory entries).Proper)
    (hFind : find? entries name = some child) :
    child.Proper := by
  have hChild : (directory entries).at? [name] = some child := by
    rw [at?_cons hFind]
    rfl
  exact hProper.of_at? hChild

theorem map_fst_set
    (entries : Entries)
    (name : String)
    (node : Node) :
    (set entries name node).map Prod.fst =
      if name ∈ entries.map Prod.fst then
        entries.map Prod.fst
      else entries.map Prod.fst ++ [name] := by
  induction entries with
  | nil => simp [set]
  | cons e rest ih =>
      rcases e with ⟨other, old⟩
      rw [set]
      by_cases hName : other = name
      · simp [hName]
      · have hNe : name ≠ other := Ne.symm hName
        rw [if_neg hName, List.map_cons, ih]
        by_cases hMember : name ∈ rest.map Prod.fst
        · rw [if_pos hMember, List.map_cons,
            if_pos (List.mem_cons_of_mem _ hMember)]
        · rw [if_neg hMember, List.map_cons,
            if_neg (by simpa [hNe] using hMember)]
          rfl

theorem nodup_set
    (hUnique : (entries.map Prod.fst).Nodup)
    (name : String)
    (node : Node) :
    ((set entries name node).map Prod.fst).Nodup := by
  rw [map_fst_set]
  split
  · exact hUnique
  · next hNew =>
      rw [List.nodup_append]
      refine ⟨hUnique, by simp, ?_⟩
      rintro a ha b hb rfl
      rw [List.mem_singleton.mp hb] at ha
      exact hNew ha

/- There is nothing below a file, or below a link. -/
theorem proper_of_not_directory
    {node : Node}
    (hNot : node.isDirectory = false) :
    node.Proper := by
  constructor
  · intro loc entries hNode
    cases node <;> cases loc <;>
      simp_all [at?, isDirectory]
  · intro loc name entries hNode
    cases node <;> cases loc <;>
      simp_all [at?, isDirectory]

theorem proper_file (content : Bytes) :
    (file content).Proper :=
  proper_of_not_directory rfl

/- One entry of a directory may be set to a proper tree. -/
theorem Proper.set
    (hProper : (directory entries).Proper)
    (hChild : child.Proper)
    (hNamed :
      ∀ inner, child = .directory inner →
        Step.ofString name = .down name) :
    (directory (Node.set entries name child)).Proper := by
  constructor
  · intro loc inner hNode
    cases loc with
    | nil =>
        rcases Option.some.inj hNode with ⟨⟩
        exact nodup_set (hProper.unique [] entries rfl) _ _
    | cons first below =>
        rw [at?, find?_set] at hNode
        by_cases hName : name = first
        · rw [if_pos hName] at hNode
          exact hChild.unique below inner hNode
        · rw [if_neg hName] at hNode
          exact hProper.unique (first :: below) inner hNode
  · intro loc last inner hNode
    cases loc with
    | nil =>
        rw [List.nil_append, at?, find?_set] at hNode
        by_cases hName : name = last
        · rw [if_pos hName] at hNode
          rw [← hName]
          exact hNamed inner (Option.some.inj hNode)
        · rw [if_neg hName] at hNode
          exact hProper.named [] last inner hNode
    | cons first below =>
        rw [List.cons_append, at?, find?_set] at hNode
        by_cases hName : name = first
        · rw [if_pos hName] at hNode
          exact hChild.named below last inner hNode
        · rw [if_neg hName] at hNode
          exact hProper.named (first :: below) last inner hNode

/- A proper tree stays proper when a file is put into it. -/
theorem Proper.put
    {root : Node}
    {loc : Location}
    (hProper : root.Proper)
    (hRoom : root.Room loc)
    (content : Bytes) :
    (root.put (.file content) loc).Proper := by
  induction loc generalizing root with
  | nil => exact proper_file content
  | cons name rest ih =>
      rcases hRoom.cons with
        ⟨entries, rfl, ⟨hNone, rfl⟩ | ⟨child, hFind, hChild⟩⟩
      · apply hProper.set (proper_file content)
        simp
      · rw [put_cons hFind]
        apply hProper.set (ih (hProper.of_find? hFind) hChild)
        intro inner hInner
        cases rest with
        | nil => simp [Node.put] at hInner
        | cons first below =>
            rcases hChild.cons with ⟨outer, rfl, _⟩
            apply hProper.named [] name outer
            rw [List.nil_append, at?_cons hFind]
            rfl

------------------------------------------------------------
-- Places of Code Files
------------------------------------------------------------

/- A place whose last name is that of a code file. -/
def IsCodePlace (loc : Location) : Prop :=
  ∃ above name,
    loc = above ++ [name] ∧ CodeFiles.isCodeName name = true

theorem isCodePlace_singleton_iff :
    IsCodePlace [name] ↔ CodeFiles.isCodeName name = true := by
  constructor
  · rintro ⟨above, last, hLoc, hCode⟩
    have hLast := congrArg List.getLast? hLoc
    simp only [List.getLast?_singleton, List.getLast?_concat,
      Option.some.injEq] at hLast
    rw [hLast]
    exact hCode
  · intro hCode
    exact ⟨[], name, rfl, hCode⟩

theorem IsCodePlace.append
    {below : Location}
    (hCode : IsCodePlace below)
    (above : Location) :
    IsCodePlace (above ++ below) := by
  rcases hCode with ⟨front, name, rfl, hName⟩
  exact ⟨above ++ front, name,
    (List.append_assoc above front [name]).symm, hName⟩

/-
  A place below a directory that is listed if there is a
  file: that of a code file, with no ignored directory on
  the way.
-/
structure IsListed (loc : Location) : Prop where
  isCode : IsCodePlace loc
  kept : ∀ name ∈ loc.dropLast, name ∉ CodeFiles.ignored

theorem IsListed.cons
    {loc : Location}
    (hListed : IsListed loc)
    (hKept : name ∉ CodeFiles.ignored) :
    IsListed (name :: loc) := by
  refine ⟨hListed.isCode.append [name], fun other hOther => ?_⟩
  rcases hListed.isCode with ⟨front, last, rfl, _⟩
  rw [← List.cons_append, List.dropLast_concat] at hOther
  rcases List.mem_cons.mp hOther with rfl | hFront
  · exact hKept
  · apply hListed.kept other
    rw [List.dropLast_concat]
    exact hFront

/-
  The place of a code file below a directory, and the names
  on the way to it.
-/
structure CodeFileAt
    (root : Node)
    (loc : Location) : Prop where
  isListed : IsListed loc
  isFile : ∃ content, root.at? loc = some (.file content)
  named : ∀ name ∈ loc, Step.ofString name = .down name

theorem ofString_of_isCodeName
    (hName : CodeFiles.isCodeName name = true) :
    Step.ofString name = .down name := by
  have hNe :
      ∀ other, CodeFiles.isCodeName other = false →
        name ≠ other := by
    rintro other hOther rfl
    rw [hName] at hOther
    simp at hOther
  simp [Step.ofString, hNe "" (by decide +kernel),
    hNe "." (by decide +kernel), hNe ".." (by decide +kernel)]

theorem mem_names :
    name ∈ CodeFiles.names entries ↔
      CodeFiles.isCodeName name = true ∧
        ∃ content, (name, .file content) ∈ entries := by
  unfold CodeFiles.names CodeFiles.byName
  constructor
  · intro hMember
    rcases List.mem_map.mp hMember with
      ⟨⟨other, node⟩, hEntry, rfl⟩
    rcases List.mem_filter.mp (List.mem_mergeSort.mp hEntry)
      with ⟨hEntry', hCode⟩
    cases node with
    | file content => exact ⟨hCode, content, hEntry'⟩
    | directory inner => simp at hCode
    | link target => simp at hCode
  · rintro ⟨hCode, content, hEntry⟩
    exact List.mem_map.mpr
      ⟨(name, .file content),
        List.mem_mergeSort.mpr
          (List.mem_filter.mpr ⟨hEntry, hCode⟩), rfl⟩

/- A listed place is that of an entry, or of a file below one. -/
theorem mem_codeFiles
    {loc : Location}
    (hMember : loc ∈ (directory entries).codeFiles) :
    (∃ name content,
      loc = [name] ∧
        CodeFiles.isCodeName name = true ∧
        (name, .file content) ∈ entries) ∨
      ∃ name node rest,
        loc = name :: rest ∧
          name ∉ CodeFiles.ignored ∧
          (name, node) ∈ entries ∧ rest ∈ node.codeFiles := by
  rw [codeFiles] at hMember
  rcases List.mem_append.mp hMember with hHere | hBelow
  · rcases List.mem_map.mp hHere with ⟨name, hName, rfl⟩
    rcases mem_names.mp hName with ⟨hCode, content, hEntry⟩
    exact Or.inl ⟨name, content, rfl, hCode, hEntry⟩
  · rcases List.mem_flatMap.mp hBelow with ⟨below, hIn, hLoc⟩
    unfold CodeFiles.byName at hIn
    rcases mem_codeFilesBelow.mp (List.mem_mergeSort.mp hIn)
      with ⟨hKept, node, hEntry, hPlaces⟩
    rw [hPlaces] at hLoc
    rcases List.mem_map.mp hLoc with ⟨rest, hRest, rfl⟩
    exact Or.inr
      ⟨below.1, node, rest, rfl, hKept, hEntry, hRest⟩

/- Each listed place of a proper tree is that of a code file. -/
theorem Proper.of_mem_codeFiles
    {root : Node}
    (hProper : root.Proper)
    {loc : Location}
    (hMember : loc ∈ root.codeFiles) :
    root.CodeFileAt loc := by
  induction root using partsInduction generalizing loc with
  | file content => simp [codeFiles] at hMember
  | link target => simp [codeFiles] at hMember
  | directory entries ih =>
      have hUnique := hProper.unique [] entries rfl
      rcases mem_codeFiles hMember with
        ⟨name, content, rfl, hCode, hEntry⟩ |
          ⟨name, node, rest, rfl, hKept, hEntry, hRest⟩
      · have hFind := find?_of_mem hUnique hEntry
        refine ⟨⟨⟨[], name, rfl, hCode⟩, by simp⟩,
          ⟨content, ?_⟩, ?_⟩
        · rw [at?_cons hFind]
          rfl
        · intro other hOther
          rw [List.mem_singleton.mp hOther]
          exact ofString_of_isCodeName hCode
      · have hFind := find?_of_mem hUnique hEntry
        have hBelow :=
          ih (name, node) hEntry (hProper.of_find? hFind) hRest
        refine ⟨hBelow.isListed.cons hKept, ?_, ?_⟩
        · rw [at?_cons hFind]
          exact hBelow.isFile
        · intro other hOther
          rcases List.mem_cons.mp hOther with rfl | hOther
          · cases node with
            | file content => simp [codeFiles] at hRest
            | link target => simp [codeFiles] at hRest
            | directory inner =>
                apply hProper.named [] other inner
                rw [List.nil_append, at?_cons hFind]
                rfl
          · exact hBelow.named other hOther

end Node

------------------------------------------------------------
-- Paths of Code Files
------------------------------------------------------------

namespace FileSystem

variable {root : Node} {loc : Location} {place : Place}

theorem at?_link_ne_file
    (target : String)
    (loc : Location)
    (content : Bytes) :
    (Node.link target).at? loc ≠ some (.file content) := by
  cases loc <;> simp [Node.at?]

/- Steps by name lead down a tree, if no link is on the way. -/
theorem walk_names
    {follow :
      Location → String → List Step → Except Problem Place}
    {above below : Location}
    {node : Node}
    {content : Bytes}
    (hFile : node.at? below = some (.file content))
    (hNamed : ∀ name ∈ below, Step.ofString name = .down name)
    (hPlace :
      walk root .target follow above node
          (below.map Step.ofString) =
        .ok place) :
    place.location = above ++ below := by
  induction below generalizing above node with
  | nil =>
      rcases Except.ok.inj hPlace with rfl
      exact (List.append_nil above).symm
  | cons name below ih =>
      cases node with
      | file old => simp [Node.at?] at hFile
      | link target => simp [Node.at?] at hFile
      | directory entries =>
          rw [List.map_cons, hNamed name (by simp), walk]
            at hPlace
          rw [Node.at?] at hFile
          split at hPlace
          · simp at hPlace
          · cases hFind : Node.find? entries name with
            | none => simp [hFind] at hFile
            | some child =>
                simp only [hFind] at hFile hPlace
                have hLater :
                    walk root .target follow (above ++ [name])
                        child (below.map Step.ofString) =
                      .ok place := by
                  cases child with
                  | link target =>
                      exact (at?_link_ne_file _ _ _ hFile).elim
                  | file old => exact hPlace
                  | directory inner => exact hPlace
                have hEnd := ih hFile
                  (fun n hn => hNamed n (by simp [hn])) hLater
                rw [hEnd, List.append_assoc]
                rfl

/- More steps are taken from where the first ones end. -/
theorem walk_append
    {Q : Except Problem Place → Prop}
    {follow :
      Location → String → List Step → Except Problem Place}
    {loc last : Location}
    {node lastNode : Node}
    {steps : List Step}
    (more : List Step)
    (hFollow :
      ∀ above target rest,
        follow above target rest =
            .ok ⟨last, some lastNode⟩ →
          Q (follow above target (rest ++ more)))
    (hMore : Q (walk root .target follow last lastNode more))
    (hWalk :
      walk root .target follow loc node steps =
        .ok ⟨last, some lastNode⟩) :
    Q (walk root .target follow loc node (steps ++ more)) := by
  induction steps generalizing loc node with
  | nil =>
      rcases Except.ok.inj hWalk with ⟨⟩
      exact hMore
  | cons step rest ih =>
      cases node with
      | file content => simp [walk] at hWalk
      | link target => simp [walk] at hWalk
      | directory entries =>
          cases step with
          | here => exact ih hWalk
          | up => exact ih hWalk
          | down name =>
              rw [List.cons_append, walk]
              rw [walk] at hWalk
              split at hWalk
              · simp at hWalk
              · next hShort =>
                  rw [if_neg hShort]
                  cases hFind : Node.find? entries name with
                  | none =>
                      simp only [hFind] at hWalk
                      split at hWalk
                      · simp at hWalk
                      · simp at hWalk
                  | some child =>
                      simp only [hFind] at hWalk ⊢
                      cases child with
                      | file content => exact ih hWalk
                      | directory inner => exact ih hWalk
                      | link target =>
                          have hOther :
                              (Ending.target == Ending.link) =
                                false := rfl
                          simp only [hOther, Bool.and_false,
                            Bool.false_eq_true, if_false]
                            at hWalk ⊢
                          exact hFollow _ _ _ hWalk

theorem walkLinks_append
    {Q : Except Problem Place → Prop}
    {loc last : Location}
    {node lastNode : Node}
    {steps : List Step}
    (more : List Step)
    (hMore :
      ∀ follow,
        Q (walk root .target follow last lastNode more))
    (links : Nat)
    (hWalk :
      walkLinks root .target links loc node steps =
        .ok ⟨last, some lastNode⟩) :
    Q (walkLinks root .target links loc node
      (steps ++ more)) := by
  induction links generalizing loc node steps with
  | zero =>
      apply walk_append more _ (hMore _) hWalk
      intro _ _ _ hNone
      simp at hNone
  | succ links ih =>
      apply walk_append more _ (hMore _) hWalk
      intro above target rest hRest
      have hTarget :
          (Ending.target == Ending.newFile) = false := rfl
      simp only [hTarget, Bool.false_and, Bool.false_eq_true,
        if_false] at hRest ⊢
      cases hSlashed : slashedSteps? target with
      | none =>
          simp only [hSlashed] at hRest ⊢
          rw [← List.append_assoc]
          exact ih hRest
      | some steps =>
          simp only [hSlashed] at hRest ⊢
          rw [← List.append_assoc]
          exact ih hRest

theorem lookUp_of_locate
    {fs : FileSystem}
    {ending : Ending}
    {p : Path}
    (hPlace : fs.locate ending p = .ok place) :
    fs.lookUp ending p = .ok place := by
  unfold locate at hPlace
  split at hPlace
  · simp at hPlace
  · exact mapError_eq_ok_iff.mp hPlace

theorem anchor_of_mem_listing
    {fs : FileSystem}
    {real p : Path}
    {found : Listing}
    (hListed : fs.listing real = .ok found)
    (hMember : p ∈ found.paths) :
    p.anchor = real.anchor := by
  rcases listing_eq_ok_iff.mp hListed with ⟨_, _, rfl⟩
  rcases Listing.of_mem_paths hMember with ⟨below, _, rfl⟩
  rfl

/- A path that goes on by names leads below the first part. -/
theorem location_of_lookUp
    {fs : FileSystem}
    {real : Path}
    {above below : Location}
    {node : Node}
    {content : Bytes}
    (hAnchor : real.anchor ≠ .working)
    (hReal : fs.lookUp .target real = .ok ⟨above, some node⟩)
    (hFile : node.at? below = some (.file content))
    (hNamed : ∀ name ∈ below, Step.ofString name = .down name)
    (hPlace :
      fs.lookUp .target ⟨real.anchor, real.parts ++ below⟩ =
        .ok place) :
    place.location = above ++ below := by
  unfold lookUp at hReal hPlace
  rw [start_eq_nil fs hAnchor] at hReal
  rw [start_eq_nil fs (show
    (⟨real.anchor, real.parts ++ below⟩ : Path).anchor ≠
      .working from hAnchor)] at hPlace
  split at hReal
  · simp at hReal
  · split at hPlace
    · simp at hPlace
    · rw [List.map_append] at hPlace
      exact walkLinks_append
        (Q := fun found =>
          ∀ place, found = .ok place →
            place.location = above ++ below)
        (below.map Step.ofString)
        (fun follow place hWalk =>
          walk_names hFile hNamed hWalk)
        linkLimit hReal place hPlace

/-
  The path of a code file leads to a file that is listed
  below the directory.
-/
theorem of_locate_listed
    {fs : FileSystem}
    {real p : Path}
    {found : Listing}
    (hProper : fs.root.Proper)
    (hAnchor : real.anchor ≠ .working)
    (hListed : fs.listing real = .ok found)
    (hMember : p ∈ found.paths)
    (hPlace : fs.locate .target p = .ok place) :
    ∃ directory below,
      fs.locate .target real = .ok directory ∧
        place.location = directory.location ++ below ∧
        Node.IsListed below ∧ fs.HasFile place.location := by
  rcases listing_eq_ok_iff.mp hListed with
    ⟨directory, hList, rfl⟩
  rcases list_eq_ok_iff.mp hList with
    ⟨above, entries, hReal, rfl⟩
  have hStands :=
    (locate_of_grows (Node.Grows.refl fs.root) (Or.inl rfl)
      hAnchor hReal).1
  rcases Listing.of_mem_paths hMember with ⟨below, hBelow, rfl⟩
  rw [Node.filterMap_code?_visits] at hBelow
  have hCode :=
    (hProper.of_at? hStands.node.symm).of_mem_codeFiles hBelow
  rcases hCode.isFile with ⟨content, hFile⟩
  have hLocation :=
    location_of_lookUp hAnchor (lookUp_of_locate hReal) hFile
      hCode.named (lookUp_of_locate hPlace)
  refine ⟨_, below, hReal, hLocation, hCode.isListed, content,
    ?_⟩
  rw [hLocation, Node.at?_append, ← hStands.node,
    Option.bind_some, hFile]

------------------------------------------------------------
-- Writing to Proper Trees
------------------------------------------------------------

/- What may be written leaves a proper tree. -/
theorem proper_of_write
    {fs fs' : FileSystem}
    {p : Path}
    {content : Bytes}
    (hProper : fs.root.Proper)
    (hAnchor : p.anchor ≠ .working)
    (hWrite : fs.write p content = .ok fs') :
    fs'.root.Proper := by
  rcases of_write_eq_ok hWrite with
    ⟨place, hPlace, hNode, rfl⟩
  have hStands :=
    (locate_of_grows (Node.Grows.refl fs.root) (Or.inl rfl)
      hAnchor hPlace).1
  apply hProper.put
  rcases hNode with hNone | ⟨old, hFile⟩
  · exact hStands.room hNone
  · exact Or.inl ⟨old, by rw [← hStands.node, hFile]⟩

end FileSystem

namespace Logger

theorem proper_handlerFiles
    {fs : FileSystem}
    (hProper : fs.root.Proper)
    (r : Record)
    (handler : Handler) :
    (handlerFiles r fs handler).root.Proper := by
  rcases handlerFiles_cases r fs handler with
    hSame | ⟨_, old, _, _, hOld, _, _, hFiles⟩
  · rw [hSame]
    exact hProper
  · rw [hFiles]
    exact hProper.put (Or.inl ⟨old, hOld⟩) _

/- So does what a logger writes. -/
theorem proper_writeFiles
    (l : Logger)
    {fs : FileSystem}
    (hProper : fs.root.Proper)
    (r : Record) :
    (l.writeFiles r fs).root.Proper := by
  have hHandlers :
      ∀ handlers : List Handler,
        (handlers.foldl (handlerFiles r) fs).root.Proper := by
    intro handlers
    induction handlers generalizing fs with
    | nil => exact hProper
    | cons handler handlers ih =>
        exact ih (proper_handlerFiles hProper r handler)
  unfold writeFiles
  split
  · exact hHandlers l.handlers
  · exact hProper

end Logger

end BiomeMigration
