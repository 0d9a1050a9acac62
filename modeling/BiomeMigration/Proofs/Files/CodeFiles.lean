import Mathlib.Data.List.Nodup
import BiomeMigration.Proofs.Files.Entries

/-
  The list of the code files of a directory: in a tree where
  names are told apart it has each one once and no others,
  in the order of their names.

  Main declarations:
    * `Node.Proper.mem_codeFiles_iff`
    * `Node.Before`
    * `Node.Proper.pairwise_codeFiles`
    * `Node.Proper.nodup_codeFiles`
    * `Node.visits_flat`
    * `Node.codeFiles_flat`
    * `FileSystem.IsCodeFile`
    * `FileSystem.of_codeFiles`
-/

------------------------------------------------------------
-- Listed Places
------------------------------------------------------------

namespace BiomeMigration

open FileSystem (Step)

namespace Node

variable {entries : Entries} {name : String} {child : Node}
variable {root : Node} {loc : Location}

theorem mem_of_find?
    (hFind : find? entries name = some child) :
    (name, child) ∈ entries := by
  induction entries with
  | nil => cases hFind
  | cons e rest ih =>
      rcases e with ⟨other, node⟩
      rw [find?] at hFind
      split at hFind
      · next hName =>
          rcases Option.some.inj hFind with rfl
          subst hName
          exact List.mem_cons_self
      · exact List.mem_cons_of_mem _ (ih hFind)

theorem IsListed.of_cons
    {first : String}
    (hListed : IsListed (name :: first :: loc)) :
    name ∉ CodeFiles.ignored ∧ IsListed (first :: loc) := by
  refine ⟨hListed.kept name (by simp), ?_, fun other hOther => ?_⟩
  · rcases hListed.isCode with ⟨above, last, hLoc, hCode⟩
    cases above with
    | nil => simp at hLoc
    | cons _ above =>
        exact ⟨above, last, (List.cons.inj hLoc).2, hCode⟩
  · apply hListed.kept other
    rw [List.dropLast_cons_of_ne_nil (by simp)]
    exact List.mem_cons_of_mem _ hOther

/- Each code file is listed, with no ignored directory above. -/
theorem mem_codeFiles_of_isListed
    {content : Bytes}
    (hListed : IsListed loc)
    (hFile : root.at? loc = some (.file content)) :
    loc ∈ root.codeFiles := by
  induction loc generalizing root with
  | nil =>
      rcases hListed.isCode with ⟨above, last, hLoc, _⟩
      simp at hLoc
  | cons name rest ih =>
      cases root with
      | file old => simp [at?] at hFile
      | link target => simp [at?] at hFile
      | directory entries =>
          cases hFind : find? entries name with
          | none => simp [at?, hFind] at hFile
          | some child =>
              rw [at?_cons hFind] at hFile
              have hEntry := mem_of_find? hFind
              rw [codeFiles]
              cases rest with
              | nil =>
                  rcases Option.some.inj hFile with rfl
                  rcases hListed.isCode with
                    ⟨above, last, hLoc, hCode⟩
                  have hLast : name = last := by
                    cases above with
                    | nil => exact (List.cons.inj hLoc).1
                    | cons _ above => simp at hLoc
                  subst hLast
                  exact List.mem_append_left _
                    (List.mem_map_of_mem
                      (mem_names.mpr ⟨hCode, _, hEntry⟩))
              | cons first rest =>
                  rcases hListed.of_cons with ⟨hKept, hRest⟩
                  apply List.mem_append_right
                  apply List.mem_flatMap.mpr
                  have hBelow :
                      (name, child.codeFiles.map (name :: ·)) ∈
                        codeFilesBelow entries :=
                    mem_codeFilesBelow.mpr
                      ⟨hKept, child, hEntry, rfl⟩
                  exact ⟨_, List.mem_mergeSort.mpr hBelow,
                    List.mem_map_of_mem (ih hRest hFile)⟩

/- The listed places are those of the code files. -/
theorem Proper.mem_codeFiles_iff
    (hProper : root.Proper) :
    loc ∈ root.codeFiles ↔
      IsListed loc ∧
        ∃ content, root.at? loc = some (.file content) := by
  constructor
  · intro hMember
    have hCode := hProper.of_mem_codeFiles hMember
    exact ⟨hCode.isListed, hCode.isFile⟩
  · rintro ⟨hListed, content, hFile⟩
    exact mem_codeFiles_of_isListed hListed hFile

------------------------------------------------------------
-- Order
------------------------------------------------------------

/-
  The order of the places of files: those of a directory come
  before those of its directories, each in the order of their
  names, and what is below a directory stands together.
-/
inductive Before : Location → Location → Prop where
  | names
      {name name' : String} :
      name < name' → Before [name] [name']
  | above
      {name name' first : String}
      {rest : Location} :
      Before [name] (name' :: first :: rest)
  | apart
      {name name' first first' : String}
      {rest rest' : Location} :
      name < name' →
      Before (name :: first :: rest) (name' :: first' :: rest')
  | within
      {name : String}
      {loc loc' : Location} :
      Before loc loc' → Before (name :: loc) (name :: loc')

theorem Before.ne
    {loc' : Location}
    (hBefore : Before loc loc') :
    loc ≠ loc' := by
  induction hBefore with
  | names hLt =>
      intro hSame
      rw [(List.cons.inj hSame).1] at hLt
      exact String.lt_irrefl _ hLt
  | above => simp
  | apart hLt =>
      intro hSame
      rw [(List.cons.inj hSame).1] at hLt
      exact String.lt_irrefl _ hLt
  | within _ ih => exact fun hSame => ih (List.cons.inj hSame).2

/- Different names in order stand strictly in order. -/
theorem pairwise_lt_of_nodup
    {names : List String}
    (hOrder : names.Pairwise (· ≤ ·))
    (hNodup : names.Nodup) :
    names.Pairwise (· < ·) :=
  (hOrder.and hNodup).imp fun hBoth =>
    Decidable.byContradiction fun hNot =>
      hBoth.2
        (String.le_antisymm hBoth.1 (String.not_lt.mp hNot))

theorem pairwise_names
    (hUnique : (entries.map Prod.fst).Nodup) :
    (CodeFiles.names entries).Pairwise (· < ·) := by
  apply pairwise_lt_of_nodup (CodeFiles.pairwise_byName _)
  unfold CodeFiles.byName
  apply ((List.mergeSort_perm _ _).map Prod.fst).nodup_iff.mpr
  exact hUnique.sublist (List.filter_sublist.map Prod.fst)

/- The directories of a directory, in the order of names. -/
theorem pairwise_codeFilesBelow
    (hUnique : (entries.map Prod.fst).Nodup) :
    (CodeFiles.byName (codeFilesBelow entries)).Pairwise
      fun a b => a.1 < b.1 := by
  apply List.pairwise_map.mp
  apply pairwise_lt_of_nodup (CodeFiles.pairwise_byName _)
  unfold CodeFiles.byName
  apply ((List.mergeSort_perm _ _).map Prod.fst).nodup_iff.mpr
  exact hUnique.sublist (map_fst_codeFilesBelow_sublist entries)

theorem exists_cons_of_mem_codeFiles
    (hMember : loc ∈ root.codeFiles) :
    ∃ first rest, loc = first :: rest := by
  cases root with
  | file content => simp [codeFiles] at hMember
  | link target => simp [codeFiles] at hMember
  | directory entries =>
      rcases mem_codeFiles hMember with
        ⟨name, _, rfl, _⟩ | ⟨name, _, rest, rfl, _⟩
      · exact ⟨name, [], rfl⟩
      · exact ⟨name, rest, rfl⟩

/- The places of a tree are listed in this order. -/
theorem Proper.pairwise_codeFiles
    (hProper : root.Proper) :
    root.codeFiles.Pairwise Before := by
  induction root using partsInduction with
  | file content => exact List.Pairwise.nil
  | link target => exact List.Pairwise.nil
  | directory entries ih =>
      have hUnique := hProper.unique [] entries rfl
      have hBelow :
          ∀ below ∈ CodeFiles.byName (codeFilesBelow entries),
            below.2.Pairwise Before ∧
              ∀ loc ∈ below.2, ∃ first rest,
                loc = below.1 :: first :: rest := by
        intro below hIn
        rcases mem_codeFilesBelow.mp (List.mem_mergeSort.mp hIn)
          with ⟨_, node, hEntry, hPlaces⟩
        have hNode :=
          hProper.of_find? (find?_of_mem hUnique hEntry)
        rw [hPlaces]
        refine ⟨List.pairwise_map.mpr
          ((ih _ hEntry hNode).imp .within), ?_⟩
        intro loc hLoc
        rcases List.mem_map.mp hLoc with ⟨inner, hInner, rfl⟩
        rcases exists_cons_of_mem_codeFiles hInner with
          ⟨first, rest, rfl⟩
        exact ⟨first, rest, rfl⟩
      rw [codeFiles, List.pairwise_append]
      refine ⟨?here, ?below, ?both⟩
      case here =>
        exact List.pairwise_map.mpr
          ((pairwise_names hUnique).imp .names)
      case below =>
        apply List.pairwise_flatMap.mpr
        refine ⟨fun below hIn => (hBelow below hIn).1, ?_⟩
        apply (pairwise_codeFilesBelow hUnique).imp_of_mem
        intro a b ha hb hLt loc hLoc loc' hLoc'
        rcases (hBelow a ha).2 loc hLoc with ⟨_, _, rfl⟩
        rcases (hBelow b hb).2 loc' hLoc' with ⟨_, _, rfl⟩
        exact .apart hLt
      case both =>
        intro here hHere loc hLoc
        rcases List.mem_map.mp hHere with ⟨name, _, rfl⟩
        rcases List.mem_flatMap.mp hLoc with ⟨below, hIn, hLoc⟩
        rcases (hBelow below hIn).2 loc hLoc with ⟨_, _, rfl⟩
        exact .above

/- No place is listed twice. -/
theorem Proper.nodup_codeFiles
    (hProper : root.Proper) :
    root.codeFiles.Nodup :=
  hProper.pairwise_codeFiles.imp Before.ne

------------------------------------------------------------
-- Proper Directories
------------------------------------------------------------

/- What is below an entry of a directory. -/
theorem at?_cons_eq_some_iff
    {rest : Location}
    {node : Node} :
    (directory entries).at? (name :: rest) = some node ↔
      ∃ child,
        find? entries name = some child ∧
          child.at? rest = some node := by
  rw [at?]
  cases find? entries name with
  | none => simp
  | some child => simp

theorem proper_link (target : String) :
    (link target).Proper :=
  proper_of_not_directory rfl

/- A directory of proper trees whose names are told apart. -/
theorem proper_directory
    (hUnique : (entries.map Prod.fst).Nodup)
    (hEach :
      ∀ e ∈ entries,
        e.2.Proper ∧
          (e.2.isDirectory = true →
            Step.ofString e.1 = .down e.1)) :
    (directory entries).Proper := by
  constructor
  · intro loc inner hNode
    cases loc with
    | nil =>
        rcases Option.some.inj hNode with ⟨⟩
        exact hUnique
    | cons name rest =>
        rcases at?_cons_eq_some_iff.mp hNode with
          ⟨child, hFind, hInner⟩
        exact (hEach _ (mem_of_find? hFind)).1.unique rest inner
          hInner
  · intro loc last inner hNode
    cases loc with
    | nil =>
        rcases at?_cons_eq_some_iff.mp hNode with
          ⟨child, hFind, hInner⟩
        rcases Option.some.inj hInner with rfl
        exact (hEach _ (mem_of_find? hFind)).2 rfl
    | cons name rest =>
        rcases at?_cons_eq_some_iff.mp hNode with
          ⟨child, hFind, hInner⟩
        exact (hEach _ (mem_of_find? hFind)).1.named rest last
          inner hInner

------------------------------------------------------------
-- Directories in Order
------------------------------------------------------------

theorem byName_of_pairwise
    {α : Type}
    {items : List (String × α)}
    (hOrder : (items.map Prod.fst).Pairwise (· ≤ ·)) :
    CodeFiles.byName items = items := by
  apply List.mergeSort_of_pairwise
  apply (List.pairwise_map.mp hOrder).imp
  intro a b hLe
  simpa using hLe

/- If its names stand in order, they are met in that order. -/
theorem visits_of_pairwise
    (hOrder : (entries.map Prod.fst).Pairwise (· ≤ ·)) :
    (directory entries).visits =
      .opened [] ::
        (entries.filter (!·.2.isDirectory)).map
            (fun e => .seen [e.1] (CodeFiles.isCode e)) ++
          (visitsBelow entries).flatMap Prod.snd := by
  rw [visits, CodeFiles.looks,
    byName_of_pairwise
      (hOrder.sublist (List.filter_sublist.map Prod.fst)),
    byName_of_pairwise
      (hOrder.sublist (map_fst_visitsBelow_sublist entries))]

------------------------------------------------------------
-- Flat Directories
------------------------------------------------------------

/- A directory that holds nothing but files. -/
def flat (contents : List (String × Bytes)) : Node :=
  .directory (contents.map fun e => (e.1, .file e.2))

variable {contents : List (String × Bytes)}

theorem proper_flat
    (hUnique : (contents.map Prod.fst).Nodup) :
    (flat contents).Proper := by
  apply proper_directory
  · rw [List.map_map]
    exact hUnique
  · intro e hEntry
    rcases List.mem_map.mp hEntry with ⟨_, _, rfl⟩
    exact ⟨proper_file _, by rintro ⟨⟩⟩

theorem visits_flat
    (hOrder : (contents.map Prod.fst).Pairwise (· ≤ ·)) :
    (flat contents).visits =
      .opened [] :: (contents.map Prod.fst).map fun name =>
        .seen [name] (CodeFiles.isCodeName name) := by
  have hFiles :
      (contents.map fun e => (e.1, file e.2)).filter
          (!·.2.isDirectory) =
        contents.map fun e => (e.1, file e.2) := by
    apply List.filter_eq_self.mpr
    intro e hEntry
    rcases List.mem_map.mp hEntry with ⟨_, _, rfl⟩
    rfl
  have hBelow :
      (visitsBelow
          (contents.map fun e => (e.1, file e.2))).flatMap
        Prod.snd = [] := by
    apply List.flatMap_eq_nil_iff.mpr
    intro below hIn
    rcases mem_visitsBelow.mp hIn with
      ⟨_, node, hEntry, hVisits⟩
    rcases List.mem_map.mp hEntry with ⟨e, _, hFile⟩
    rw [hVisits, ← (Prod.mk.inj hFile).2]
    rfl
  unfold flat
  rw [visits_of_pairwise (by rw [List.map_map]; exact hOrder),
    hFiles, hBelow, List.append_nil, List.map_map, List.map_map]
  rfl

/- So they are listed. -/
theorem codeFiles_flat
    (hOrder : (contents.map Prod.fst).Pairwise (· ≤ ·)) :
    (flat contents).codeFiles =
      ((contents.map Prod.fst).filter
        CodeFiles.isCodeName).map ([·]) := by
  rw [← filterMap_code?_visits, visits_flat hOrder,
    List.filterMap_cons]
  generalize contents.map Prod.fst = names
  dsimp only [Visit.code?]
  induction names with
  | nil => rfl
  | cons name names ih =>
      rw [List.map_cons]
      cases hCode : CodeFiles.isCodeName name with
      | false =>
          rw [List.filter_cons_of_neg (by simp [hCode]),
            List.filterMap_cons_none rfl]
          exact ih
      | true =>
          rw [List.filter_cons_of_pos hCode, List.map_cons]
          exact congrArg ([name] :: ·) ih

end Node

------------------------------------------------------------
-- Code Files of a Directory
------------------------------------------------------------

namespace FileSystem

variable {fs fs' : FileSystem} {root real : Path}
variable {paths : List Path}

/-
  A place holds a code file of a project: a file that is
  reached from the real directory of the project through
  directories that are not ignored.
-/
def IsCodeFile
    (fs : FileSystem)
    (root : Path)
    (loc : Location) : Prop :=
  ∃ real above entries below,
    fs.realPath root = .ok real ∧
      fs.locate .target real =
        .ok ⟨above, some (.directory entries)⟩ ∧
      loc = above ++ below ∧
      Node.IsListed below ∧ fs.HasFile loc

theorem IsCodeFile.isCodePlace
    {loc : Location}
    (hCode : fs.IsCodeFile root loc) :
    Node.IsCodePlace loc := by
  rcases hCode with ⟨_, above, _, below, _, _, rfl, hListed, _⟩
  exact hListed.isCode.append above

/- The directory whose code files are listed. -/
theorem of_codeFiles
    (hAnchor : real.anchor ≠ .working)
    (hListed : fs.codeFiles real = .ok paths) :
    ∃ above entries,
      fs.locate .target real =
          .ok ⟨above, some (.directory entries)⟩ ∧
        fs.root.at? above = some (.directory entries) ∧
        paths =
          (Node.directory entries).codeFiles.map fun below =>
            ⟨real.anchor, real.parts ++ below⟩ := by
  rcases codeFiles_eq_ok_iff.mp hListed with
    ⟨directory, hList, _, rfl⟩
  rcases list_eq_ok_iff.mp hList with
    ⟨above, entries, hReal, rfl⟩
  have hStands :=
    (locate_of_grows (Node.Grows.refl fs.root) (Or.inl rfl)
      hAnchor hReal).1
  exact ⟨above, entries, hReal, hStands.node.symm, rfl⟩

/- The code files of a project, by the list of its directory. -/
theorem isCodeFile_iff
    (hProper : fs.root.Proper)
    (hReal : fs.realPath root = .ok real)
    {above : Location}
    {entries : Node.Entries}
    (hPlace :
      fs.locate .target real =
        .ok ⟨above, some (.directory entries)⟩)
    (hDirectory :
      fs.root.at? above = some (.directory entries))
    (loc : Location) :
    fs.IsCodeFile root loc ↔
      ∃ below ∈ (Node.directory entries).codeFiles,
        loc = above ++ below := by
  have hBelow :
      ∀ below,
        fs.root.at? (above ++ below) =
          (Node.directory entries).at? below := by
    intro below
    rw [Node.at?_append, hDirectory, Option.bind_some]
  have hDirectoryProper := hProper.of_at? hDirectory
  constructor
  · rintro ⟨real', above', entries', below, hReal', hPlace', rfl,
      hListed, content, hFile⟩
    rw [hReal] at hReal'
    rcases Except.ok.inj hReal' with rfl
    rw [hPlace] at hPlace'
    rcases Except.ok.inj hPlace' with ⟨⟩
    rw [hBelow] at hFile
    exact ⟨below,
      Node.mem_codeFiles_of_isListed hListed hFile, rfl⟩
  · rintro ⟨below, hMember, rfl⟩
    rcases hDirectoryProper.mem_codeFiles_iff.mp hMember with
      ⟨hListed, content, hFile⟩
    exact ⟨real, above, entries, below, hReal, hPlace, rfl,
      hListed, content, by rw [hBelow, hFile]⟩

/- The path of a code file leads to its place only. -/
theorem location_of_codeFile
    (hProper : fs.root.Proper)
    (hAnchor : real.anchor ≠ .working)
    {above below : Location}
    {entries : Node.Entries}
    (hPlace :
      fs.locate .target real =
        .ok ⟨above, some (.directory entries)⟩)
    (hDirectory :
      fs.root.at? above = some (.directory entries))
    (hMember : below ∈ (Node.directory entries).codeFiles)
    {found : Place}
    (hFound :
      fs.locate .target ⟨real.anchor, real.parts ++ below⟩ =
        .ok found) :
    found.location = above ++ below := by
  have hCode :=
    (hProper.of_at? hDirectory).of_mem_codeFiles hMember
  rcases hCode.isFile with ⟨content, hFile⟩
  exact location_of_lookUp hAnchor (lookUp_of_locate hPlace)
    hFile hCode.named (lookUp_of_locate hFound)

end FileSystem

end BiomeMigration
