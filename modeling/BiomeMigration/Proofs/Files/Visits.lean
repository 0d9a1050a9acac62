import Mathlib.Data.List.Basic
import Mathlib.Data.List.TakeWhile
import BiomeMigration.Files.CodeFiles
import BiomeMigration.Proofs.Files.LookUp

/-
  The way through a directory and the list of its code files.
  The code files that are met on the way are those of the
  list, in its order, and a way without a fault comes to all
  of them.

  Main declarations:
    * `Node.partsInduction`
    * `Node.mem_visitsBelow`
    * `Node.filterMap_code?_visits`
    * `Listing.of_mem_paths`
    * `FileSystem.listing_eq_ok_iff`
    * `FileSystem.codeFiles_eq_ok_iff`
-/

------------------------------------------------------------
-- Induction
------------------------------------------------------------

namespace BiomeMigration

namespace Node

/- Induction on a tree, by the entries of its directories. -/
theorem partsInduction
    {motive : Node → Prop}
    (file : ∀ content, motive (.file content))
    (directory :
      ∀ entries : Entries, (∀ e ∈ entries, motive e.2) →
        motive (.directory entries))
    (link : ∀ target, motive (.link target))
    (node : Node) : motive node := by
  refine @Node.rec motive
    (fun entries => ∀ e ∈ entries, motive e.2)
    (fun e => motive e.2)
    file directory link ?none ?some ?entry node
  case none => simp
  case some =>
    intro e entries hEntry hEntries d hd
    rcases List.mem_cons.mp hd with rfl | hd
    · exact hEntry
    · exact hEntries d hd
  case entry =>
    intro name node hNode
    exact hNode

end Node

------------------------------------------------------------
-- Order
------------------------------------------------------------

namespace CodeFiles

variable {α : Type}

/- The entries stand in the order of their names. -/
theorem pairwise_byName (entries : List (String × α)) :
    ((byName entries).map Prod.fst).Pairwise (· ≤ ·) := by
  unfold byName
  rw [List.pairwise_map]
  apply (List.pairwise_mergeSort _ _ entries).imp
  · intro a b hLe
    simpa using hLe
  · intro a b c hFirst hSecond
    simp only [decide_eq_true_eq] at *
    exact String.le_trans hFirst hSecond
  · intro a b
    simpa using String.le_total a.1 b.1

/- Sorted names are told by which ones they are. -/
theorem eq_of_perm
    {names names' : List String}
    (hPerm : names.Perm names')
    (hNames : names.Pairwise (· ≤ ·))
    (hNames' : names'.Pairwise (· ≤ ·)) :
    names = names' :=
  hPerm.eq_of_pairwise
    (fun _ _ _ _ hLe hGe => String.le_antisymm hLe hGe)
    hNames hNames'

/- The code files are found among the entries looked at. -/
theorem names_eq (entries : Node.Entries) :
    names entries =
      ((byName (entries.filter (!·.2.isDirectory))).filter
        isCode).map Prod.fst := by
  have hFiles :
      entries.filter isCode =
        (entries.filter (!·.2.isDirectory)).filter isCode := by
    rw [List.filter_filter]
    apply List.filter_congr
    rintro ⟨name, node⟩ _
    cases node <;> simp [isCode, Node.isDirectory]
  have hNames :
      names entries =
        (byName (entries.filter isCode)).map Prod.fst := by
    unfold names
    dsimp only
    congr 2
    apply List.filter_congr
    rintro ⟨name, node⟩ _
    cases node <;> rfl
  rw [hNames]
  apply eq_of_perm
  · apply List.Perm.map
    apply (List.mergeSort_perm _ _).trans
    rw [hFiles]
    exact (List.mergeSort_perm _ _).symm.filter _
  · exact pairwise_byName _
  · exact (pairwise_byName _).sublist
      (List.filter_sublist.map _)

end CodeFiles

------------------------------------------------------------
-- Entries that are not Ignored
------------------------------------------------------------

namespace Node

variable {entries : Entries}

/- The entries of a directory whose names are not ignored. -/
def kept (entries : Entries) : Entries :=
  entries.filter (!CodeFiles.ignored.contains ·.1)

theorem visitsBelow_eq (entries : Entries) :
    visitsBelow entries =
      (kept entries).map fun e =>
        (e.1, e.2.visits.map (.below e.1)) := by
  induction entries with
  | nil => rfl
  | cons e rest ih =>
      rw [visitsBelow, kept, List.filter_cons, ih]
      cases CodeFiles.ignored.contains e.1 <;> rfl

theorem codeFilesBelow_eq (entries : Entries) :
    codeFilesBelow entries =
      (kept entries).map fun e =>
        (e.1, e.2.codeFiles.map (e.1 :: ·)) := by
  induction entries with
  | nil => rfl
  | cons e rest ih =>
      rw [codeFilesBelow, kept, List.filter_cons, ih]
      cases CodeFiles.ignored.contains e.1 <;> rfl

/- What comes of the entries that are not ignored. -/
theorem mem_map_kept
    {α : Type}
    {value : String × Node → α}
    {below : String × α} :
    below ∈ (kept entries).map (fun e => (e.1, value e)) ↔
      below.1 ∉ CodeFiles.ignored ∧
        ∃ node,
          (below.1, node) ∈ entries ∧
            below.2 = value (below.1, node) := by
  constructor
  · intro hIn
    rcases List.mem_map.mp hIn with ⟨e, hKept, rfl⟩
    rcases List.mem_filter.mp hKept with ⟨hEntry, hNot⟩
    exact ⟨by simpa using hNot, e.2, hEntry, rfl⟩
  · rintro ⟨hNot, node, hEntry, hBelow⟩
    apply List.mem_map.mpr
    refine ⟨(below.1, node),
      List.mem_filter.mpr ⟨hEntry, by simpa using hNot⟩, ?_⟩
    rw [← hBelow]

/- The way through a directory that is not ignored. -/
theorem mem_visitsBelow
    {below : String × List Visit} :
    below ∈ visitsBelow entries ↔
      below.1 ∉ CodeFiles.ignored ∧
        ∃ node,
          (below.1, node) ∈ entries ∧
            below.2 = node.visits.map (.below below.1) := by
  rw [visitsBelow_eq, mem_map_kept]

/- The code files of a directory that is not ignored. -/
theorem mem_codeFilesBelow
    {below : String × List Location} :
    below ∈ codeFilesBelow entries ↔
      below.1 ∉ CodeFiles.ignored ∧
        ∃ node,
          (below.1, node) ∈ entries ∧
            below.2 = node.codeFiles.map (below.1 :: ·) := by
  rw [codeFilesBelow_eq, mem_map_kept]

theorem map_fst_visitsBelow_sublist (entries : Entries) :
    ((visitsBelow entries).map Prod.fst).Sublist
      (entries.map Prod.fst) := by
  rw [visitsBelow_eq, List.map_map]
  exact List.filter_sublist.map Prod.fst

theorem map_fst_codeFilesBelow_sublist (entries : Entries) :
    ((codeFilesBelow entries).map Prod.fst).Sublist
      (entries.map Prod.fst) := by
  rw [codeFilesBelow_eq, List.map_map]
  exact List.filter_sublist.map Prod.fst

end Node

------------------------------------------------------------
-- Code Files on the Way
------------------------------------------------------------

namespace Visit

theorem filterMap_code?_below
    (name : String)
    (visits : List Visit) :
    (visits.map (.below name)).filterMap code? =
      (visits.filterMap code?).map (name :: ·) := by
  rw [List.filterMap_map, List.map_filterMap]
  apply List.filterMap_congr
  rintro (loc | ⟨loc, isCode⟩) _
  · rfl
  · cases isCode <;> rfl

theorem filterMap_code?_looks (entries : Node.Entries) :
    (CodeFiles.looks entries).filterMap code? =
      (CodeFiles.names entries).map ([·]) := by
  rw [CodeFiles.names_eq]
  unfold CodeFiles.looks
  dsimp only
  rw [List.filterMap_map, List.map_map]
  generalize CodeFiles.byName _ = others
  induction others with
  | nil => rfl
  | cons entry others ih =>
      cases hCode : CodeFiles.isCode entry <;>
        simp [hCode, code?, ih]

end Visit

namespace Node

theorem filterMap_code?_visitsBelow
    {entries : Entries}
    (hEach :
      ∀ e ∈ entries,
        e.2.visits.filterMap Visit.code? = e.2.codeFiles) :
    (visitsBelow entries).map
        (fun below => (below.1, below.2.filterMap Visit.code?)) =
      codeFilesBelow entries := by
  rw [visitsBelow_eq, codeFilesBelow_eq, List.map_map]
  apply List.map_congr_left
  intro e hKept
  have hCode := hEach e (List.mem_filter.mp hKept).1
  dsimp only [Function.comp_apply]
  rw [Visit.filterMap_code?_below, hCode]

/- The code files on the way are those that are listed. -/
theorem filterMap_code?_visits (node : Node) :
    node.visits.filterMap Visit.code? = node.codeFiles := by
  induction node using partsInduction with
  | file content => rfl
  | link target => rfl
  | directory entries ih =>
      have hSorted :
          (CodeFiles.byName (visitsBelow entries)).map
              (fun below =>
                (below.1, below.2.filterMap Visit.code?)) =
            CodeFiles.byName (codeFilesBelow entries) := by
        unfold CodeFiles.byName
        rw [← filterMap_code?_visitsBelow ih]
        exact List.map_mergeSort fun _ _ _ _ => rfl
      rw [visits, codeFiles, List.cons_append,
        List.filterMap_cons, List.filterMap_append,
        Visit.filterMap_code?_looks, List.filterMap_flatMap,
        ← hSorted, List.flatMap_map]
      rfl

end Node

------------------------------------------------------------
-- Listings
------------------------------------------------------------

namespace Listing

variable {room : Nat} {p q : Path} {visits : List Visit}

/- A path on the way is that of a code file of the list. -/
theorem of_mem_paths
    (hMember : q ∈ (ofVisits room p visits).paths) :
    ∃ loc ∈ visits.filterMap Visit.code?, q = p.below loc := by
  rcases List.mem_filterMap.mp hMember with
    ⟨visit, hVisit, hPath⟩
  rcases Option.map_eq_some_iff.mp hPath with
    ⟨loc, hCode, rfl⟩
  exact ⟨loc,
    List.mem_filterMap.mpr
      ⟨visit, (List.takeWhile_sublist _).mem hVisit, hCode⟩,
    rfl⟩

theorem fault?_ofVisits_eq_none_iff :
    (ofVisits room p visits).fault? = none ↔
      ∀ visit ∈ visits, visit.fault? room p = none :=
  List.findSome?_eq_none_iff

/- A way without a fault comes to all code files. -/
theorem paths_ofVisits
    (hQuiet : ∀ visit ∈ visits, visit.fault? room p = none) :
    (ofVisits room p visits).paths =
      (visits.filterMap Visit.code?).map p.below := by
  have hAll :
      visits.takeWhile
          (fun visit => (visit.fault? room p).isNone) =
        visits :=
    List.takeWhile_eq_self_iff.mpr fun visit hVisit => by
      rw [hQuiet visit hVisit]
      rfl
  unfold ofVisits
  dsimp only
  rw [hAll, List.map_filterMap]

theorem close_eq_ok_iff
    {α : Type}
    {found : Listing}
    {result result' : α} :
    found.close result = .ok result' ↔
      found.fault? = none ∧ result = result' := by
  unfold close
  cases found.fault? <;> simp

end Listing

namespace FileSystem

variable {fs : FileSystem} {p : Path} {paths : List Path}

/- The directory that a path leads to. -/
theorem list_eq_ok_iff
    {directory : Node} :
    fs.list p = .ok directory ↔
      ∃ above entries,
        fs.locate .target p =
            .ok ⟨above, some (.directory entries)⟩ ∧
          directory = .directory entries := by
  unfold list
  rw [bind_eq_ok_iff]
  constructor
  · rintro ⟨⟨above, node?⟩, hPlace, hNode⟩
    cases node? with
    | none => cases hNode
    | some node =>
        cases node with
        | file content => cases hNode
        | link target => cases hNode
        | directory entries =>
            rcases Except.ok.inj hNode with rfl
            exact ⟨above, entries, hPlace, rfl⟩
  · rintro ⟨above, entries, hPlace, rfl⟩
    exact ⟨_, hPlace, rfl⟩

theorem listing_eq_ok_iff
    {found : Listing} :
    fs.listing p = .ok found ↔
      ∃ directory,
        fs.list p = .ok directory ∧
          found =
            .ofVisits fs.depths.directories p
              directory.visits := by
  unfold listing
  rw [bind_eq_ok_iff]
  constructor
  · rintro ⟨directory, hList, hFound⟩
    exact ⟨directory, hList, (Except.ok.inj hFound).symm⟩
  · rintro ⟨directory, hList, rfl⟩
    exact ⟨directory, hList, rfl⟩

/- The code files are listed if the way has no fault. -/
theorem codeFiles_eq_ok_iff :
    fs.codeFiles p = .ok paths ↔
      ∃ directory,
        fs.list p = .ok directory ∧
          (∀ visit ∈ directory.visits,
            visit.fault? fs.depths.directories p = none) ∧
          paths = directory.codeFiles.map p.below := by
  unfold codeFiles
  rw [bind_eq_ok_iff]
  constructor
  · rintro ⟨found, hFound, hClose⟩
    rcases listing_eq_ok_iff.mp hFound with
      ⟨directory, hList, rfl⟩
    rcases Listing.close_eq_ok_iff.mp hClose with ⟨hNone, rfl⟩
    have hQuiet :=
      Listing.fault?_ofVisits_eq_none_iff.mp hNone
    refine ⟨directory, hList, hQuiet, ?_⟩
    rw [Listing.paths_ofVisits hQuiet,
      Node.filterMap_code?_visits]
  · rintro ⟨directory, hList, hQuiet, rfl⟩
    refine ⟨_, listing_eq_ok_iff.mpr ⟨directory, hList, rfl⟩,
      Listing.close_eq_ok_iff.mpr
        ⟨Listing.fault?_ofVisits_eq_none_iff.mpr hQuiet, ?_⟩⟩
    rw [Listing.paths_ofVisits hQuiet,
      Node.filterMap_code?_visits]

/- The listing of the code files has all of them. -/
theorem listing_of_codeFiles
    (hListed : fs.codeFiles p = .ok paths) :
    fs.listing p = .ok ⟨paths, none⟩ := by
  rcases codeFiles_eq_ok_iff.mp hListed with
    ⟨directory, hList, hQuiet, rfl⟩
  apply listing_eq_ok_iff.mpr
  refine ⟨directory, hList, ?_⟩
  rw [← Node.filterMap_code?_visits,
    ← Listing.paths_ofVisits hQuiet,
    ← Listing.fault?_ofVisits_eq_none_iff.mpr hQuiet]

end FileSystem

end BiomeMigration
