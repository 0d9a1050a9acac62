import BiomeMigration.Proofs.Files.Way

/-
  The listing of the code files of a directory is exact. If
  no path on the way is too long and no directory too deep,
  each file with the suffix of a code file is listed once, in
  order, that is reached through directories which are no
  links and not ignored, and nothing else is. If there are
  such paths or directories, the first of them is the fault.
  The order in which directories list their entries makes no
  difference.

  Main declarations:
    * `Node.Bounded`
    * `Visit.Exceeds`
    * `Node.FailsWith`
    * `Node.Yields`
    * `FileSystem.ListsExactly`
    * `FileSystem.codeFiles_exact`
    * `FileSystem.not_always_listed`
-/

namespace BiomeMigration

namespace Node

------------------------------------------------------------
-- Limits
------------------------------------------------------------

/-
  No directory on the way is too deep, and no path on the way
  is too long.
-/
structure Bounded
    (room : Nat)
    (p : Path)
    (root : Node) : Prop where
  shallow : ∀ loc, root.Opens loc → loc.length ≤ room
  opened :
    ∀ loc, root.Opens loc →
      (p.openedText loc).utf8ByteSize ≤ FileSystem.pathLimit
  looks :
    ∀ loc, root.LooksAt loc →
      (p.below loc).text.utf8ByteSize ≤ FileSystem.pathLimit

end Node

namespace Visit

variable {room : Nat} {p : Path} {loc : Location} {isCode : Bool}
variable {visit : Visit} {fault : PathFault}

/-
  A step is beyond the limits: its directory is too deep, or
  else its path is too long, and this is the fault.
-/
inductive Exceeds
    (room : Nat)
    (p : Path) : Visit → PathFault → Prop where
  | deep
      {loc : Location} :
      room < loc.length → Exceeds room p (.opened loc) .tooDeep
  | opened
      {loc : Location} :
      loc.length ≤ room →
        FileSystem.pathLimit <
            (p.openedText loc).utf8ByteSize →
          Exceeds room p (.opened loc)
            (.refused .nameTooLong (p.openedText loc))
  | seen
      {loc : Location}
      {isCode : Bool} :
      FileSystem.pathLimit < (p.below loc).text.utf8ByteSize →
        Exceeds room p (.seen loc isCode)
          (.refused .nameTooLong (p.below loc).text)

theorem textFault?_eq_some_iff
    {text : String} :
    textFault? text = some fault ↔
      FileSystem.pathLimit < text.utf8ByteSize ∧
        fault = .refused .nameTooLong text := by
  unfold textFault?
  split
  · next hLong => simp [hLong, eq_comm]
  · next hShort => simp [hShort]

theorem fault?_eq_some_iff :
    visit.fault? room p = some fault ↔
      visit.Exceeds room p fault := by
  cases visit with
  | opened loc =>
      rw [fault?]
      split
      · next hDeep =>
          constructor
          · rintro ⟨⟩
            exact .deep hDeep
          · rintro (_ | ⟨hShallow, _⟩)
            · rfl
            · omega
      · next hShallow =>
          rw [textFault?_eq_some_iff]
          constructor
          · rintro ⟨hLong, rfl⟩
            exact .opened (Nat.not_lt.mp hShallow) hLong
          · rintro (hDeep | ⟨_, hLong⟩)
            · exact (hShallow hDeep).elim
            · exact ⟨hLong, rfl⟩
  | seen loc isCode =>
      rw [fault?, textFault?_eq_some_iff]
      constructor
      · rintro ⟨hLong, rfl⟩
        exact .seen hLong
      · intro hExceeds
        cases hExceeds with
        | seen hLong => exact ⟨hLong, rfl⟩

theorem fault?_eq_none_iff :
    visit.fault? room p = none ↔
      ∀ fault, ¬ visit.Exceeds room p fault := by
  simp only [Option.eq_none_iff_forall_ne_some, ne_eq,
    fault?_eq_some_iff]

theorem textFault?_eq_none_iff
    {text : String} :
    textFault? text = none ↔
      text.utf8ByteSize ≤ FileSystem.pathLimit := by
  unfold textFault?
  split
  · next hLong => simpa using hLong
  · next hShort => simpa using hShort

theorem fault?_opened_eq_none_iff :
    (opened loc).fault? room p = none ↔
      loc.length ≤ room ∧
        (p.openedText loc).utf8ByteSize ≤
          FileSystem.pathLimit := by
  rw [fault?, ← textFault?_eq_none_iff]
  split
  · next hDeep =>
      simpa using fun hShallow => absurd hDeep (by omega)
  · next hShallow => simpa using fun _ => Nat.not_lt.mp hShallow

theorem fault?_seen_eq_none_iff :
    (seen loc isCode).fault? room p = none ↔
      (p.below loc).text.utf8ByteSize ≤ FileSystem.pathLimit :=
  textFault?_eq_none_iff

end Visit

namespace Node

variable {room : Nat} {root : Node} {p : Path} {loc : Location}

/- The way has no fault if it is within the limits. -/
theorem Proper.quiet_iff
    (hProper : root.Proper) :
    (∀ visit ∈ root.visits, visit.fault? room p = none) ↔
      root.Bounded room p := by
  constructor
  · intro hQuiet
    have hOpened :
        ∀ loc, root.Opens loc →
          loc.length ≤ room ∧
            (p.openedText loc).utf8ByteSize ≤
              FileSystem.pathLimit := by
      intro loc hOpens
      exact Visit.fault?_opened_eq_none_iff.mp
        (hQuiet _ (hProper.opened_mem_visits_iff.mpr hOpens))
    refine ⟨fun loc hOpens => (hOpened loc hOpens).1,
      fun loc hOpens => (hOpened loc hOpens).2, ?_⟩
    intro loc hLooks
    rcases hProper.seen_mem_visits_iff.mpr hLooks with
      ⟨isCode, hIn⟩
    exact Visit.fault?_seen_eq_none_iff.mp (hQuiet _ hIn)
  · intro hBounded visit hIn
    cases visit with
    | opened loc =>
        have hOpens := hProper.opened_mem_visits_iff.mp hIn
        exact Visit.fault?_opened_eq_none_iff.mpr
          ⟨hBounded.shallow loc hOpens,
            hBounded.opened loc hOpens⟩
    | seen loc isCode =>
        have hLooks :=
          hProper.seen_mem_visits_iff.mp ⟨isCode, hIn⟩
        exact Visit.fault?_seen_eq_none_iff.mpr
          (hBounded.looks loc hLooks)

/- A step is taken on the way. -/
def Takes (root : Node) : Visit → Prop
  | .opened loc => root.Opens loc
  | .seen loc _ => root.LooksAt loc

/-
  The first step of the way that is beyond the limits gives
  this fault.
-/
def FailsWith
    (room : Nat)
    (p : Path)
    (root : Node)
    (fault : PathFault) : Prop :=
  ∃ visit,
    root.Takes visit ∧
      visit.Exceeds room p fault ∧
      ∀ other, root.Takes other → other.Ahead visit →
        ∀ fault', ¬ other.Exceeds room p fault'

/-
  A step that is taken is one of the way, but for what it
  tells of the entry.
-/
theorem Proper.exists_mem_of_takes
    (hProper : root.Proper)
    {visit : Visit}
    (hTakes : root.Takes visit) :
    ∃ same ∈ root.visits,
      same.directory = visit.directory ∧
        same.name? = visit.name? ∧
        same.fault? room p = visit.fault? room p := by
  cases visit with
  | opened loc =>
      exact ⟨_, hProper.opened_mem_visits_iff.mpr hTakes, rfl,
        rfl, rfl⟩
  | seen loc isCode =>
      rcases hProper.seen_mem_visits_iff.mpr hTakes with
        ⟨isCode', hIn⟩
      exact ⟨_, hIn, rfl, rfl, rfl⟩

theorem Proper.takes_of_mem
    (hProper : root.Proper)
    {visit : Visit}
    (hIn : visit ∈ root.visits) :
    root.Takes visit := by
  cases visit with
  | opened loc => exact hProper.opened_mem_visits_iff.mp hIn
  | seen loc isCode =>
      exact hProper.seen_mem_visits_iff.mp ⟨isCode, hIn⟩

/- The fault of the way is that of its first faulty step. -/
theorem Proper.fault?_eq_some_iff
    (hProper : root.Proper)
    {fault : PathFault} :
    (Listing.ofVisits room p root.visits).fault? = some fault ↔
      root.FailsWith room p fault := by
  rw [Listing.fault?_eq_some_iff hProper.pairwise_visits]
  constructor
  · rintro ⟨visit, hIn, hFault, hQuiet⟩
    refine ⟨visit, hProper.takes_of_mem hIn,
      Visit.fault?_eq_some_iff.mp hFault, ?_⟩
    intro other hTakes hAhead
    rcases hProper.exists_mem_of_takes hTakes with
      ⟨same, hSame, hDirectory, hName, hFaults⟩
    have hAhead' : same.Ahead visit := by
      unfold Visit.Ahead
      rw [hDirectory, hName]
      exact hAhead
    apply Visit.fault?_eq_none_iff.mp
    rw [← hFaults]
    exact hQuiet same hSame hAhead'
  · rintro ⟨visit, hTakes, hExceeds, hQuiet⟩
    rcases hProper.exists_mem_of_takes hTakes with
      ⟨same, hIn, hDirectory, hName, hFaults⟩
    refine ⟨same, hIn, ?_, ?_⟩
    · rw [hFaults]
      exact Visit.fault?_eq_some_iff.mpr hExceeds
    · intro other hOther hAhead
      have hAhead' : other.Ahead visit := by
        unfold Visit.Ahead
        rw [← hDirectory, ← hName]
        exact hAhead
      exact Visit.fault?_eq_none_iff.mpr
        (hQuiet other (hProper.takes_of_mem hOther) hAhead')

------------------------------------------------------------
-- Exact Lists
------------------------------------------------------------

/-
  A file is to be listed: it is a file of its own and has the
  suffix of a code file, and each directory above it is one
  of its own whose name is not ignored. The name of the first
  directory is not looked at.
-/
structure Yields (root : Node) (loc : Location) : Prop where
  file : ∃ content, root.at? loc = some (.file content)
  code : IsCodePlace loc
  real :
    ∀ above, above <+: loc → above ≠ loc →
      ∃ entries, root.at? above = some (.directory entries)
  kept : ∀ name ∈ loc.dropLast, name ∉ CodeFiles.ignored

/- What is above a file is a directory, and no link. -/
theorem directory_above_file
    {content : Bytes}
    (hFile : root.at? loc = some (.file content))
    {above : Location}
    (hAbove : above <+: loc)
    (hNe : above ≠ loc) :
    ∃ entries, root.at? above = some (.directory entries) := by
  rcases hAbove with ⟨rest, rfl⟩
  rw [at?_append] at hFile
  rcases Option.bind_eq_some_iff.mp hFile with
    ⟨node, hNode, hBelow⟩
  cases rest with
  | nil => simp at hNe
  | cons name rest =>
      cases node with
      | directory entries => exact ⟨entries, hNode⟩
      | file old => cases hBelow
      | link target => cases hBelow

theorem Proper.yields_iff
    (hProper : root.Proper) :
    loc ∈ root.codeFiles ↔ root.Yields loc := by
  rw [hProper.mem_codeFiles_iff]
  constructor
  · rintro ⟨hListed, content, hFile⟩
    exact ⟨⟨content, hFile⟩, hListed.isCode,
      fun _ => directory_above_file hFile, hListed.kept⟩
  · intro hYields
    exact ⟨⟨hYields.code, hYields.kept⟩, hYields.file⟩

end Node

theorem Path.below_injective (p : Path) :
    Function.Injective p.below := by
  intro loc loc' hSame
  exact List.append_cancel_left (congrArg Path.parts hSame)

namespace FileSystem

/-
  A list of paths has the code files of a directory, each one
  once, in order, and nothing else.
-/
structure ListsExactly
    (p : Path)
    (directory : Node)
    (paths : List Path) : Prop where
  once : paths.Nodup
  mem :
    ∀ q, q ∈ paths ↔ ∃ loc, directory.Yields loc ∧ q = p.below loc
  order :
    ∃ locs : List Location,
      paths = locs.map p.below ∧ locs.Pairwise Node.Before

variable {fs : FileSystem} {p : Path} {directory : Node}

theorem listsExactly_codeFiles
    (hProper : directory.Proper)
    (p : Path) :
    ListsExactly p directory
      (directory.codeFiles.map p.below) where
  once := hProper.nodup_codeFiles.map p.below_injective
  mem q := by
    simp only [List.mem_map, hProper.yields_iff]
    exact exists_congr fun loc => and_congr_right' eq_comm
  order := ⟨_, rfl, hProper.pairwise_codeFiles⟩

/- The listing of a directory that is there fails on the way. -/
theorem codeFiles_eq_error_iff
    {fault : PathFault}
    (hList : fs.list p = .ok directory)
    (hProper : directory.Proper) :
    fs.codeFiles p = .error fault ↔
      directory.FailsWith fs.depths.directories p fault := by
  rw [← hProper.fault?_eq_some_iff]
  have hFound :
      fs.listing p =
        .ok
          (.ofVisits fs.depths.directories p directory.visits) :=
    listing_eq_ok_iff.mpr ⟨directory, hList, rfl⟩
  unfold codeFiles
  rw [hFound]
  show Listing.close _ _ = _ ↔ _
  unfold Listing.close
  cases (Listing.ofVisits fs.depths.directories p
    directory.visits).fault? <;> simp

/-
  The code files of a directory are listed if and only if the
  way through it is within the limits, and then exactly. If it
  is not, the first step beyond the limits gives the fault.
  What comes of the listing is the same in any order in which
  the directories list their entries.
-/
theorem codeFiles_exact
    (hList : fs.list p = .ok directory)
    (hProper : directory.Proper) :
    ((∃ paths, fs.codeFiles p = .ok paths) ↔
        directory.Bounded fs.depths.directories p) ∧
      (∀ paths, fs.codeFiles p = .ok paths →
        ListsExactly p directory paths) ∧
      (∀ fault, fs.codeFiles p = .error fault ↔
        directory.FailsWith fs.depths.directories p fault) ∧
      ∀ (fs' : FileSystem) (directory' : Node),
        fs'.list p = .ok directory' → directory'.Proper →
          directory.Alike directory' →
            fs'.depths.directories = fs.depths.directories →
              fs'.codeFiles p = fs.codeFiles p := by
  refine ⟨?limits, ?exact,
    fun _ => codeFiles_eq_error_iff hList hProper, ?order⟩
  case limits =>
    rw [← hProper.quiet_iff]
    constructor
    · rintro ⟨paths, hPaths⟩
      rcases codeFiles_eq_ok_iff.mp hPaths with
        ⟨found, hFound, hQuiet, _⟩
      rw [hList] at hFound
      rw [Except.ok.inj hFound]
      exact hQuiet
    · intro hQuiet
      exact ⟨_, codeFiles_eq_ok_iff.mpr
        ⟨directory, hList, hQuiet, rfl⟩⟩
  case exact =>
    intro paths hPaths
    rcases codeFiles_eq_ok_iff.mp hPaths with
      ⟨found, hFound, _, rfl⟩
    rw [hList] at hFound
    rw [← Except.ok.inj hFound]
    exact listsExactly_codeFiles hProper p
  case order =>
    intro fs' directory' hList' hProper' hAlike hDepth
    unfold codeFiles listing
    rw [hList, hList', hDepth]
    exact congrArg
      (fun visits =>
        (Listing.ofVisits fs.depths.directories p visits).close
          (Listing.ofVisits fs.depths.directories p
            visits).paths)
      (hAlike.visits_eq hProper hProper')

------------------------------------------------------------
-- A Directory with Links
------------------------------------------------------------

/- A directory with a file and a link in it. -/
def linkedSource : Node :=
  .directory [("q.vue", .file []), ("up.js", .link "../b.js")]

/-
  Entries with a link to the directory itself, a link to a
  file, a directory with the name of a file and two that are
  ignored.
-/
def linkedEntries : Node.Entries :=
  [("B.js", .file []), ("a.js", linkedSource),
    ("b.js", .file []), ("dist", .flat []),
    ("loop", .link "."), ("node_modules", .flat [("x.js", [])]),
    ("notes.md", .file []), ("z.ts", .link "b.js")]

/- Entries in a directory whose own name is an ignored one. -/
def inBuild (entries : Node.Entries) : FileSystem where
  root := .directory [("build", .directory entries)]
  working := []
  home := .top
  homes := []
  opened := []

theorem proper_of_perm_linkedEntries
    {entries : Node.Entries}
    (hPerm : entries.Perm linkedEntries) :
    (Node.directory entries).Proper := by
  have hSource : linkedSource.Proper := by
    apply Node.proper_directory (by decide)
    simp [Node.proper_file, Node.proper_link, Node.isDirectory]
  have hPackages : (Node.flat [("x.js", [])]).Proper :=
    Node.proper_flat (by decide)
  have hEmpty : (Node.flat []).Proper :=
    Node.proper_flat (by decide)
  have hNamed :
      ∀ e ∈ linkedEntries,
        FileSystem.Step.ofString e.1 = .down e.1 := by
    decide +kernel
  apply Node.proper_directory
  · exact (hPerm.map Prod.fst).nodup_iff.mpr (by decide)
  · intro e hEntry
    have hMember := hPerm.mem_iff.mp hEntry
    refine ⟨?_, fun _ => hNamed e hMember⟩
    simp only [linkedEntries, List.mem_cons, List.not_mem_nil,
      or_false] at hMember
    rcases hMember with
      rfl | rfl | rfl | rfl | rfl | rfl | rfl | rfl <;>
      simp only [Node.proper_file, Node.proper_link, hSource,
        hPackages, hEmpty]

/- The steps of the way, the ignored directories left out. -/
theorem visits_linkedEntries :
    (Node.directory linkedEntries).visits =
      [.opened [], .seen ["B.js"] true, .seen ["b.js"] true,
        .seen ["loop"] false, .seen ["notes.md"] false,
        .seen ["z.ts"] false, .opened ["a.js"],
        .seen ["a.js", "q.vue"] true,
        .seen ["a.js", "up.js"] false] := by
  have hSource :
      linkedSource.visits =
        [.opened [], .seen ["q.vue"] true,
          .seen ["up.js"] false] := by
    unfold linkedSource
    rw [Node.visits_of_pairwise (by decide +kernel)]
    rfl
  have hBelow :
      Node.visitsBelow linkedEntries =
        [("B.js", []),
          ("a.js", linkedSource.visits.map (.below "a.js")),
          ("b.js", []), ("loop", []), ("notes.md", []),
          ("z.ts", [])] := by
    rfl
  rw [Node.visits_of_pairwise (by decide +kernel), hBelow,
    hSource]
  rfl

/- The code files of the directory. -/
theorem codeFiles_linkedEntries :
    (inBuild linkedEntries).codeFiles ⟨.root, ["build"]⟩ =
      .ok
        [⟨.root, ["build", "B.js"]⟩, ⟨.root, ["build", "b.js"]⟩,
          ⟨.root, ["build", "a.js", "q.vue"]⟩] := by
  apply codeFiles_eq_ok_iff.mpr
  refine ⟨.directory linkedEntries, rfl, ?_, ?_⟩
  · rw [visits_linkedEntries]
    decide +kernel
  · rw [← Node.filterMap_code?_visits, visits_linkedEntries]
    rfl

theorem codeFiles_exact_linkedEntries :
    let p : Path := ⟨.root, ["build"]⟩
    let directory := Node.directory linkedEntries
    let fs := inBuild linkedEntries
    let fs' := inBuild linkedEntries.reverse
    fs.list p = .ok directory ∧
      directory.Proper ∧
      directory.Bounded fs.depths.directories p ∧
      ListsExactly p directory
        [⟨.root, ["build", "B.js"]⟩, ⟨.root, ["build", "b.js"]⟩,
          ⟨.root, ["build", "a.js", "q.vue"]⟩] ∧
      fs'.codeFiles p = fs.codeFiles p := by
  intro p directory fs fs'
  have hReversed : linkedEntries.reverse.Perm linkedEntries :=
    List.reverse_perm linkedEntries
  have hProper : directory.Proper :=
    proper_of_perm_linkedEntries (.refl _)
  have hList : fs.list p = .ok directory := rfl
  rcases codeFiles_exact hList hProper with
    ⟨hLimits, hExact, _, hOrder⟩
  exact ⟨hList, hProper,
    hLimits.mp ⟨_, codeFiles_linkedEntries⟩,
    hExact _ codeFiles_linkedEntries,
    hOrder fs' _ rfl (proper_of_perm_linkedEntries hReversed)
      (Node.alike_of_perm (hProper.unique [] linkedEntries rfl)
        hReversed) rfl⟩

------------------------------------------------------------
-- A Path too Long
------------------------------------------------------------

/- A name of the greatest length, and a file name. -/
def longName : String :=
  String.ofList (List.replicate 255 'd')

def longFile : String :=
  String.ofList (List.replicate 252 'f' ++ ['.', 'j', 's'])

/- A directory of one file, both with long names. -/
def longFiles : FileSystem where
  root := .directory [(longName, .flat [(longFile, [])])]
  working := []
  home := .top
  homes := []
  opened := []

/- A path into the directory, out of it and in again. -/
def longPath : Path :=
  ⟨.working,
    (List.replicate 14 [longName, ".."]).flatten ++ [longName]⟩

/- A look-up has found a directory of one empty file. -/
def holdsOne
    (found : Except Problem Place)
    (name : String) : Bool :=
  match found with
  | .ok ⟨_, some (.directory [(other, .file [])])⟩ =>
      other == name
  | _ => false

theorem list_longPath :
    longFiles.list longPath = .ok (.flat [(longFile, [])]) := by
  have hName : longName.toList.contains '\x00' = false := by
    unfold longName
    rw [String.toList_ofList, List.contains_eq_mem,
      decide_eq_false_iff_not, List.mem_replicate]
    decide
  have hNul : longPath.hasNul = false := by
    apply List.any_eq_false.mpr
    intro part hPart
    rcases List.mem_append.mp hPart with hRound | hLast
    · rcases List.mem_flatten.mp hRound with ⟨round, hIn, hPart⟩
      rw [List.eq_of_mem_replicate hIn] at hPart
      rcases List.mem_pair.mp hPart with rfl | rfl
      · rw [hName]
        exact Bool.false_ne_true
      · decide
    · rw [List.mem_singleton.mp hLast, hName]
      exact Bool.false_ne_true
  have hFound :
      holdsOne (longFiles.lookUp .target longPath) longFile =
        true := by
    decide +kernel
  unfold holdsOne at hFound
  split at hFound
  · next above other hLookUp =>
      rw [eq_of_beq hFound] at hLookUp
      apply list_eq_ok_iff.mpr
      refine ⟨above, [(longFile, .file [])], ?_, rfl⟩
      unfold locate
      rw [if_neg (by simp [hNul]), hLookUp]
      rfl
  · cases hFound

/-
  Not every directory can be listed: the path of a file in it
  may be too long to be looked at.
-/
theorem not_always_listed :
    ¬ ∀ (fs : FileSystem) (p : Path) (directory : Node),
      fs.list p = .ok directory → directory.Proper →
        ∃ paths,
          fs.codeFiles p = .ok paths ∧
            ListsExactly p directory paths := by
  intro hAll
  rcases hAll longFiles longPath _ list_longPath
      (Node.proper_flat (by simp)) with
    ⟨paths, hPaths, _⟩
  rcases codeFiles_eq_ok_iff.mp hPaths with
    ⟨directory, hList, hQuiet, _⟩
  rw [list_longPath] at hList
  rw [← Except.ok.inj hList,
    Node.visits_flat (List.pairwise_singleton _ _)] at hQuiet
  have hShort :=
    Visit.fault?_seen_eq_none_iff.mp
      (hQuiet (.seen [longFile] (CodeFiles.isCodeName longFile))
        (by simp))
  have hLong :
      pathLimit <
        (longPath.below [longFile]).text.utf8ByteSize := by
    decide +kernel
  exact Nat.not_le.mpr hLong hShort

end FileSystem

end BiomeMigration
