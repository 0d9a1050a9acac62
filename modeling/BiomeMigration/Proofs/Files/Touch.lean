import BiomeMigration.Files.Difference
import BiomeMigration.Proofs.Files.Writing

/-
  File systems that differ in the content of the files at
  some places, and in nothing else. What a logger writes
  differs at its open log files only.

  Main declarations:
    * `Node.seen?`
    * `FileSystem.Touches`
    * `FileSystem.writeText_eq`
    * `FileSystem.touches_setFile`
    * `Logger.touches_writeFiles`
-/

------------------------------------------------------------
-- What is Seen at a Place
------------------------------------------------------------

namespace BiomeMigration

open Difference (Leaf)

namespace Node

/- A node without what is below it. -/
def leaf : Node → Leaf
  | .file content => .file content
  | .link target => .link target
  | .directory _ => .directory

/- What is seen at a place of a tree, if anything is there. -/
def seen? (root : Node) (loc : Location) : Option Leaf :=
  (root.at? loc).map leaf

variable {root root' : Node} {loc other : Location}

theorem seen?_eq_none_iff :
    root.seen? loc = none ↔ root.at? loc = none :=
  Option.map_eq_none_iff

theorem seen?_eq_file_iff
    {content : Bytes} :
    root.seen? loc = some (.file content) ↔
      root.at? loc = some (.file content) := by
  unfold seen?
  cases root.at? loc with
  | none => simp
  | some node => cases node <;> simp [leaf]

theorem seen?_eq_link_iff
    {target : String} :
    root.seen? loc = some (.link target) ↔
      root.at? loc = some (.link target) := by
  unfold seen?
  cases root.at? loc with
  | none => simp
  | some node => cases node <;> simp [leaf]

theorem seen?_eq_directory_iff :
    root.seen? loc = some .directory ↔
      ∃ entries, root.at? loc = some (.directory entries) := by
  unfold seen?
  cases root.at? loc with
  | none => simp
  | some node => cases node <;> simp [leaf]

theorem sameKind_of_leaf_eq
    {a b : Node}
    (hLeaf : a.leaf = b.leaf) :
    a.SameKind b := by
  cases a <;> cases b <;> simp_all [leaf, SameKind]

/- Nodes below a directory, by the entry that leads there. -/
theorem seen?_cons
    (entries : Entries)
    (name : String)
    (rest : Location) :
    (directory entries).seen? (name :: rest) =
      (find? entries name).bind (·.seen? rest) := by
  unfold seen?
  rw [at?]
  cases find? entries name <;> rfl

theorem seen?_file_cons
    (content : Bytes)
    (name : String)
    (rest : Location) :
    (file content).seen? (name :: rest) = none :=
  rfl

/- A file that is put where one may be is seen there only. -/
theorem Room.seen?_put_of_ne
    (hRoom : root.Room loc)
    (new : Bytes)
    (hOther : other ≠ loc) :
    (root.put (.file new) loc).seen? other =
      root.seen? other := by
  induction loc generalizing root other with
  | nil =>
      rcases hRoom.nil with ⟨old, rfl⟩
      cases other with
      | nil => exact (hOther rfl).elim
      | cons name rest => rfl
  | cons name rest ih =>
      rcases hRoom.cons with ⟨entries, rfl, hEntry⟩
      cases other with
      | nil => rfl
      | cons first below =>
          rw [put, seen?_cons, seen?_cons, find?_set]
          split
          · next hName =>
              subst hName
              have hBelow : below ≠ rest := by
                rintro rfl
                exact hOther rfl
              rcases hEntry with
                ⟨hNone, rfl⟩ | ⟨child, hFind, hChild⟩
              · rw [hNone, put]
                cases below with
                | nil => exact (hBelow rfl).elim
                | cons second below =>
                    exact seen?_file_cons new second below
              · rw [hFind]
                exact ih hChild hBelow
          · rfl

end Node

------------------------------------------------------------
-- Touched Places
------------------------------------------------------------

namespace FileSystem

/- A place holds a file. -/
def HasFile (fs : FileSystem) (loc : Location) : Prop :=
  ∃ content, fs.root.at? loc = some (.file content)

/-
  File systems that differ in the content of files at some
  places only.
-/
structure Touches
    (places : Location → Prop)
    (fs fs' : FileSystem) : Prop where
  frame : fs' = { fs with root := fs'.root }
  seen :
    ∀ loc,
      fs'.root.seen? loc = fs.root.seen? loc ∨
        (places loc ∧ fs.HasFile loc ∧ fs'.HasFile loc)

variable {fs fs' fs'' : FileSystem} {loc : Location}
variable {places places' : Location → Prop}

theorem Touches.refl
    (places : Location → Prop)
    (fs : FileSystem) :
    Touches places fs fs :=
  ⟨rfl, fun _ => Or.inl rfl⟩

theorem Touches.mono
    (hTouches : Touches places fs fs')
    (hPlaces : ∀ loc, places loc → places' loc) :
    Touches places' fs fs' := by
  refine ⟨hTouches.frame, fun loc => ?_⟩
  rcases hTouches.seen loc with hSame | ⟨hPlace, hFiles⟩
  · exact Or.inl hSame
  · exact Or.inr ⟨hPlaces loc hPlace, hFiles⟩

/- A place is touched in both file systems. -/
theorem Touches.symm
    (hTouches : Touches places fs fs') :
    Touches places fs' fs := by
  refine ⟨?_, fun loc => ?_⟩
  · rw [hTouches.frame]
  · rcases hTouches.seen loc with
      hSame | ⟨hPlace, hFile, hFile'⟩
    · exact Or.inl hSame.symm
    · exact Or.inr ⟨hPlace, hFile', hFile⟩

theorem Touches.hasFile
    (hTouches : Touches places fs fs')
    (hFile : fs.HasFile loc) :
    fs'.HasFile loc := by
  rcases hTouches.seen loc with hSame | ⟨_, _, hFile'⟩
  · rcases hFile with ⟨content, hContent⟩
    rw [Node.seen?_eq_file_iff.mpr hContent] at hSame
    exact ⟨content, Node.seen?_eq_file_iff.mp hSame⟩
  · exact hFile'

theorem Touches.trans
    (hFirst : Touches places fs fs')
    (hSecond : Touches places fs' fs'') :
    Touches places fs fs'' := by
  refine ⟨?_, fun loc => ?_⟩
  · rw [hSecond.frame, hFirst.frame]
  · rcases hFirst.seen loc with
      hSame | ⟨hPlace, hFile, hFile'⟩
    · rcases hSecond.seen loc with
        hSame' | ⟨hPlace, hFile', hFile''⟩
      · exact Or.inl (hSame'.trans hSame)
      · exact Or.inr
          ⟨hPlace, hFirst.symm.hasFile hFile', hFile''⟩
    · exact Or.inr ⟨hPlace, hFile, hSecond.hasFile hFile'⟩

theorem Touches.seen_of_not
    (hTouches : Touches places fs fs')
    (hPlace : ¬ places loc) :
    fs'.root.seen? loc = fs.root.seen? loc := by
  rcases hTouches.seen loc with hSame | ⟨hTouched, _⟩
  · exact hSame
  · exact (hPlace hTouched).elim

theorem Touches.opened
    (hTouches : Touches places fs fs') :
    fs'.opened = fs.opened := by
  rw [hTouches.frame]

theorem Touches.depths
    (hTouches : Touches places fs fs') :
    fs'.depths = fs.depths := by
  rw [hTouches.frame]

/- Look-ups lead where they led. -/
theorem Touches.grows
    (hTouches : Touches places fs fs') :
    fs.root.Grows fs'.root := by
  constructor
  · intro loc node hNode
    rcases hTouches.seen loc with
      hSame | ⟨_, ⟨content, hFile⟩, ⟨content', hFile'⟩⟩
    · have hSeen :
          (fs'.root.at? loc).map Node.leaf = some node.leaf :=
        hSame.trans (congrArg (Option.map Node.leaf) hNode)
      rcases Option.map_eq_some_iff.mp hSeen with
        ⟨node', hNode', hLeaf⟩
      exact ⟨node', hNode',
        Node.sameKind_of_leaf_eq hLeaf.symm⟩
    · rw [hNode] at hFile
      rcases Option.some.inj hFile with rfl
      exact ⟨_, hFile', trivial⟩
  · intro loc target hLink
    rcases hTouches.seen loc with hSame | ⟨_, _, _, hFile'⟩
    · rw [Node.seen?_eq_link_iff.mpr hLink] at hSame
      exact Node.seen?_eq_link_iff.mp hSame.symm
    · rw [hLink] at hFile'
      simp at hFile'

/- A file at an untouched place keeps its content. -/
theorem Touches.file
    (hTouches : Touches places fs fs')
    (hPlace : ¬ places loc)
    {content : Bytes}
    (hFile : fs.root.at? loc = some (.file content)) :
    fs'.root.at? loc = some (.file content) := by
  have hSeen := hTouches.seen_of_not hPlace
  rw [Node.seen?_eq_file_iff.mpr hFile] at hSeen
  exact Node.seen?_eq_file_iff.mp hSeen

theorem Touches.at?_eq_none
    (hTouches : Touches places fs fs')
    (hNone : fs.root.at? loc = none) :
    fs'.root.at? loc = none := by
  rcases hTouches.seen loc with hSame | ⟨_, ⟨content, hFile⟩, _⟩
  · rw [Node.seen?_eq_none_iff.mpr hNone] at hSame
    exact Node.seen?_eq_none_iff.mp hSame
  · rw [hNone] at hFile
    cases hFile

/- A file may be put where one could be put before. -/
theorem Touches.room
    (hTouches : Touches places fs fs')
    (hRoom : fs.root.Room loc) :
    fs'.root.Room loc := by
  rcases hRoom with
    hFile | ⟨hNone, above, name, entries, hLoc, hAbove⟩
  · exact Or.inl (hTouches.hasFile hFile)
  · rcases hTouches.grows.directory hAbove with
      ⟨entries', hAbove'⟩
    exact Or.inr ⟨hTouches.at?_eq_none hNone, above, name,
      entries', hLoc, hAbove'⟩

/- The same file may be put in both file systems. -/
theorem Touches.setFile
    (hTouches : Touches places fs fs')
    (hRoom : fs.root.Room loc)
    (content : Bytes) :
    Touches places (fs.setFile loc content)
      (fs'.setFile loc content) := by
  have hRoom' := hTouches.room hRoom
  have hFile :
      ∀ {fs : FileSystem} {other},
        fs.root.Room loc → other ≠ loc → fs.HasFile other →
          (fs.setFile loc content).HasFile other := by
    rintro fs other hRoom hOther ⟨old, hOld⟩
    exact ⟨old, hRoom.at?_put_of_ne _ hOther hOld⟩
  refine ⟨?_, fun other => ?_⟩
  · rw [hTouches.frame]
    rfl
  · by_cases hOther : other = loc
    · subst hOther
      refine Or.inl ?_
      unfold FileSystem.setFile Node.seen?
      rw [Node.at?_put_self, Node.at?_put_self]
    · rcases hTouches.seen other with
        hSame | ⟨hPlace, hHere, hHere'⟩
      · refine Or.inl ?_
        unfold FileSystem.setFile
        rw [hRoom.seen?_put_of_ne content hOther,
          hRoom'.seen?_put_of_ne content hOther, hSame]
      · exact Or.inr ⟨hPlace, hFile hRoom hOther hHere,
          hFile hRoom' hOther hHere'⟩

/- Text is put into the file that its path is opened at. -/
theorem writeText_eq
    (fs : FileSystem)
    (p : Path)
    (t : Text) :
    fs.writeText p t =
      match fs.openForWriting p with
      | .error fault => (.error (.path fault), fs)
      | .ok (loc, _) =>
          match t.encode with
          | .error fault => (.error (.encoding fault), fs.setFile loc [])
          | .ok bytes => (.ok (), fs.setFile loc bytes) := by
  have hWrite :
      ∀ content,
        fs.write p content =
          (fs.openForWriting p).map
            fun found => fs.setFile found.1 content := by
    intro content
    unfold write
    cases fs.openForWriting p <;> rfl
  unfold writeText
  simp only [hWrite]
  cases fs.openForWriting p with
  | error fault => rfl
  | ok found =>
      rcases found with ⟨loc, old⟩
      cases t.encode <;> rfl

/- What a text leaves is the work of one write, or of none. -/
theorem writeText_files
    (fs : FileSystem)
    (p : Path)
    (t : Text) :
    (fs.writeText p t).2 = fs ∨
      ∃ content, fs.write p content = .ok (fs.writeText p t).2 := by
  have hWrite :
      ∀ {loc old} content,
        fs.openForWriting p = .ok (loc, old) →
          fs.write p content = .ok (fs.setFile loc content) := by
    intro loc old content hOpen
    unfold write
    rw [hOpen]
    rfl
  rw [writeText_eq]
  cases hOpen : fs.openForWriting p with
  | error fault => exact Or.inl rfl
  | ok found =>
      rcases found with ⟨loc, old⟩
      dsimp only
      cases t.encode with
      | error fault => exact Or.inr ⟨[], hWrite [] hOpen⟩
      | ok bytes => exact Or.inr ⟨bytes, hWrite bytes hOpen⟩

/- A text that was written is the content of its file. -/
theorem setFile_of_writeText
    {p : Path}
    {t : Text}
    (hWritten : fs.writeText p t = (.ok (), fs')) :
    ∃ loc old bytes,
      fs.openForWriting p = .ok (loc, old) ∧
        t.encode = .ok bytes ∧ fs' = fs.setFile loc bytes := by
  rw [writeText_eq] at hWritten
  cases hOpen : fs.openForWriting p with
  | error fault =>
      rw [hOpen] at hWritten
      cases hWritten
  | ok found =>
      rcases found with ⟨loc, old⟩
      rw [hOpen] at hWritten
      cases hBytes : t.encode with
      | error fault =>
          rw [hBytes] at hWritten
          cases hWritten
      | ok bytes =>
          rw [hBytes] at hWritten
          exact ⟨loc, old, bytes, rfl, rfl,
            (Prod.mk.inj hWritten).2.symm⟩

/- The content of one file is replaced. -/
theorem touches_setFile
    (hFile : fs.HasFile loc)
    (new : Bytes) :
    Touches (· = loc) fs (fs.setFile loc new) := by
  refine ⟨rfl, fun other => ?_⟩
  by_cases hOther : other = loc
  · refine Or.inr ⟨hOther, hOther ▸ hFile, new, ?_⟩
    rw [hOther]
    exact Node.at?_put_self _ _ _
  · exact Or.inl
      (Node.Room.seen?_put_of_ne (Or.inl hFile) new hOther)

end FileSystem

------------------------------------------------------------
-- Log Files
------------------------------------------------------------

namespace Logger

open FileSystem (Touches)

variable {fs fs' : FileSystem} {places : Location → Prop}

theorem logsTo_congr
    (l : Logger)
    (hOpened : fs'.opened = fs.opened) :
    l.LogsTo fs' = l.LogsTo fs := by
  unfold LogsTo
  rw [hOpened]

theorem logsTo_of_touches
    (l : Logger)
    (hTouches : Touches places fs fs') :
    l.LogsTo fs' = l.LogsTo fs :=
  l.logsTo_congr hTouches.opened

theorem touches_handlerFiles
    {l : Logger}
    {handler : Handler}
    (hHandler : handler ∈ l.handlers)
    (r : Record)
    (fs : FileSystem) :
    Touches (l.LogsTo fs) fs (handlerFiles r fs handler) := by
  rcases handlerFiles_cases r fs handler with
    hSame | ⟨loc, old, bytes, rfl, hOld, hOpened, _, hFiles⟩
  · rw [hSame]
    exact Touches.refl _ fs
  · rw [hFiles]
    apply (FileSystem.touches_setFile ⟨old, hOld⟩ _).mono
    rintro _ rfl
    exact ⟨hHandler, hOpened⟩

theorem touches_foldl_handlerFiles
    {l : Logger}
    {handlers : List Handler}
    (hHandlers : ∀ handler ∈ handlers, handler ∈ l.handlers)
    (r : Record)
    (fs : FileSystem) :
    Touches (l.LogsTo fs) fs
      (handlers.foldl (handlerFiles r) fs) := by
  induction handlers generalizing fs with
  | nil => exact Touches.refl _ fs
  | cons handler handlers ih =>
      have hFirst :=
        touches_handlerFiles (hHandlers handler (by simp)) r fs
      have hRest :=
        ih (fun other hOther => hHandlers other (by simp [hOther]))
          (handlerFiles r fs handler)
      rw [l.logsTo_of_touches hFirst] at hRest
      exact hFirst.trans hRest

/- A record is written to the open log files only. -/
theorem touches_writeFiles
    (l : Logger)
    (r : Record)
    (fs : FileSystem) :
    Touches (l.LogsTo fs) fs (l.writeFiles r fs) := by
  unfold writeFiles
  split
  · exact touches_foldl_handlerFiles (fun _ h => h) r fs
  · exact Touches.refl _ fs

end Logger

end BiomeMigration
