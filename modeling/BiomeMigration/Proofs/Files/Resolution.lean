import BiomeMigration.Proofs.Files.Outline

/-
  Real paths in two trees that differ in the contents of
  files only: a path has the same one in both.

  Main declarations:
    * `Node.size_put`
    * `FileSystem.realPieces_congr`
    * `FileSystem.resolve_congr`
-/

------------------------------------------------------------
-- Sizes
------------------------------------------------------------

namespace BiomeMigration

namespace Node

theorem sizeEntries_set
    {entries : Entries}
    {name : String}
    {old new : Node}
    (hOld : find? entries name = some old)
    (hSize : new.size = old.size) :
    sizeEntries (set entries name new) = sizeEntries entries := by
  induction entries with
  | nil => cases hOld
  | cons entry rest ih =>
      rcases entry with ⟨n, node⟩
      unfold find? at hOld
      unfold set
      split at hOld
      · rcases Option.some.inj hOld with rfl
        rw [if_pos ‹_›]
        simp [sizeEntries, hSize]
      · rw [if_neg ‹_›]
        simp [sizeEntries, ih hOld]

/- A file put in the place of a file keeps the size of a tree. -/
theorem size_put
    {root : Node}
    {loc : Location}
    {old : Bytes}
    (hFile : root.at? loc = some (.file old))
    (content : Bytes) :
    (root.put (.file content) loc).size = root.size := by
  induction loc generalizing root with
  | nil =>
      rcases Option.some.inj hFile with rfl
      rfl
  | cons name rest ih =>
      cases root with
      | directory entries =>
          rw [at?] at hFile
          cases hChild : find? entries name with
          | none =>
              rw [hChild] at hFile
              cases hFile
          | some child =>
              rw [hChild] at hFile
              have hSize := sizeEntries_set hChild (ih hFile)
              simp only [put, hChild, Option.getD_some, size, hSize]
      | file content => cases hFile
      | link target => cases hFile

end Node

------------------------------------------------------------
-- Real Paths
------------------------------------------------------------

namespace FileSystem

variable {fs fs' : FileSystem}

theorem absolute_congr
    (hWorking : fs'.working = fs.working)
    (p : Path) :
    fs'.absolute p = fs.absolute p := by
  unfold absolute start
  rw [hWorking]

/- The same pieces are links in both trees. -/
theorem realWalk_congr
    (hWorking : fs'.working = fs.working)
    (hGrows : fs.root.Grows fs'.root)
    (hBack : fs'.root.Grows fs.root)
    (active : List Path)
    (deeper :
      List Path → Path → List String → Except Path Path)
    (p : Path)
    (pieces : List String) :
    realWalk fs' active deeper p pieces =
      realWalk fs active deeper p pieces := by
  induction pieces generalizing p with
  | nil => rfl
  | cons piece rest ih =>
      unfold realWalk
      cases Step.ofString piece with
      | here => exact ih p
      | up => exact ih (stepUp p)
      | down name =>
          dsimp only
          rw [absolute_congr hWorking]
          cases hNode :
              fs.root.at?
                (fs.absolute ⟨p.anchor, p.parts ++ [name]⟩).parts
            with
          | none =>
              rw [at?_eq_none_of_grows hBack hNode]
              exact ih _
          | some node =>
              cases node with
              | file content =>
                  rcases file_of_grows hGrows hNode with
                    ⟨content', hNode'⟩
                  rw [hNode']
                  exact ih _
              | directory entries =>
                  rcases hGrows.directory hNode with
                    ⟨entries', hNode'⟩
                  rw [hNode']
                  exact ih _
              | link target =>
                  rw [hGrows.tracks.link hNode]
                  simp only [ih]

theorem realPieces_congr
    (hWorking : fs'.working = fs.working)
    (hGrows : fs.root.Grows fs'.root)
    (hBack : fs'.root.Grows fs.root)
    (depth : Nat) :
    realPieces fs' depth = realPieces fs depth := by
  induction depth with
  | zero => rfl
  | succ depth ih =>
      funext active p pieces
      rw [realPieces, realPieces, ih]
      exact realWalk_congr hWorking hGrows hBack active _ p pieces

/- Links lead in a circle from a path in both trees or neither. -/
theorem linkLoop_congr
    (hGrows : fs.root.Grows fs'.root)
    (hBack : fs'.root.Grows fs.root)
    {p : Path}
    (hAnchor : p.anchor ≠ .working) :
    (match fs'.lookUp .target p with
      | .error .tooManyLinks =>
          Except.error (PathFault.linkLoop p.text)
      | _ => .ok p) =
      match fs.lookUp .target p with
      | .error .tooManyLinks =>
          Except.error (PathFault.linkLoop p.text)
      | _ => .ok p := by
  have hSame :
      outline (fs.lookUp .target p) =
        outline (fs'.lookUp .target p) :=
    outline_lookUp hAnchor hGrows hBack
  rcases of_outline_eq hSame with
    ⟨_, _, _, hHere, hThere, _⟩ | ⟨_, hHere, hThere⟩
  · rw [hHere, hThere]
  · rw [hHere, hThere]

/- A path has the same real path in both trees. -/
theorem resolve_congr
    (hWorking : fs'.working = fs.working)
    (hSize : fs'.root.size = fs.root.size)
    (hGrows : fs.root.Grows fs'.root)
    (hBack : fs'.root.Grows fs.root)
    (p : Path) :
    fs'.resolve p = fs.resolve p := by
  have hDepth : fs'.realDepth = fs.realDepth := by
    unfold realDepth
    rw [hSize, hWorking]
  have hAbsolute : fs'.absolute = fs.absolute :=
    funext (absolute_congr hWorking)
  unfold resolve
  rw [hDepth, hAbsolute, realPieces_congr hWorking hGrows hBack]
  dsimp only
  generalize fs.realPieces fs.realDepth [] _ p.parts = found
  split
  · rfl
  · cases found with
    | ok q => exact linkLoop_congr hGrows hBack (absolute_anchor fs q)
    | error q =>
        exact linkLoop_congr hGrows hBack (absolute_anchor fs q)

end FileSystem

end BiomeMigration
