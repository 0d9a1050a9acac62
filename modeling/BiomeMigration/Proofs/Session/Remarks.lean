import BiomeMigration.Proofs.Files.Resolution
import BiomeMigration.Proofs.Package.Unreadable
import BiomeMigration.Proofs.Session.Records

/-
  What debug records about unreadable files do: a log file
  that they are added to holds no JSON object any more, and
  each path has the real path that it had.

  Main declarations:
    * `Record.IsRemark`
    * `FileSystem.Scrawled`
    * `Session.Remarked`
    * `Session.remarked_recorded`
    * `Session.Remarked.resolve_eq`
    * `Session.Remarked.read_of_object`
-/

------------------------------------------------------------
-- Files
------------------------------------------------------------

namespace BiomeMigration

/- A debug record whose message ends as no object does. -/
structure Record.IsRemark (r : Record) : Prop where
  level : r.level = .debug
  causeless : r.cause? = none
  stackless : r.stack? = none
  leavesOpen : Json.leavesOpen r.message.plain = true

namespace FileSystem

variable {fs fs' fs'' : FileSystem} {handler : Handler}
variable {r : Record} {room : Nat} {members : Members}

/-
  A tree is of the size it had, and no file that has changed
  holds a JSON object.
-/
structure Scrawled (fs fs' : FileSystem) : Prop where
  size : fs'.root.size = fs.root.size
  files :
    ∀ loc bytes, fs'.root.at? loc = some (.file bytes) →
      fs.root.at? loc = some (.file bytes) ∨
        ∀ room members,
          Json.ofBytes room bytes ≠ .ok (.object members)

theorem Scrawled.refl (fs : FileSystem) : Scrawled fs fs :=
  ⟨rfl, fun _ _ => Or.inl⟩

theorem Scrawled.trans
    (hFirst : Scrawled fs fs')
    (hSecond : Scrawled fs' fs'') :
    Scrawled fs fs'' := by
  refine ⟨hSecond.size.trans hFirst.size, ?_⟩
  intro loc bytes hFile
  rcases hSecond.files loc bytes hFile with hBefore | hNone
  · exact hFirst.files loc bytes hBefore
  · exact Or.inr hNone

/- Behind the line of a remark, a file holds no object. -/
theorem ofBytes_fileLine_ne
    (hRemark : r.IsRemark)
    {line : Bytes}
    (hLine : r.fileLine.encode = .ok line)
    (old : Bytes) :
    Json.ofBytes room (old ++ line) ≠
      .ok (.object members) := by
  have hPlain :
      r.fileLine.plain =
        (r.level.name ++ " " ++ r.source ++ ": ").toList
          ++ r.message.plain ++ ['\n'] := by
    unfold Record.fileLine Record.line
    rw [hRemark.causeless, hRemark.stackless]
    simp [Record.follow]
  rw [(Text.encode_eq_ok_iff.mp hLine).2, hPlain]
  exact Json.ofBytes_ne_of_leavesOpen
    (Json.leavesOpen_append _ hRemark.leavesOpen) old

theorem scrawled_handlerFiles
    (hRemark : r.IsRemark)
    (fs : FileSystem)
    (handler : Handler) :
    Scrawled fs (Logger.handlerFiles r fs handler) := by
  rcases Logger.handlerFiles_cases r fs handler with
    hSame | ⟨loc, old, line, _, hOld, _, hLine, hFiles⟩
  · rw [hSame]
    exact Scrawled.refl fs
  · rw [hFiles]
    refine ⟨Node.size_put hOld _, ?_⟩
    intro other bytes hFile
    by_cases hHere : other = loc
    · rw [hHere] at hFile
      have hPut :=
        Node.at?_put_self fs.root (.file (old ++ line)) loc
      rcases Option.some.inj (hFile.symm.trans hPut) with ⟨⟩
      exact Or.inr fun _ _ =>
        ofBytes_fileLine_ne hRemark hLine old
    · left
      have hSeen :=
        Node.Room.seen?_put_of_ne (Or.inl ⟨old, hOld⟩)
          (old ++ line) hHere
      rw [← Node.seen?_eq_file_iff] at hFile ⊢
      exact hSeen.symm.trans hFile

theorem scrawled_writeFiles
    (hRemark : r.IsRemark)
    (l : Logger)
    (fs : FileSystem) :
    Scrawled fs (l.writeFiles r fs) := by
  have hEach :
      ∀ handlers : List Handler,
        Scrawled fs
          (handlers.foldl (Logger.handlerFiles r) fs) := by
    intro handlers
    induction handlers generalizing fs with
    | nil => exact Scrawled.refl fs
    | cons handler handlers ih =>
        exact (scrawled_handlerFiles hRemark fs handler).trans
          (ih _)
  unfold Logger.writeFiles
  split
  · exact hEach l.handlers
  · exact Scrawled.refl fs

end FileSystem

------------------------------------------------------------
-- Remarks
------------------------------------------------------------

namespace Session

open FileSystem (Scrawled)

variable {w w' w'' : World} {p : Path}

/- Nothing has happened to the files but remarks. -/
structure Remarked (w w' : World) : Prop where
  traced : Traced w w'
  scrawled : Scrawled w.files w'.files

theorem Remarked.refl (w : World) : Remarked w w :=
  ⟨Traced.refl w, Scrawled.refl w.files⟩

theorem Remarked.trans
    (hFirst : Remarked w w')
    (hSecond : Remarked w' w'') :
    Remarked w w'' :=
  ⟨hFirst.traced.trans hSecond.traced,
    hFirst.scrawled.trans hSecond.scrawled⟩

theorem remarked_recorded
    {r : Record}
    (hRemark : r.IsRemark)
    (w : World) :
    Remarked w (recorded r w) :=
  ⟨traced_recorded r hRemark.level w,
    FileSystem.scrawled_writeFiles hRemark w.logger w.files⟩

/- Each path has the real path that it had. -/
theorem Remarked.resolve_eq
    (hRemarked : Remarked w w')
    (p : Path) :
    w'.files.resolve p = w.files.resolve p := by
  have hTouches := hRemarked.traced.touches
  apply FileSystem.resolve_congr
  · rw [hTouches.frame]
  · exact hRemarked.scrawled.size
  · exact hTouches.grows
  · exact hTouches.symm.grows

/- A file with an object in it is as it was. -/
theorem Remarked.read_of_object
    (hRemarked : Remarked w w')
    (hAnchor : p.anchor ≠ .working)
    {bytes : Bytes}
    {room : Nat}
    {members : Members}
    (hRead : w'.files.read p = .ok bytes)
    (hObject : Json.ofBytes room bytes = .ok (.object members)) :
    w.files.read p = .ok bytes := by
  rw [FileSystem.read_eq_ok_iff] at hRead ⊢
  rcases hRead with ⟨loc, hLeads⟩
  rcases hRemarked.scrawled.files loc bytes (hLeads.node hAnchor)
    with hBefore | hNone
  · exact ⟨loc,
      hLeads.of_grows hAnchor
        hRemarked.traced.touches.symm.grows hBefore⟩
  · exact (hNone room members hObject).elim

end Session

end BiomeMigration
