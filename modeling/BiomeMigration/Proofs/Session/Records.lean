import BiomeMigration.Proofs.Files.Outline
import BiomeMigration.Proofs.Files.Touch
import BiomeMigration.Proofs.Session.Ends

/-
  What records do to the files: log files that are held open
  grow at their ends, and nothing else changes.

  Main declarations:
    * `Logger.Receives`
    * `Logger.Kept`
    * `Session.Logged`
    * `Session.Traced`
    * `Session.Traced.exists?_eq`
    * `Session.Traced.read_iff`
    * `Session.Notes`
-/

------------------------------------------------------------
-- Growing Log Files
------------------------------------------------------------

namespace BiomeMigration

namespace Logger

variable {l : Logger} {level : Level} {loc : Location}
variable {fs fs' fs'' : FileSystem}

/-
  A logger writes records of a level to the file at a place,
  which it holds open.
-/
def Receives
    (l : Logger)
    (level : Level)
    (fs : FileSystem)
    (loc : Location) : Prop :=
  l.threshold?.any level.passes = true ∧ l.LogsTo fs loc

/-
  The same is seen at a place as before, unless it is that of
  a log file, to which records have been added at its end.
-/
def Kept
    (l : Logger)
    (level : Level)
    (loc : Location)
    (fs fs' : FileSystem) : Prop :=
  fs'.root.seen? loc = fs.root.seen? loc ∨
    l.Receives level fs loc ∧
      ∃ old more,
        fs.root.at? loc = some (.file old) ∧
          fs'.root.at? loc = some (.file (old ++ more))

theorem receives_congr
    (hOpened : fs'.opened = fs.opened) :
    l.Receives level fs' loc ↔ l.Receives level fs loc := by
  unfold Receives
  rw [l.logsTo_congr hOpened]

theorem Kept.refl
    (l : Logger)
    (level : Level)
    (loc : Location)
    (fs : FileSystem) :
    l.Kept level loc fs fs :=
  Or.inl rfl

theorem Kept.trans
    (hFirst : l.Kept level loc fs fs')
    (hOpened : fs'.opened = fs.opened)
    (hSecond : l.Kept level loc fs' fs'') :
    l.Kept level loc fs fs'' := by
  rcases hFirst with
    hSame | ⟨hReceives, old, more, hFile, hFile'⟩
  · rcases hSecond with
      hSame' | ⟨hReceives, old, more, hFile', hFile''⟩
    · exact Or.inl (hSame'.trans hSame)
    · rw [Node.seen?_eq_file_iff.mpr hFile'] at hSame
      exact Or.inr ⟨(receives_congr hOpened).mp hReceives, old,
        more, Node.seen?_eq_file_iff.mp hSame.symm, hFile''⟩
  · rcases hSecond with
      hSame' | ⟨_, old', more', hOld', hFile''⟩
    · rw [Node.seen?_eq_file_iff.mpr hFile'] at hSame'
      exact Or.inr ⟨hReceives, old, more, hFile,
        Node.seen?_eq_file_iff.mp hSame'⟩
    · rw [hFile'] at hOld'
      rcases Option.some.inj hOld' with ⟨⟩
      rw [List.append_assoc] at hFile''
      exact Or.inr
        ⟨hReceives, old, more ++ more', hFile, hFile''⟩

/- A file that receives no records is as it was. -/
theorem Kept.file
    (hKept : l.Kept level loc fs fs')
    (hUnlogged : ¬ l.Receives level fs loc)
    {content : Bytes}
    (hFile : fs.root.at? loc = some (.file content)) :
    fs'.root.at? loc = some (.file content) := by
  rcases hKept with hSame | ⟨hReceives, _⟩
  · rw [Node.seen?_eq_file_iff.mpr hFile] at hSame
    exact Node.seen?_eq_file_iff.mp hSame
  · exact (hUnlogged hReceives).elim

theorem opened_handlerFiles
    (r : Record)
    (fs : FileSystem)
    (handler : Handler) :
    (handlerFiles r fs handler).opened = fs.opened := by
  rcases handlerFiles_cases r fs handler with
    hSame | ⟨_, _, _, _, _, _, _, hFiles⟩
  · rw [hSame]
  · rw [hFiles]
    rfl

theorem kept_handlerFiles
    {handler : Handler}
    (hHandler : handler ∈ l.handlers)
    {r : Record}
    (hAccepts : l.accepts r = true)
    (loc : Location)
    (fs : FileSystem) :
    l.Kept r.level loc fs (handlerFiles r fs handler) := by
  rcases handlerFiles_cases r fs handler with
    hSame | ⟨other, old, bytes, rfl, hOld, hOpened, _, hFiles⟩
  · rw [hSame]
    exact Kept.refl l _ loc fs
  · rw [hFiles]
    by_cases hHere : loc = other
    · subst hHere
      exact Or.inr
        ⟨⟨hAccepts, hHandler, hOpened⟩, old, _, hOld,
          Node.at?_put_self _ _ _⟩
    · exact Or.inl
        (Node.Room.seen?_put_of_ne (Or.inl ⟨old, hOld⟩) _ hHere)

/- A record changes nothing but log files, at their ends. -/
theorem kept_writeFiles
    (l : Logger)
    (r : Record)
    (loc : Location)
    (fs : FileSystem) :
    l.Kept r.level loc fs (l.writeFiles r fs) ∧
      (l.writeFiles r fs).opened = fs.opened := by
  unfold writeFiles
  split
  · next hAccepts =>
      have hEach :
          ∀ handlers : List Handler,
            (∀ handler ∈ handlers, handler ∈ l.handlers) →
              l.Kept r.level loc fs
                  (handlers.foldl (handlerFiles r) fs) ∧
                (handlers.foldl (handlerFiles r) fs).opened =
                  fs.opened := by
        intro handlers hHandlers
        induction handlers generalizing fs with
        | nil => exact ⟨Kept.refl l _ loc fs, rfl⟩
        | cons handler handlers ih =>
            have hFirst :=
              kept_handlerFiles (hHandlers handler (by simp))
                hAccepts loc fs
            have hOpened := opened_handlerFiles r fs handler
            rcases ih (handlerFiles r fs handler)
                fun other hOther => hHandlers other (by simp [hOther])
              with ⟨hRest, hOpened'⟩
            exact ⟨hFirst.trans hOpened hRest,
              hOpened'.trans hOpened⟩
      exact hEach l.handlers fun _ hHandler => hHandler
  · exact ⟨Kept.refl l _ loc fs, rfl⟩

end Logger

------------------------------------------------------------
-- Records of a Level
------------------------------------------------------------

namespace Session

open FileSystem (Touches)

variable {w w' w'' : World} {p : Path} {level : Level}

/- Nothing has happened to the files but records of a level. -/
structure Logged
    (level : Level)
    (w w' : World) : Prop where
  logger : w'.logger = w.logger
  frame : w'.files = { w.files with root := w'.files.root }
  kept : ∀ loc, w.logger.Kept level loc w.files w'.files

theorem Logged.refl (level : Level) (w : World) :
    Logged level w w where
  logger := rfl
  frame := rfl
  kept loc := Logger.Kept.refl w.logger _ loc w.files

theorem Logged.trans
    (hFirst : Logged level w w')
    (hSecond : Logged level w' w'') :
    Logged level w w'' where
  logger := hSecond.logger.trans hFirst.logger
  frame := by
    rw [hSecond.frame, hFirst.frame]
  kept loc := by
    have hOpened : w'.files.opened = w.files.opened := by
      rw [hFirst.frame]
    have hLater := hSecond.kept loc
    rw [hFirst.logger] at hLater
    exact (hFirst.kept loc).trans hOpened hLater

theorem logged_recorded
    (r : Record)
    (w : World) :
    Logged r.level w (recorded r w) where
  logger := rfl
  frame := (w.logger.touches_writeFiles r w.files).frame
  kept loc := (w.logger.kept_writeFiles r loc w.files).1

theorem Logged.touches
    (hLogged : Logged level w w') :
    Touches (fun _ => True) w.files w'.files := by
  refine ⟨hLogged.frame, fun loc => ?_⟩
  rcases hLogged.kept loc with
    hSame | ⟨_, old, more, hFile, hFile'⟩
  · exact Or.inl hSame
  · exact Or.inr ⟨trivial, ⟨_, hFile⟩, ⟨_, hFile'⟩⟩

------------------------------------------------------------
-- Debug Records
------------------------------------------------------------

/- Nothing has happened to the files but debug records. -/
structure Traced (w w' : World) : Prop where
  logger : w'.logger = w.logger
  frame : w'.files = { w.files with root := w'.files.root }
  kept :
    ∀ loc, w.logger.Kept .debug loc w.files w'.files

theorem traced_iff_logged :
    Traced w w' ↔ Logged .debug w w' :=
  ⟨fun h => ⟨h.logger, h.frame, h.kept⟩,
    fun h => ⟨h.logger, h.frame, h.kept⟩⟩

theorem Traced.refl (w : World) : Traced w w :=
  traced_iff_logged.mpr (Logged.refl _ w)

theorem Traced.trans
    (hFirst : Traced w w')
    (hSecond : Traced w' w'') :
    Traced w w'' :=
  traced_iff_logged.mpr
    ((traced_iff_logged.mp hFirst).trans
      (traced_iff_logged.mp hSecond))

theorem traced_recorded
    (r : Record)
    (hLevel : r.level = .debug)
    (w : World) :
    Traced w (recorded r w) :=
  traced_iff_logged.mpr (hLevel ▸ logged_recorded r w)

theorem Traced.touches
    (hTraced : Traced w w') :
    Touches (fun _ => True) w.files w'.files :=
  (traced_iff_logged.mp hTraced).touches

/- Look-ups find the same as before. -/
theorem Traced.exists?_eq
    (hTraced : Traced w w')
    (hAnchor : p.anchor ≠ .working) :
    w'.files.exists? p = w.files.exists? p :=
  FileSystem.exists?_congr hAnchor hTraced.touches.grows
    hTraced.touches.symm.grows

/- So do readings, unless the file receives the records. -/
theorem Traced.read_iff
    (hTraced : Traced w w')
    (hAnchor : p.anchor ≠ .working)
    (hUnlogged :
      ∀ loc content, w.files.LeadsTo p loc content →
        ¬ w.logger.Receives .debug w.files loc)
    {content : Bytes} :
    w'.files.read p = .ok content ↔
      w.files.read p = .ok content := by
  have hTouches := hTraced.touches
  rw [FileSystem.read_eq_ok_iff, FileSystem.read_eq_ok_iff]
  constructor
  · rintro ⟨loc, hLeads⟩
    rcases hTouches.symm.hasFile ⟨_, hLeads.node hAnchor⟩ with
      ⟨old, hOld⟩
    have hBefore :=
      hLeads.of_grows hAnchor hTouches.symm.grows hOld
    have hKept :=
      (hTraced.kept loc).file (hUnlogged loc old hBefore) hOld
    rw [hLeads.node hAnchor] at hKept
    rcases Option.some.inj hKept with ⟨⟩
    exact ⟨loc, hBefore⟩
  · rintro ⟨loc, hLeads⟩
    exact ⟨loc, hLeads.of_grows hAnchor hTouches.grows
      ((hTraced.kept loc).file (hUnlogged loc content hLeads)
        (hLeads.node hAnchor))⟩

------------------------------------------------------------
-- Operations That Only Log
------------------------------------------------------------

variable {α β : Type} {x : Session α} {a : α} {b : β}

/- An operation has a result and leaves debug records only. -/
def Notes (x : Session α) (w : World) (a : α) : Prop :=
  ∃ w', Ends x w (.ok a) w' ∧ Traced w w'

theorem notes_pure (a : α) (w : World) : Notes (pure a) w a :=
  ⟨w, ends_pure_iff.mpr ⟨rfl, rfl⟩, Traced.refl w⟩

theorem notes_files (w : World) : Notes files w w.files :=
  ⟨w, ends_files w, Traced.refl w⟩

theorem notes_log
    (name : String)
    (message : Text)
    (w : World) :
    Notes (log .debug name message) w () :=
  ⟨_, ends_log _ _ _ w, traced_recorded _ rfl w⟩

theorem Notes.bind
    {f : α → Session β}
    (hFirst : Notes x w a)
    (hRest : ∀ v, Traced w v → Notes (f a) v b) :
    Notes (x >>= f) w b := by
  rcases hFirst with ⟨v, hEnds, hTraced⟩
  rcases hRest v hTraced with ⟨w', hLater, hLast⟩
  exact ⟨w', hEnds.bind hLater, hTraced.trans hLast⟩

theorem notes_log_pure
    (name : String)
    (message : Text)
    (a : α)
    (w : World) :
    Notes
      (do
        log .debug name message
        return a)
      w a :=
  (notes_log name message w).bind fun v _ => notes_pure a v

end Session

end BiomeMigration
