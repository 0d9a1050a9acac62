import BiomeMigration.Package.ManifestFile
import BiomeMigration.Proofs.Files.LookUp

/-
  What writing to files and to the log does to the file at a
  place: a text that is written to a path can be read there,
  and all files at other places are spared.

  Main declarations:
    * `FileSystem.LeadsTo`
    * `FileSystem.Spares`
    * `FileSystem.Rewrites`
    * `FileSystem.LeadsTo.rewrites`
    * `FileSystem.spares_of_write`
    * `Logger.spares_writeFiles`
-/

------------------------------------------------------------
-- Files at Places
------------------------------------------------------------

namespace BiomeMigration

namespace FileSystem

/- A path leads to a file with a content. -/
def LeadsTo
    (fs : FileSystem)
    (p : Path)
    (loc : Location)
    (content : Bytes) : Prop :=
  fs.locate .target p = .ok ⟨loc, some (.file content)⟩

variable {fs fs' fs'' : FileSystem} {p : Path}
variable {loc : Location} {content : Bytes}

theorem read_eq_ok_iff :
    fs.read p = .ok content ↔ ∃ loc, fs.LeadsTo p loc content := by
  unfold read LeadsTo
  rw [bind_eq_ok_iff]
  constructor
  · rintro ⟨⟨loc, node?⟩, hPlace, hRead⟩
    cases node? with
    | none => cases hRead
    | some node =>
        cases node with
        | file old =>
            rcases Except.ok.inj hRead with rfl
            exact ⟨loc, hPlace⟩
        | directory entries => cases hRead
        | link target => cases hRead
  · rintro ⟨loc, hPlace⟩
    exact ⟨_, hPlace, rfl⟩

theorem exists?_of_leadsTo
    (hLeads : fs.LeadsTo p loc content) :
    fs.exists? p = .ok true := by
  unfold exists? follow?
  rw [hLeads]
  rfl

/-
  The file at a place is spared when file systems change: it
  keeps its content and stays open or closed, and look-ups
  go on leading where they led.
-/
structure Spares
    (loc : Location)
    (fs fs' : FileSystem) : Prop where
  grows : fs.root.Grows fs'.root
  opened : fs'.opened = fs.opened
  depths : fs'.depths = fs.depths
  node : fs'.root.at? loc = fs.root.at? loc

theorem Spares.refl
    (loc : Location)
    (fs : FileSystem) :
    Spares loc fs fs :=
  ⟨Node.Grows.refl fs.root, rfl, rfl, rfl⟩

theorem Spares.trans
    (hFirst : Spares loc fs fs')
    (hSecond : Spares loc fs' fs'') :
    Spares loc fs fs'' :=
  ⟨hFirst.grows.trans hSecond.grows,
    hSecond.opened.trans hFirst.opened,
    hSecond.depths.trans hFirst.depths,
    hSecond.node.trans hFirst.node⟩

/- Another file may be put somewhere. -/
theorem spares_setFile
    {other : Location}
    (hRoom : fs.root.Room other)
    (hOther : loc ≠ other)
    (hFile : fs.root.at? loc = some (.file content))
    (new : Bytes) :
    Spares loc fs (fs.setFile other new) := by
  refine ⟨hRoom.grows_put new, rfl, rfl, ?_⟩
  rw [hFile]
  exact hRoom.at?_put_of_ne _ hOther hFile

/- A path to a file of the tree leads there by its place. -/
theorem LeadsTo.node_of_begins
    (hLeads : fs.LeadsTo p loc content)
    (hBegins : fs.Begins p) :
    fs.root.at? loc = some (.file content) := by
  have hStands :=
    (locate_of_begins (Node.Grows.refl fs.root) (Or.inl rfl)
      hBegins rfl hLeads).1
  exact hStands.node.symm

theorem LeadsTo.node
    (hLeads : fs.LeadsTo p loc content)
    (hAnchor : p.anchor ≠ .working) :
    fs.root.at? loc = some (.file content) :=
  hLeads.node_of_begins (begins_of_anchor fs hAnchor)

/- A path goes on leading to the file of a place. -/
theorem LeadsTo.of_begins
    (hLeads : fs.LeadsTo p loc content)
    (hBegins : fs.Begins p)
    (hGrows : fs.root.Grows fs'.root)
    (hStart : fs'.start p = fs.start p)
    {new : Bytes}
    (hNode : fs'.root.at? loc = some (.file new)) :
    fs'.LeadsTo p loc new := by
  have hFound :=
    (locate_of_begins hGrows (Or.inl rfl) hBegins hStart
      hLeads).2
  unfold LeadsTo
  rw [hFound, hNode]

theorem LeadsTo.of_grows
    (hLeads : fs.LeadsTo p loc content)
    (hAnchor : p.anchor ≠ .working)
    (hGrows : fs.root.Grows fs'.root)
    {new : Bytes}
    (hNode : fs'.root.at? loc = some (.file new)) :
    fs'.LeadsTo p loc new :=
  hLeads.of_begins (begins_of_anchor fs hAnchor) hGrows
    (start_congr fs fs' hAnchor) hNode

theorem LeadsTo.of_spares
    (hLeads : fs.LeadsTo p loc content)
    (hAnchor : p.anchor ≠ .working)
    (hSpares : Spares loc fs fs') :
    fs'.LeadsTo p loc content := by
  apply hLeads.of_grows hAnchor hSpares.grows
  rw [hSpares.node]
  exact hLeads.node hAnchor

------------------------------------------------------------
-- Writing
------------------------------------------------------------

variable {t : Text}

/-
  A path can be written to if it leads to a file, or only
  its last name is missing.
-/
theorem of_write_eq_ok
    (hWrite : fs.write p content = .ok fs') :
    ∃ place,
      fs.locate .newFile p = .ok place ∧
        (place.node? = none ∨
          ∃ old, place.node? = some (.file old)) ∧
        fs' = fs.setFile place.location content := by
  rcases bind_eq_ok_iff.mp hWrite with
    ⟨⟨loc, old⟩, hOpen, hSet⟩
  rcases bind_eq_ok_iff.mp hOpen with
    ⟨⟨place, node?⟩, hPlace, hOpened⟩
  refine ⟨_, hPlace, ?_⟩
  cases node? with
  | none =>
      rcases Except.ok.inj hOpened with ⟨⟩
      exact ⟨Or.inl rfl, (Except.ok.inj hSet).symm⟩
  | some node =>
      cases node with
      | file content =>
          rcases Except.ok.inj hOpened with ⟨⟩
          exact ⟨Or.inr ⟨old, rfl⟩,
            (Except.ok.inj hSet).symm⟩
      | directory entries => cases hOpened
      | link target => cases hOpened

/-
  A path leads to a file with a content that has been put
  there, and nothing else has changed.
-/
structure Rewrites
    (fs : FileSystem)
    (p : Path)
    (loc : Location)
    (content : Bytes)
    (fs' : FileSystem) : Prop where
  leads : fs'.LeadsTo p loc content
  grows : fs.root.Grows fs'.root
  opened : fs'.opened = fs.opened
  depths : fs'.depths = fs.depths
  others :
    ∀ other old, other ≠ loc →
      fs.root.at? other = some (.file old) →
        fs'.root.at? other = some (.file old)

theorem rewrites_of_begins
    (hBegins : fs.Begins p)
    (hWrite : fs.write p content = .ok fs') :
    ∃ place,
      fs.locate .newFile p = .ok place ∧
        fs.Rewrites p place.location content fs' := by
  rcases of_write_eq_ok hWrite with
    ⟨place, hPlace, hNode, rfl⟩
  have hStands :=
    (locate_of_begins (Node.Grows.refl fs.root) (Or.inl rfl)
      hBegins rfl hPlace).1
  have hRoom : fs.root.Room place.location := by
    rcases hNode with hNone | ⟨old, hFile⟩
    · exact hStands.room hNone
    · left
      exact ⟨old, by rw [← hStands.node, hFile]⟩
  have hGrows := hRoom.grows_put content
  have hStart :
      (fs.setFile place.location content).start p =
        fs.start p := rfl
  refine ⟨place, hPlace, ?_, hGrows, rfl, rfl, ?_⟩
  · have hFound :
        (fs.setFile place.location content).locate .target p =
          .ok ⟨place.location,
            (fs.root.put (.file content) place.location).at?
              place.location⟩ :=
      (locate_of_begins hGrows (Or.inr ⟨rfl, rfl⟩) hBegins
        hStart hPlace).2
    unfold LeadsTo
    rw [hFound, Node.at?_put_self]
  · intro other old hOther hFile
    exact hRoom.at?_put_of_ne _ hOther hFile

theorem rewrites_of_write
    (hAnchor : p.anchor ≠ .working)
    (hWrite : fs.write p content = .ok fs') :
    ∃ place,
      fs.locate .newFile p = .ok place ∧
        fs.Rewrites p place.location content fs' :=
  rewrites_of_begins (begins_of_anchor fs hAnchor) hWrite

/- A text that was written to a path is there. -/
theorem rewrites_of_writeText
    (hAnchor : p.anchor ≠ .working)
    (hWritten : fs.writeText p t = (.ok (), fs')) :
    ∃ place bytes,
      fs.locate .newFile p = .ok place ∧
        t.encode = .ok bytes ∧
        fs.Rewrites p place.location bytes fs' := by
  unfold writeText at hWritten
  split at hWritten
  · simp at hWritten
  · split at hWritten
    · simp at hWritten
    · next bytes hBytes =>
        split at hWritten
        · simp at hWritten
        · next written hWrite =>
            rcases Prod.mk.inj hWritten with ⟨_, rfl⟩
            rcases rewrites_of_write hAnchor hWrite with
              ⟨place, hPlace, hRewrites⟩
            exact ⟨place, bytes, hPlace, hBytes, hRewrites⟩

/- The place at which a path is opened for writing. -/
theorem locate_of_openForWriting
    {old : Bytes}
    (hOpen : fs.openForWriting p = .ok (loc, old)) :
    ∃ node?, fs.locate .newFile p = .ok ⟨loc, node?⟩ := by
  rcases bind_eq_ok_iff.mp hOpen with
    ⟨⟨place, node?⟩, hPlace, hOpened⟩
  refine ⟨node?, ?_⟩
  rw [hPlace]
  cases node? with
  | none =>
      rcases Except.ok.inj hOpened with ⟨⟩
      rfl
  | some node =>
      cases node with
      | file content =>
          rcases Except.ok.inj hOpened with ⟨⟩
          rfl
      | directory entries => cases hOpened
      | link target => cases hOpened

/- A path that leads to a file is opened there. -/
theorem LeadsTo.openForWriting
    (hLeads : fs.LeadsTo p loc content)
    (hAnchor : p.anchor ≠ .working)
    {other : Location}
    {old : Bytes}
    (hOpen : fs.openForWriting p = .ok (other, old)) :
    other = loc := by
  rcases locate_of_openForWriting hOpen with ⟨node?, hPlace⟩
  have hFound :=
    (locate_of_grows (Node.Grows.refl fs.root)
      (Or.inr ⟨rfl, rfl⟩) hAnchor hPlace).2
  unfold LeadsTo at hLeads
  rw [hFound] at hLeads
  exact congrArg Place.location (Except.ok.inj hLeads)

/- A path that leads to a file is written to there. -/
theorem LeadsTo.rewrites
    (hLeads : fs.LeadsTo p loc content)
    (hAnchor : p.anchor ≠ .working)
    (hWritten : fs.writeText p t = (.ok (), fs')) :
    ∃ bytes,
      t.encode = .ok bytes ∧ fs.Rewrites p loc bytes fs' := by
  rcases rewrites_of_writeText hAnchor hWritten with
    ⟨place, bytes, hPlace, hBytes, hRewrites⟩
  have hFound :=
    (locate_of_grows (Node.Grows.refl fs.root)
      (Or.inr ⟨rfl, rfl⟩) hAnchor hPlace).2
  have hSame : place.location = loc := by
    unfold LeadsTo at hLeads
    rw [hFound] at hLeads
    exact congrArg Place.location (Except.ok.inj hLeads)
  rw [hSame] at hRewrites
  exact ⟨bytes, hBytes, hRewrites⟩

/-
  The files of a tree are spared when something is written
  to a path that leads nowhere.
-/
theorem spares_of_write
    (hAnchor : p.anchor ≠ .working)
    (hMissing : fs.exists? p = .ok false)
    (hFile : fs.root.at? loc = some (.file content))
    {new : Bytes}
    (hWrite : fs.write p new = .ok fs') :
    Spares loc fs fs' := by
  rcases rewrites_of_write hAnchor hWrite with
    ⟨place, hPlace, hRewrites⟩
  have hFound :=
    (locate_of_grows (Node.Grows.refl fs.root)
      (Or.inr ⟨rfl, rfl⟩) hAnchor hPlace).2
  refine ⟨hRewrites.grows, hRewrites.opened,
    hRewrites.depths, ?_⟩
  rw [hFile]
  apply hRewrites.others loc content _ hFile
  rintro rfl
  unfold exists? follow? at hMissing
  rw [hFound, hFile] at hMissing
  simp [Except.map] at hMissing

theorem spares_of_not_exists
    (hAnchor : p.anchor ≠ .working)
    (hMissing : fs.exists? p = .ok false)
    (hFile : fs.root.at? loc = some (.file content))
    (hWritten : fs.writeText p t = (.ok (), fs')) :
    Spares loc fs fs' := by
  unfold writeText at hWritten
  split at hWritten
  · simp at hWritten
  · split at hWritten
    · simp at hWritten
    · split at hWritten
      · simp at hWritten
      · next written hWrite =>
          rcases Prod.mk.inj hWritten with ⟨_, rfl⟩
          exact spares_of_write hAnchor hMissing hFile hWrite

------------------------------------------------------------
-- Log Files
------------------------------------------------------------

end FileSystem

/- A logger writes to the file at a place, which is open. -/
def Logger.LogsTo
    (l : Logger)
    (fs : FileSystem)
    (loc : Location) : Prop :=
  Handler.file loc ∈ l.handlers ∧ loc ∈ fs.opened

namespace Logger

open FileSystem

variable {l : Logger} {fs : FileSystem} {loc : Location}
variable {content : Bytes}

theorem spares_handlerFiles
    (hFile : fs.root.at? loc = some (.file content))
    {handler : Handler}
    (hHandler : handler = .file loc → loc ∉ fs.opened)
    (r : Record) :
    Spares loc fs (handlerFiles r fs handler) := by
  rcases handlerFiles_cases r fs handler with
    hSame | ⟨other, old, bytes, rfl, hOld, hOpened, _, hFiles⟩
  · rw [hSame]
    exact Spares.refl loc fs
  · rw [hFiles]
    apply spares_setFile (Or.inl ⟨old, hOld⟩) _ hFile
    rintro rfl
    exact hHandler rfl hOpened

theorem spares_foldl_handlerFiles
    {handlers : List Handler}
    (hFile : fs.root.at? loc = some (.file content))
    (hHandlers :
      ∀ handler ∈ handlers,
        handler = .file loc → loc ∉ fs.opened)
    (r : Record) :
    Spares loc fs (handlers.foldl (handlerFiles r) fs) := by
  induction handlers generalizing fs with
  | nil => exact Spares.refl loc fs
  | cons handler handlers ih =>
      have hFirst :=
        spares_handlerFiles hFile (hHandlers handler (by simp)) r
      rw [List.foldl_cons]
      apply hFirst.trans
      apply ih
      · rw [hFirst.node]
        exact hFile
      · intro other hOther
        rw [hFirst.opened]
        exact hHandlers other (by simp [hOther])

/- A record is not written to a file that is no log file. -/
theorem spares_writeFiles
    (hFile : fs.root.at? loc = some (.file content))
    (hLogs : ¬ l.LogsTo fs loc)
    (r : Record) :
    Spares loc fs (l.writeFiles r fs) := by
  unfold writeFiles
  split
  · apply spares_foldl_handlerFiles hFile
    rintro handler hHandler rfl hOpened
    exact hLogs ⟨hHandler, hOpened⟩
  · exact Spares.refl loc fs

end Logger

end BiomeMigration
