import BiomeMigration.Proofs.Files.Entries
import BiomeMigration.Proofs.Migration.Protocol
import BiomeMigration.Proofs.Session.Ensures

/-
  Scrubbing changes the content of listed code files, and
  nothing else but open log files is touched on the way.

  Main declarations:
    * `Logger.Scrubbed`
    * `Scrub.Writable`
    * `Scrub.below_of_writable`
    * `Migration.progress_of_scrub`
-/

------------------------------------------------------------
-- Scrubbed Files
------------------------------------------------------------

namespace BiomeMigration

open FileSystem (Touches)

namespace Logger

variable {l : Logger} {places : Location → Prop}
variable {fs fs' fs'' : FileSystem}

/-
  File systems that differ by what a logger writes, and in
  the files at some places.
-/
def Scrubbed
    (l : Logger)
    (places : Location → Prop)
    (fs fs' : FileSystem) : Prop :=
  Touches (fun loc => l.LogsTo fs loc ∨ places loc) fs fs'

theorem Logged.scrubbed
    (hLogged : l.Logged fs fs') :
    l.Scrubbed places fs fs' :=
  Touches.mono hLogged fun _ => Or.inl

theorem Scrubbed.trans
    (hFirst : l.Scrubbed places fs fs')
    (hSecond : l.Scrubbed places fs' fs'') :
    l.Scrubbed places fs fs'' := by
  unfold Scrubbed at hSecond
  rw [l.logsTo_of_touches hFirst] at hSecond
  exact Touches.trans hFirst hSecond

end Logger

namespace Scrub

open Session

------------------------------------------------------------
-- Listed Files
------------------------------------------------------------

variable {fs : FileSystem} {root : Path} {loc : Location}

/- A listed code file of a project is at a place. -/
def Writable
    (fs : FileSystem)
    (root : Path)
    (loc : Location) : Prop :=
  ∃ real found p node?,
    fs.realPath root = .ok real ∧
      fs.listing real = .ok found ∧
      p ∈ found.paths ∧ fs.locate .target p = .ok ⟨loc, node?⟩

theorem of_writable
    (hProper : fs.root.Proper)
    (hWritable : Writable fs root loc) :
    ∃ real directory below,
      fs.realPath root = .ok real ∧
        fs.locate .target real = .ok directory ∧
        loc = directory.location ++ below ∧
        Node.IsListed below ∧ fs.HasFile loc := by
  rcases hWritable with
    ⟨real, found, p, node?, hReal, hListed, hMember, hPlace⟩
  rcases FileSystem.of_locate_listed hProper
      (FileSystem.realPath_anchor hReal) hListed hMember
      hPlace with
    ⟨directory, below, hDirectory, hLocation, hBelow, hFile⟩
  exact ⟨real, directory, below, hReal, hDirectory, hLocation,
    hBelow, hFile⟩

theorem isCodePlace_of_writable
    (hProper : fs.root.Proper)
    (hWritable : Writable fs root loc) :
    Node.IsCodePlace loc := by
  rcases of_writable hProper hWritable with
    ⟨_, directory, below, _, _, hLocation, hBelow, _⟩
  rw [hLocation]
  exact hBelow.isCode.append directory.location

/- The files of a real directory are below it. -/
theorem below_of_writable
    (hProper : fs.root.Proper)
    (hRoot : root.anchor = .root)
    (hReal : fs.IsReal root)
    (hWritable : Writable fs root loc) :
    ∃ below, loc = root.parts ++ below ∧ Node.IsListed below := by
  rcases of_writable hProper hWritable with
    ⟨real, directory, below, hFound, hDirectory, hLocation,
      hBelow, _⟩
  have hResolve : fs.resolve root = .ok real := by
    unfold FileSystem.realPath FileSystem.expandHome at hFound
    rw [hRoot] at hFound
    exact hFound
  rw [hReal.resolve_eq hRoot hResolve] at hDirectory
  rw [FileSystem.location_of_locate_real hReal hDirectory]
    at hLocation
  exact ⟨below, hLocation, hBelow⟩

------------------------------------------------------------
-- Scrubbing
------------------------------------------------------------

variable {places : Location → Prop} {w w' : World}

/-
  Since the code files were listed, only log files and files
  at some places have been written to.
-/
structure Progress
    (places : Location → Prop)
    (w v : World) : Prop where
  logger : v.logger = w.logger
  proper : v.files.root.Proper
  files : w.logger.Scrubbed places w.files v.files

theorem Progress.refl
    (hProper : w.files.root.Proper) :
    Progress places w w :=
  ⟨rfl, hProper, Touches.refl _ _⟩

theorem Progress.trans
    {v : World}
    (hFirst : Progress places w v)
    (hSecond : Progress places v w') :
    Progress places w w' where
  logger := hSecond.logger.trans hFirst.logger
  proper := hSecond.proper
  files := by
    apply hFirst.files.trans
    rw [← hFirst.logger]
    exact hSecond.files

theorem lasting_progress
    (places : Location → Prop)
    (w : World) :
    Lasting (Progress places w) where
  record r v hProgress :=
    { logger := hProgress.logger
      proper := v.logger.proper_writeFiles hProgress.proper r
      files := by
        apply hProgress.files.trans
        rw [← hProgress.logger]
        exact Logger.Logged.scrubbed
          (v.logger.touches_writeFiles r v.files) }
  echo _ _ hProgress :=
    ⟨hProgress.logger, hProgress.proper, hProgress.files⟩

/- A listed code file is written to. -/
theorem Progress.of_write
    {real p : Path}
    {found : Listing}
    (hProper : w.files.root.Proper)
    (hPlaces : ∀ loc, Writable w.files root loc → places loc)
    (hReal : w.files.realPath root = .ok real)
    (hListed : w.files.listing real = .ok found)
    (hMember : p ∈ found.paths)
    {v : World}
    (hProgress : Progress places w v)
    {content : Bytes}
    {fs : FileSystem}
    (hWrite : v.files.write p content = .ok fs) :
    Progress places w { v with files := fs } := by
  have hStart : p.anchor ≠ .working := by
    rw [FileSystem.anchor_of_mem_listing hListed hMember]
    exact FileSystem.realPath_anchor hReal
  have hProper' :=
    FileSystem.proper_of_write hProgress.proper hStart hWrite
  rcases FileSystem.of_write_eq_ok hWrite with
    ⟨place, hPlace, _, rfl⟩
  -- The tree has kept its form, so the path leads where it led.
  have hListedAt :=
    (FileSystem.locate_of_grows hProgress.files.symm.grows
      (Or.inr ⟨rfl, rfl⟩) hStart hPlace).2
  have hWritable : Writable w.files root place.location :=
    ⟨real, found, p, _, hReal, hListed, hMember, hListedAt⟩
  rcases of_writable hProper hWritable with
    ⟨_, _, _, _, _, _, _, hFile⟩
  refine ⟨hProgress.logger, hProper', ?_⟩
  apply Touches.trans hProgress.files
  apply (FileSystem.touches_setFile
    (hProgress.files.hasFile hFile) content).mono
  rintro _ rfl
  exact Or.inr (hPlaces place.location hWritable)

/- The code files that are listed are scrubbed in turn. -/
theorem progress_of_mapM
    {rules : List Directive.Rule}
    {real : Path}
    {found : Listing}
    (hProper : w.files.root.Proper)
    (hPlaces : ∀ loc, Writable w.files root loc → places loc)
    (hReal : w.files.realPath root = .ok real)
    (hListed : w.files.listing real = .ok found)
    {result : Except Failure (List (Path × Nat))}
    (hEnds :
      Ends
        (found.paths.mapM fun p => do
          let removed ← file rules p
          return (p, removed))
        w result w') :
    Progress places w w' := by
  have hSteady := (lasting_progress places w).steady
  have hEach :
      ∀ p ∈ found.paths,
        Keeps
          (fun v v' => Progress places w v → Progress places w v')
          (do
            let removed ← file rules p
            return (p, removed)) := by
    intro p hMember
    apply (Scrub.keeps_file hSteady _ rules).bind hSteady
    · intro removed
      exact keeps_pure hSteady _
    · intro v content fs hWrite hProgress
      exact hProgress.of_write hProper hPlaces hReal hListed
        hMember hWrite
  exact (keeps_mapM hSteady hEach w result w' hEnds).1
    (Progress.refl hProper)

/-
  However it ends, scrubbing touches only log files and
  listed code files.
-/
theorem progress_of_tree
    (hProper : w.files.root.Proper)
    (hPlaces : ∀ loc, Writable w.files root loc → places loc)
    {rules : List Directive.Rule}
    {result : Except Failure Report}
    (hEnds : Ends (tree rules root) w result w') :
    Progress places w w' := by
  have hHere : Progress places w w := Progress.refl hProper
  unfold tree at hEnds
  rcases ends_bind_iff.mp hEnds with
    ⟨failure, hFailed, _⟩ | ⟨real, v₁, hReal, hRest₁⟩
  · rw [(ends_ofFiles_error hFailed).2]
    exact hHere
  rcases ends_ofFiles_iff.mp hReal with ⟨hFound, rfl⟩
  have hRealPath := mapError_eq_ok_iff.mp hFound.symm
  rcases ends_bind_iff.mp hRest₁ with
    ⟨failure, hFailed, _⟩ | ⟨isDirectory, v₂, hIs, hRest₂⟩
  · rw [(ends_ofFiles_error hFailed).2]
    exact hHere
  rcases ends_ofFiles_iff.mp hIs with ⟨_, rfl⟩
  dsimp only at hRest₂
  split at hRest₂
  · rcases ends_bind_iff.mp hRest₂ with
      ⟨failure, hThrown, _⟩ | ⟨_, _, hThrown, _⟩
    · rw [(ends_throw_iff.mp hThrown).2]
      exact hHere
    · have hResult := (ends_throw_iff.mp hThrown).1
      cases hResult
  · rcases ends_bind_iff.mp hRest₂ with
      ⟨failure, hFailed, _⟩ | ⟨found, v₃, hFound, hRest₃⟩
    · rw [(ends_ofFiles_error hFailed).2]
      exact hHere
    rcases ends_ofFiles_iff.mp hFound with ⟨hListed, rfl⟩
    have hListing := mapError_eq_ok_iff.mp hListed.symm
    rcases ends_bind_iff.mp hRest₃ with
      ⟨failure, hFailed, _⟩ | ⟨files, v₄, hScrubbed, hClosed⟩
    · exact progress_of_mapM hProper hPlaces hRealPath hListing
          hFailed
    · rw [(ends_ofExcept_iff.mp hClosed).2]
      exact progress_of_mapM hProper hPlaces hRealPath
        hListing hScrubbed

end Scrub

namespace Migration

open Session

/- So does the scrubbing of a migration, if it is wanted. -/
theorem progress_of_scrub
    {m : Migration}
    {d : Decisions}
    {places : Location → Prop}
    {w w' : World}
    (hProper : w.files.root.Proper)
    (hPlaces :
      d.cleanComments = true →
        ∀ fs : FileSystem, fs.root.Proper →
          w.files.root.Grows fs.root →
            ∀ loc, Scrub.Writable fs m.root loc → places loc)
    {result : Except Failure Scrub.Report}
    (hEnds : Ends (m.scrub d) w result w') :
    Scrub.Progress places w w' := by
  have hHere : Scrub.Progress places w w :=
    Scrub.Progress.refl hProper
  have hSteady := (Scrub.lasting_progress places w).steady
  have hLogs :
      ∀ {v v' : World} {text : Text}
        {outcome : Except Failure Unit},
        Ends (say text) v outcome v' →
          Scrub.Progress places w v → Scrub.Progress places w v' :=
    fun hSay => (keeps_say hSteady _ _ _ _ hSay).1
  unfold scrub at hEnds
  split at hEnds
  · rw [(ends_pure_iff.mp hEnds).2]
    exact hHere
  next hClean =>
  have hWanted : d.cleanComments = true := by
    simpa using hClean
  rcases ends_bind_iff.mp hEnds with
    ⟨failure, hFailed, _⟩ | ⟨_, v₁, hSay, hRest₁⟩
  · exact hLogs hFailed hHere
  have hSaid := hLogs hSay hHere
  have hListed :=
    hPlaces hWanted _ hSaid.proper hSaid.files.grows
  rcases ends_bind_iff.mp hRest₁ with
    ⟨failure, hFailed, _⟩ | ⟨report, v₂, hTree, hRest₂⟩
  · exact hSaid.trans
      (Scrub.progress_of_tree hSaid.proper hListed hFailed)
  have hScrubbed :=
    hSaid.trans (Scrub.progress_of_tree hSaid.proper hListed hTree)
  rcases ends_bind_iff.mp hRest₂ with
    ⟨failure, hFailed, _⟩ | ⟨_, v₃, hSay', hPure⟩
  · exact hLogs hFailed hScrubbed
  · rw [(ends_pure_iff.mp hPure).2]
    exact hLogs hSay' hScrubbed

end Migration

end BiomeMigration
