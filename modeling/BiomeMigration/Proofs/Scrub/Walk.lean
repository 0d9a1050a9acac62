import BiomeMigration.Proofs.Files.Opening
import BiomeMigration.Proofs.Files.Outline
import BiomeMigration.Proofs.Files.Way
import BiomeMigration.Proofs.Scrub.Sequence

/-
  Scrubbing files does not change the way through a
  directory. So it makes no difference whether all code files
  are listed before the first one is scrubbed, or each one
  when the work has come to it.

  Main declarations:
    * `FileSystem.listing_of_touches`
    * `Scrub.Rewritten`
    * `Scrub.rewritten_of_ends_file`
    * `Scrub.listing_of_ends_steps`
-/

------------------------------------------------------------
-- Listings of Touched Trees
------------------------------------------------------------

namespace BiomeMigration

namespace FileSystem

variable {fs fs' : FileSystem} {p : Path} {fault : PathFault}
variable {places : Location → Prop}

theorem Touches.alike
    (hTouches : Touches places fs fs') :
    fs.root.Alike fs'.root :=
  ⟨hTouches.grows, hTouches.symm.grows⟩

/- A path that leads nowhere goes on leading nowhere. -/
theorem Touches.locate_error
    (hTouches : Touches places fs fs')
    (hAnchor : p.anchor ≠ .working)
    (hFault : fs.locate .target p = .error fault) :
    fs'.locate .target p = .error fault := by
  have hSame :
      outline (fs.lookUp .target p) =
        outline (fs'.lookUp .target p) :=
    outline_lookUp hAnchor hTouches.grows hTouches.symm.grows
  unfold locate at hFault ⊢
  split at hFault
  · next hNul =>
      rw [if_pos hNul]
      exact hFault
  · next hNul =>
      rw [if_neg hNul]
      rcases of_outline_eq hSame with
        ⟨_, _, _, hHere, _, _⟩ | ⟨problem, hHere, hThere⟩
      · rw [hHere] at hFault
        cases hFault
      · rw [hHere] at hFault
        rw [hThere]
        exact hFault

/-
  The way through a directory comes to the same in trees that
  differ in the contents of files only.
-/
theorem listing_of_touches
    (hTouches : Touches places fs fs')
    (hProper : fs.root.Proper)
    (hProper' : fs'.root.Proper)
    (hAnchor : p.anchor ≠ .working) :
    fs'.listing p = fs.listing p := by
  unfold listing list
  cases hPlace : fs.locate .target p with
  | error fault =>
      rw [hTouches.locate_error hAnchor hPlace]
      rfl
  | ok place =>
      rcases locate_of_grows hTouches.grows (Or.inl rfl) hAnchor
          hPlace with
        ⟨hStands, hPlace'⟩
      rcases place with ⟨loc, node?⟩
      have hNode : node? = fs.root.at? loc := hStands.node
      rw [hPlace', hNode]
      cases hHere : fs.root.at? loc with
      | none =>
          dsimp only
          rw [hTouches.at?_eq_none hHere]
          rfl
      | some node =>
          cases node with
          | file content =>
              rcases hTouches.hasFile ⟨content, hHere⟩ with
                ⟨content', hThere⟩
              dsimp only
              rw [hThere]
              rfl
          | link target =>
              dsimp only
              rw [hTouches.grows.tracks.link hHere]
              rfl
          | directory entries =>
              rcases hTouches.grows.directory hHere with
                ⟨entries', hThere⟩
              have hVisits :
                  (Node.directory entries').visits =
                    (Node.directory entries).visits :=
                (hTouches.alike.of_at? hHere hThere).visits_eq
                  (hProper.of_at? hHere)
                  (hProper'.of_at? hThere)
              dsimp only
              rw [hThere, hTouches.depths]
              exact congrArg
                (fun visits =>
                  Except.ok
                    (Listing.ofVisits fs.depths.directories p
                      visits))
                hVisits

end FileSystem

------------------------------------------------------------
-- Listings of Scrubbed Trees
------------------------------------------------------------

namespace Scrub

open Directive (Rule)
open FileSystem (Touches)
open Session

variable {rules : List Rule} {w w' v : World} {p : Path}
variable {paths : List Path}

/- Nothing has happened to the files but to their contents. -/
structure Rewritten (w w' : World) : Prop where
  touches : Touches (fun _ => True) w.files w'.files
  proper : w.files.root.Proper → w'.files.root.Proper

theorem Rewritten.refl (w : World) : Rewritten w w :=
  ⟨Touches.refl _ _, id⟩

theorem Rewritten.trans
    (hFirst : Rewritten w v)
    (hSecond : Rewritten v w') :
    Rewritten w w' :=
  ⟨hFirst.touches.trans hSecond.touches,
    fun hProper => hSecond.proper (hFirst.proper hProper)⟩

theorem rewritten_recorded (r : Record) (w : World) :
    Rewritten w (recorded r w) :=
  ⟨(w.logger.touches_writeFiles r w.files).mono
      fun _ _ => trivial,
    fun hProper => w.logger.proper_writeFiles hProper r⟩

/- A file that was read is written at its own place. -/
theorem rewritten_of_write
    (hAnchor : p.anchor ≠ .working)
    {old new : Bytes}
    {fs : FileSystem}
    (hRead : w.files.read p = .ok old)
    (hWrite : w.files.write p new = .ok fs) :
    Rewritten w { w with files := fs } := by
  rcases FileSystem.read_eq_ok_iff.mp hRead with ⟨loc, hLeads⟩
  have hFiles : fs = w.files.setFile loc new :=
    Except.ok.inj
      (hWrite.symm.trans
        (FileSystem.write_of_opens hLeads.opens new))
  refine ⟨?_, fun hProper =>
    FileSystem.proper_of_write hProper hAnchor hWrite⟩
  rw [hFiles]
  exact (FileSystem.touches_setFile
    ⟨old, hLeads.node hAnchor⟩ new).mono fun _ _ => trivial

/- However the scrubbing of a file ends, no more has happened. -/
theorem rewritten_of_ends_file
    (hAnchor : p.anchor ≠ .working)
    {result : Except Failure Nat}
    (hEnds : Ends (file rules p) w result w') :
    Rewritten w w' := by
  unfold file at hEnds
  rcases ends_bind_iff.mp hEnds with
    ⟨_, hFailed, _⟩ | ⟨bytes, v, hRead, hStrip⟩
  · rw [(ends_ofFiles_iff.mp hFailed).2]
    exact Rewritten.refl w
  rcases ends_ofFiles_iff.mp hRead with ⟨hBytes, rfl⟩
  rcases ends_bind_iff.mp hStrip with
    ⟨_, hFailed, _⟩ | ⟨stripped, u, hStripped, hRest⟩
  · rw [(ends_ofExcept_iff.mp hFailed).2]
    exact Rewritten.refl v
  rcases ends_ofExcept_iff.mp hStripped with ⟨_, rfl⟩
  dsimp only at hRest
  split at hRest
  · rcases ends_bind_iff.mp hRest with
      ⟨_, hFailed, _⟩ | ⟨fs, t, hWrite, hLast⟩
    · rw [(ends_ofFiles_iff.mp hFailed).2]
      exact Rewritten.refl u
    rcases ends_ofFiles_iff.mp hWrite with ⟨hFiles, rfl⟩
    have hLog := (ends_setFiles fs t).of_bind hLast
    have hPure := (ends_log _ _ _ _).of_bind hLog
    rcases ends_pure_iff.mp hPure with ⟨_, rfl⟩
    exact (rewritten_of_write hAnchor
      (mapError_eq_ok_iff.mp hBytes.symm)
      (mapError_eq_ok_iff.mp hFiles.symm)).trans
        (rewritten_recorded _ _)
  · rcases ends_pure_iff.mp hRest with ⟨_, rfl⟩
    exact Rewritten.refl w'

/- Nor has more happened when some files have been scrubbed. -/
theorem rewritten_of_ends_steps
    (hAnchors : ∀ q ∈ paths, q.anchor ≠ .working)
    {result : Except Failure (List (Path × Nat))}
    (hEnds : Ends (paths.mapM (step rules)) w result w') :
    Rewritten w w' := by
  induction paths generalizing w result with
  | nil =>
      rcases ends_pure_iff.mp hEnds with ⟨_, rfl⟩
      exact Rewritten.refl w'
  | cons q paths ih =>
      have hStep :
          ∀ {result : Except Failure (Path × Nat)} {v : World},
            Ends (step rules q) w result v → Rewritten w v := by
        intro result v hStep
        have hHere := hAnchors q List.mem_cons_self
        rcases ends_bind_iff.mp hStep with
          ⟨_, hFailed, _⟩ | ⟨_, u, hFile, hPure⟩
        · exact rewritten_of_ends_file hHere hFailed
        · rcases ends_pure_iff.mp hPure with ⟨_, rfl⟩
          exact rewritten_of_ends_file hHere hFile
      have hLater : ∀ q' ∈ paths, q'.anchor ≠ .working :=
        fun q' hq' => hAnchors q' (List.mem_cons_of_mem q hq')
      rw [List.mapM_cons] at hEnds
      rcases ends_bind_iff.mp hEnds with
        ⟨_, hFailed, _⟩ | ⟨_, v, hFirst, hRest⟩
      · exact hStep hFailed
      rcases ends_bind_iff.mp hRest with
        ⟨_, hFailed, _⟩ | ⟨_, u, hOthers, hPure⟩
      · exact (hStep hFirst).trans (ih hLater hFailed)
      · rcases ends_pure_iff.mp hPure with ⟨_, rfl⟩
        exact (hStep hFirst).trans (ih hLater hOthers)

/-
  However many files have been scrubbed, and however that has
  ended, the way through a directory comes to what it came to
  before.
-/
theorem listing_of_ends_steps
    (hProper : w.files.root.Proper)
    (hAnchor : p.anchor ≠ .working)
    (hAnchors : ∀ q ∈ paths, q.anchor ≠ .working)
    {result : Except Failure (List (Path × Nat))}
    (hEnds : Ends (paths.mapM (step rules)) w result w') :
    w'.files.listing p = w.files.listing p := by
  have hRewritten := rewritten_of_ends_steps hAnchors hEnds
  exact FileSystem.listing_of_touches hRewritten.touches hProper
    (hRewritten.proper hProper) hAnchor

end Scrub

end BiomeMigration
