import BiomeMigration.Scrub
import BiomeMigration.Proofs.Directive.Removal
import BiomeMigration.Proofs.Files.CodeFiles
import BiomeMigration.Proofs.Session.Records
import BiomeMigration.Proofs.Text.Decoding

/-
  What scrubbing one file does: the file holds its text
  without the comments, and nothing else changes, but for
  log files that a record is added to.

  Main declarations:
    * `Scrub.Source`
    * `Scrub.Effect`
    * `Scrub.ends_file`
-/

------------------------------------------------------------
-- Effects
------------------------------------------------------------

namespace BiomeMigration

namespace Scrub

open Directive (Rule)
open FileSystem (Touches)
open Session

/- A code file before it is scrubbed. -/
structure Source where
  path : Path
  place : Location
  text : List Char

namespace Source

/- The bytes of a file. -/
def bytes (s : Source) : Bytes :=
  Utf8.encode s.text

/- The bytes of a file after the rules. -/
def cleaned
    (rules : List Rule)
    (s : Source) : Bytes :=
  Utf8.encode (Directive.strip rules s.text).text

/- The number of comments that the rules remove from a file. -/
def removed
    (rules : List Rule)
    (s : Source) : Nat :=
  (Directive.strip rules s.text).removed

/- A file is changed just if a comment is removed from it. -/
theorem removed_pos_iff
    (rules : List Rule)
    (s : Source) :
    0 < s.removed rules ↔ s.cleaned rules ≠ s.bytes := by
  unfold removed cleaned bytes
  rw [Directive.removed_pos_iff, ne_eq, ne_eq,
    Utf8.encode_inj]

end Source

/-
  Some files have been scrubbed: they hold what the rules
  leave of their texts, and everything else is as it was, but
  for log files that debug records have been added to.
-/
structure Effect
    (rules : List Rule)
    (sources : List Source)
    (w w' : World) : Prop where
  logger : w'.logger = w.logger
  frame : w'.files = { w.files with root := w'.files.root }
  cleaned :
    ∀ s ∈ sources,
      w'.files.root.at? s.place = some (.file (s.cleaned rules))
  others :
    ∀ loc, (∀ s ∈ sources, s.place ≠ loc) →
      w.logger.Kept .debug loc w.files w'.files

variable {rules : List Rule} {sources sources' : List Source}
variable {w w' v : World}

theorem Effect.refl
    (rules : List Rule)
    (w : World) :
    Effect rules [] w w where
  logger := rfl
  frame := rfl
  cleaned := by simp
  others loc _ := Logger.Kept.refl w.logger _ loc w.files

theorem Effect.opened
    (hEffect : Effect rules sources w w') :
    w'.files.opened = w.files.opened := by
  rw [hEffect.frame]

theorem Effect.receives_iff
    (hEffect : Effect rules sources w w')
    {loc : Location} :
    w'.logger.Receives .debug w'.files loc ↔
      w.logger.Receives .debug w.files loc := by
  rw [hEffect.logger]
  exact Logger.receives_congr hEffect.opened

/- No file appears or disappears. -/
theorem Effect.touches
    (hEffect : Effect rules sources w w')
    (hFiles : ∀ s ∈ sources, w.files.HasFile s.place) :
    Touches (fun _ => True) w.files w'.files := by
  refine ⟨hEffect.frame, fun loc => ?_⟩
  by_cases hSource : ∃ s ∈ sources, s.place = loc
  · rcases hSource with ⟨s, hMember, rfl⟩
    exact Or.inr ⟨trivial, hFiles s hMember,
      ⟨_, hEffect.cleaned s hMember⟩⟩
  · have hKept :=
      hEffect.others loc fun s hMember hPlace =>
        hSource ⟨s, hMember, hPlace⟩
    rcases hKept with hSame | ⟨_, old, more, hFile, hFile'⟩
    · exact Or.inl hSame
    · exact Or.inr ⟨trivial, ⟨_, hFile⟩, ⟨_, hFile'⟩⟩

/- Other files are scrubbed after the first ones. -/
theorem Effect.append
    (hFirst : Effect rules sources w v)
    (hSecond : Effect rules sources' v w')
    (hApart :
      ∀ s ∈ sources, ∀ s' ∈ sources', s'.place ≠ s.place)
    (hUnlogged :
      ∀ s ∈ sources,
        ¬ w.logger.Receives .debug w.files s.place) :
    Effect rules (sources ++ sources') w w' where
  logger := hSecond.logger.trans hFirst.logger
  frame := by
    rw [hSecond.frame, hFirst.frame]
  cleaned := by
    intro s hMember
    rcases List.mem_append.mp hMember with hEarly | hLate
    · have hKept := hSecond.others s.place (hApart s hEarly)
      apply hKept.file _ (hFirst.cleaned s hEarly)
      rw [hFirst.receives_iff]
      exact hUnlogged s hEarly
    · exact hSecond.cleaned s hLate
  others := by
    intro loc hOther
    have hEarly :=
      hFirst.others loc fun s hMember =>
        hOther s (List.mem_append_left _ hMember)
    have hLate :=
      hSecond.others loc fun s hMember =>
        hOther s (List.mem_append_right _ hMember)
    rw [hFirst.logger] at hLate
    exact hEarly.trans hFirst.opened hLate

------------------------------------------------------------
-- One File
------------------------------------------------------------

/-
  A path leads to a file at a place and nowhere else, and no
  debug record is written to that file.
-/
structure Leads
    (w : World)
    (p : Path)
    (loc : Location) : Prop where
  anchor : p.anchor ≠ .working
  hasFile : w.files.HasFile loc
  unique :
    ∀ other node?,
      w.files.locate .target p = .ok ⟨other, node?⟩ →
        other = loc
  unlogged : ¬ w.logger.Receives .debug w.files loc

variable {p : Path} {loc : Location}

/- A path goes on leading to its file. -/
theorem Leads.of_effect
    (hLeads : Leads w p loc)
    (hEffect : Effect rules sources w w')
    (hFiles : ∀ s ∈ sources, w.files.HasFile s.place) :
    Leads w' p loc := by
  have hTouches := hEffect.touches hFiles
  refine ⟨hLeads.anchor, hTouches.hasFile hLeads.hasFile, ?_, ?_⟩
  · intro other node? hFound
    have hBefore :=
      (FileSystem.locate_of_grows hTouches.symm.grows
        (Or.inl rfl) hLeads.anchor hFound).2
    exact hLeads.unique _ _ hBefore
  · rw [hEffect.receives_iff]
    exact hLeads.unlogged

/- A path leads to the file that it is read at. -/
theorem Leads.leadsTo
    (hLeads : Leads w p loc)
    {content : Bytes}
    (hRead : w.files.read p = .ok content) :
    w.files.LeadsTo p loc content := by
  rcases FileSystem.read_eq_ok_iff.mp hRead with
    ⟨other, hOther⟩
  rcases hLeads.unique _ _ hOther with rfl
  exact hOther

/- The world after a file has been written. -/
theorem Leads.of_write
    (hLeads : Leads w p loc)
    {content : Bytes}
    {fs : FileSystem}
    (hWrite : w.files.write p content = .ok fs) :
    fs = w.files.setFile loc content := by
  rcases FileSystem.of_write_eq_ok hWrite with
    ⟨place, hPlace, _, rfl⟩
  have hFound :=
    (FileSystem.locate_of_grows (Node.Grows.refl w.files.root)
      (Or.inr ⟨rfl, rfl⟩) hLeads.anchor hPlace).2
  have hSame : place.location = loc :=
    hLeads.unique _ _ hFound
  rw [hSame]

/- What is recorded after a file has been written. -/
theorem effect_of_written
    (hLeads : Leads w p loc)
    (cs : List Char)
    (r : Record)
    (hLevel : r.level = .debug) :
    Effect rules [⟨p, loc, cs⟩] w
      (recorded r
        { w with
          files :=
            w.files.setFile loc
              (Source.cleaned rules ⟨p, loc, cs⟩) }) := by
  generalize hContent :
    Source.cleaned rules ⟨p, loc, cs⟩ = content
  have hWrites := fun other =>
    w.logger.kept_writeFiles r other (w.files.setFile loc content)
  rw [hLevel] at hWrites
  have hFrame :=
    (w.logger.touches_writeFiles r
      (w.files.setFile loc content)).frame
  refine ⟨rfl, ?_, ?_, ?_⟩
  · exact hFrame
  · intro s hMember
    rcases List.mem_singleton.mp hMember with rfl
    rw [hContent]
    apply (hWrites loc).1.file
    · rw [Logger.receives_congr rfl]
      exact hLeads.unlogged
    · exact Node.at?_put_self _ _ _
  · intro other hOther
    have hNe : other ≠ loc :=
      (hOther ⟨p, loc, cs⟩ (List.mem_singleton_self _)).symm
    have hSame :
        (w.files.setFile loc content).root.seen? other =
          w.files.root.seen? other :=
      Node.Room.seen?_put_of_ne (Or.inl hLeads.hasFile) content
        hNe
    have hSet :
        w.logger.Kept .debug other w.files
          (w.files.setFile loc content) :=
      Or.inl hSame
    exact hSet.trans rfl (hWrites other).1

/- A file that no comment is removed from stays as it is. -/
theorem effect_of_unchanged
    {s : Source}
    (hFile :
      w.files.root.at? s.place = some (.file s.bytes))
    (hNone : ¬ 0 < s.removed rules) :
    Effect rules [s] w w where
  logger := rfl
  frame := rfl
  cleaned := by
    intro other hMember
    rcases List.mem_singleton.mp hMember with rfl
    have hSame : other.cleaned rules = other.bytes := by
      rw [Source.removed_pos_iff, ne_eq, Decidable.not_not]
        at hNone
      exact hNone
    rw [hSame]
    exact hFile
  others other _ := Logger.Kept.refl w.logger _ other w.files

/- A file can be opened, to read it or to write to it. -/
def Opens (fs : FileSystem) (p : Path) : Prop :=
  ∃ found, fs.openForWriting p = .ok found

/-
  A file stops the work: it cannot be opened, or it has no
  text.
-/
def Stops
    (w : World)
    (p : Path)
    (loc : Location)
    (failure : Failure) : Prop :=
  (∃ fault, failure = .path fault ∧ ¬ Opens w.files p) ∨
    ∃ bytes fault,
      w.files.LeadsTo p loc bytes ∧
        Utf8.decode bytes = .error fault ∧
        failure = .decoding fault

/- A path that can be opened leads to its file. -/
theorem Leads.leadsTo_of_opens
    (hLeads : Leads w p loc)
    (hOpens : Opens w.files p) :
    ∃ content, w.files.LeadsTo p loc content := by
  rcases hOpens with ⟨⟨other, old⟩, hOpen⟩
  rcases FileSystem.locate_of_openForWriting hOpen with
    ⟨node?, hPlace⟩
  have hFound :=
    (FileSystem.locate_of_grows (Node.Grows.refl w.files.root)
      (Or.inr ⟨rfl, rfl⟩) hLeads.anchor hPlace).2
  rcases hLeads.unique _ _ hFound with rfl
  rcases hLeads.hasFile with ⟨content, hContent⟩
  dsimp only at hFound
  rw [hContent] at hFound
  exact ⟨content, hFound⟩

theorem Leads.not_opens_of_read
    (hLeads : Leads w p loc)
    {fault : PathFault}
    (hRead : w.files.read p = .error fault) :
    ¬ Opens w.files p := by
  intro hOpens
  rcases hLeads.leadsTo_of_opens hOpens with ⟨content, hPlace⟩
  rw [FileSystem.read_eq_ok_iff.mpr ⟨_, hPlace⟩] at hRead
  cases hRead

theorem not_opens_of_write
    {fs : FileSystem}
    {content : Bytes}
    {fault : PathFault}
    (hWrite : fs.write p content = .error fault) :
    ¬ Opens fs p := by
  rintro ⟨found, hOpen⟩
  unfold FileSystem.write at hWrite
  rw [hOpen] at hWrite
  cases hWrite

/- A file is written and that is recorded, or nothing is done. -/
theorem ends_rewrite
    (hLeads : Leads w p loc)
    (cs : List Char)
    {name : String}
    {message : Text}
    {n : Nat}
    {result : Except Failure Nat}
    (hEnds :
      Ends
        (do
          setFiles
            (← ofFiles
              (·.write p (Source.cleaned rules ⟨p, loc, cs⟩)))
          log .debug name message
          return n)
        w result w') :
    (result = .ok n ∧ Effect rules [⟨p, loc, cs⟩] w w') ∨
      ∃ fault,
        result = .error (.path fault) ∧ w' = w ∧
          ¬ Opens w.files p := by
  rcases ends_bind_iff.mp hEnds with
    ⟨failure, hFailed, rfl⟩ | ⟨fs, v, hWrite, hLast⟩
  · rcases ends_ofFiles_error hFailed with ⟨⟨fault, rfl⟩, rfl⟩
    refine Or.inr ⟨fault, rfl, rfl, ?_⟩
    have hResult := (ends_ofFiles_iff.mp hFailed).1
    cases hWrite :
        w'.files.write p
          (Source.cleaned rules ⟨p, loc, cs⟩) with
    | ok fs =>
        rw [hWrite] at hResult
        cases hResult
    | error problem => exact not_opens_of_write hWrite
  · rcases ends_ofFiles_iff.mp hWrite with ⟨hResult, rfl⟩
    have hFiles :=
      hLeads.of_write (mapError_eq_ok_iff.mp hResult.symm)
    have hLog := (ends_setFiles fs v).of_bind hLast
    have hPure := (ends_log _ _ _ _).of_bind hLog
    rcases ends_pure_iff.mp hPure with ⟨rfl, rfl⟩
    rw [hFiles]
    exact Or.inl ⟨rfl, effect_of_written hLeads cs _ rfl⟩

/- The text of a file and its number of comments. -/
theorem strip_eq_of_decode
    {bytes : Bytes}
    (s : Source)
    (hDecode : Utf8.decode bytes = .ok s.text) :
    strip rules bytes =
      .ok (s.cleaned rules, s.removed rules) := by
  unfold strip
  rw [hDecode]
  rfl

theorem strip_eq_error_of_decode
    {bytes : Bytes}
    {fault : Utf8.Fault}
    (hDecode : Utf8.decode bytes = .error fault) :
    strip rules bytes = .error fault := by
  unfold strip
  rw [hDecode]
  rfl

/-
  Scrubbing a file removes its comments and counts them, or
  the file stops the work, and nothing is changed.
-/
theorem ends_file
    (hLeads : Leads w p loc)
    {result : Except Failure Nat}
    (hEnds : Ends (file rules p) w result w') :
    (∃ s : Source,
        s.path = p ∧ s.place = loc ∧
          w.files.LeadsTo p loc s.bytes ∧
          result = .ok (s.removed rules) ∧
          Effect rules [s] w w') ∨
      ∃ failure,
        result = .error failure ∧ w' = w ∧
          Stops w p loc failure := by
  unfold file at hEnds
  rcases ends_bind_iff.mp hEnds with
    ⟨failure, hFailed, rfl⟩ | ⟨bytes, v, hRead, hRest⟩
  · rcases ends_ofFiles_error hFailed with ⟨⟨fault, rfl⟩, rfl⟩
    have hResult := (ends_ofFiles_iff.mp hFailed).1
    refine Or.inr ⟨_, rfl, rfl, Or.inl ⟨fault, rfl, ?_⟩⟩
    cases hContent : w'.files.read p with
    | ok content =>
        rw [hContent] at hResult
        cases hResult
    | error problem => exact hLeads.not_opens_of_read hContent
  rcases ends_ofFiles_iff.mp hRead with ⟨hResult, rfl⟩
  have hPlace :=
    hLeads.leadsTo (mapError_eq_ok_iff.mp hResult.symm)
  cases hDecode : Utf8.decode bytes with
  | error fault =>
      rw [strip_eq_error_of_decode hDecode] at hRest
      rcases ends_bind_iff.mp hRest with
        ⟨failure, hFailed, rfl⟩ | ⟨_, _, hOk, _⟩
      · rcases ends_ofExcept_iff.mp hFailed with ⟨hSame, rfl⟩
        exact Or.inr ⟨_, rfl, rfl, Or.inr
          ⟨bytes, fault, hPlace, hDecode,
            Except.error.inj hSame⟩⟩
      · cases (ends_ofExcept_iff.mp hOk).1
  | ok cs =>
      have hBytes : Source.bytes ⟨p, loc, cs⟩ = bytes :=
        Utf8.encode_of_decode hDecode
      rw [← hBytes] at hPlace
      rw [strip_eq_of_decode ⟨p, loc, cs⟩ hDecode] at hRest
      rcases ends_bind_iff.mp hRest with
        ⟨_, hFailed, _⟩ | ⟨_, _, hOk, hLast⟩
      · cases (ends_ofExcept_iff.mp hFailed).1
      rcases ends_ofExcept_iff.mp hOk with ⟨hPair, rfl⟩
      rcases Except.ok.inj hPair with rfl
      dsimp only at hLast
      split at hLast
      · rcases ends_rewrite hLeads cs hLast with
          ⟨rfl, hEffect⟩ | ⟨fault, rfl, hWorld, hOpens⟩
        · exact Or.inl ⟨⟨p, loc, cs⟩, rfl, rfl, hPlace, rfl,
            hEffect⟩
        · exact Or.inr ⟨_, rfl, hWorld,
            Or.inl ⟨fault, rfl, hOpens⟩⟩
      · next hNone =>
          rcases ends_pure_iff.mp hLast with ⟨rfl, rfl⟩
          exact Or.inl ⟨⟨p, loc, cs⟩, rfl, rfl, hPlace, rfl,
            effect_of_unchanged (hPlace.node hLeads.anchor)
              hNone⟩

end Scrub

end BiomeMigration
