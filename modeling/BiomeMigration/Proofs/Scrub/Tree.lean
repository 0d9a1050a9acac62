import Mathlib.Algebra.GroupWithZero.Nat
import BiomeMigration.Proofs.Scrub.Sequence

/-
  What scrubbing a project does. If it succeeds, all code
  files have been scrubbed, and the report tells what has
  been done to each one. The first one without a text ends
  the work: the files before it have been scrubbed, and
  nothing else has.

  Main declarations:
    * `Scrub.leads_of_listed`
    * `Scrub.Divided`
    * `Scrub.Finished`
    * `Scrub.finished_of_runs`
    * `Scrub.Aborted`
    * `Scrub.aborted_of_fault`
-/

------------------------------------------------------------
-- Listed Files
------------------------------------------------------------

namespace BiomeMigration

namespace Scrub

open Directive (Rule)
open Session

variable {rules : List Rule} {w w' : World}
variable {root real : Path} {paths : List Path}

/- No debug record is written to a code file of a project. -/
def Unlogged (root : Path) (w : World) : Prop :=
  ∀ loc, w.files.IsCodeFile root loc →
    ¬ w.logger.Receives .debug w.files loc

/- Each listed path leads to a place of its own. -/
theorem leads_of_listed
    (hProper : w.files.root.Proper)
    (hUnlogged : Unlogged root w)
    (hReal : w.files.realPath root = .ok real)
    (hListed : w.files.codeFiles real = .ok paths) :
    ∃ place : Path → Location,
      (paths.map place).Nodup ∧
        (∀ p ∈ paths, Leads w p (place p)) ∧
        ∀ loc,
          w.files.IsCodeFile root loc ↔
            ∃ p ∈ paths, place p = loc := by
  have hAnchor := FileSystem.realPath_anchor hReal
  rcases FileSystem.of_codeFiles hAnchor hListed with
    ⟨above, entries, hPlace, hDirectory, rfl⟩
  have hCode :=
    FileSystem.isCodeFile_iff hProper hReal hPlace hDirectory
  have hDirectoryProper := hProper.of_at? hDirectory
  let place : Path → Location :=
    fun p => above ++ p.parts.drop real.parts.length
  have hPlaceOf :
      ∀ below,
        place ⟨real.anchor, real.parts ++ below⟩ =
          above ++ below := by
    intro below
    simp [place]
  refine ⟨place, ?_, ?_, ?_⟩
  · rw [List.map_map]
    apply hDirectoryProper.nodup_codeFiles.map
    intro below below' hSame
    have hBelow : above ++ below = above ++ below' := by
      rw [← hPlaceOf below, ← hPlaceOf below']
      exact hSame
    exact List.append_cancel_left hBelow
  · intro p hp
    rcases List.mem_map.mp hp with ⟨below, hBelow, rfl⟩
    rw [hPlaceOf]
    have hHere :=
      (hCode (above ++ below)).mpr ⟨below, hBelow, rfl⟩
    refine ⟨hAnchor, ?_, ?_, hUnlogged _ hHere⟩
    · rcases hHere with ⟨_, _, _, _, _, _, _, _, hFile⟩
      exact hFile
    · intro other node? hFound
      exact FileSystem.location_of_codeFile hProper hAnchor
        hPlace hDirectory hBelow hFound
  · intro loc
    rw [hCode loc]
    constructor
    · rintro ⟨below, hBelow, rfl⟩
      exact ⟨_, List.mem_map_of_mem hBelow, hPlaceOf below⟩
    · rintro ⟨p, hp, rfl⟩
      rcases List.mem_map.mp hp with ⟨below, hBelow, rfl⟩
      exact ⟨below, hBelow, hPlaceOf below⟩

/- Scrubbing a project is scrubbing its listed files. -/
theorem runs_tree
    {report : Report}
    (hRuns : Runs (tree rules root) w report w') :
    ∃ real paths,
      w.files.realPath root = .ok real ∧
        w.files.codeFiles real = .ok paths ∧
        Ends (paths.mapM (step rules)) w (.ok report.files)
          w' := by
  unfold tree at hRuns
  rcases runs_bind_iff.mp hRuns with ⟨real, v₁, hReal, hRest₁⟩
  rcases runs_ofFiles_iff.mp hReal with ⟨hRealPath, rfl⟩
  rcases runs_bind_iff.mp hRest₁ with
    ⟨isDirectory, v₂, hIs, hRest₂⟩
  rcases runs_ofFiles_iff.mp hIs with ⟨_, rfl⟩
  dsimp only at hRest₂
  split at hRest₂
  · rcases runs_bind_iff.mp hRest₂ with ⟨_, _, hThrown, _⟩
    exact (not_runs_throw hThrown).elim
  · rcases runs_bind_iff.mp hRest₂ with
      ⟨found, v₃, hFound, hRest₃⟩
    rcases runs_ofFiles_iff.mp hFound with ⟨hListing, rfl⟩
    rcases runs_bind_iff.mp hRest₃ with
      ⟨files, v₄, hFiles, hClosed⟩
    rcases runs_ofExcept_iff.mp hClosed with ⟨hClose, rfl⟩
    rcases Listing.close_eq_ok_iff.mp
        (mapError_eq_ok_iff.mp hClose) with
      ⟨hNone, rfl⟩
    refine ⟨real, found.paths, hRealPath, ?_, hFiles⟩
    exact bind_eq_ok_iff.mpr
      ⟨found, hListing,
        Listing.close_eq_ok_iff.mpr ⟨hNone, rfl⟩⟩

/- Conversely, scrubbing the listed files scrubs the project. -/
theorem ends_tree
    (hReal : w.files.realPath root = .ok real)
    (hListed : w.files.codeFiles real = .ok paths)
    {result : Except Failure (List (Path × Nat))}
    (hEnds : Ends (paths.mapM (step rules)) w result w') :
    Ends (tree rules root) w (result.map Report.mk) w' := by
  rcases FileSystem.of_codeFiles
      (FileSystem.realPath_anchor hReal) hListed with
    ⟨above, entries, hPlace, _, _⟩
  have hIs : w.files.isDirectory? real = .ok true := by
    unfold FileSystem.isDirectory? FileSystem.follow?
    rw [hPlace]
    rfl
  unfold tree
  apply (ends_ofFiles_of_ok hReal).bind
  apply (ends_ofFiles_of_ok hIs).bind
  apply (ends_ofFiles_of_ok
    (FileSystem.listing_of_codeFiles hListed)).bind
  cases result with
  | ok files =>
      exact hEnds.bind (ends_ofExcept_iff.mpr ⟨rfl, rfl⟩)
  | error failure =>
      exact hEnds.bind_error _

------------------------------------------------------------
-- A Project of a Few Files
------------------------------------------------------------

/-
  A world of files in the root directory. One of them is a
  log file that debug records go to.
-/
def loggedWorld
    (contents : List (String × Bytes))
    (log : String) : World where
  files :=
    { root := .flat contents
      working := []
      home := .top
      homes := []
      opened := [[log]] }
  logger := (Logger.plain true).add (.file [log])
  lines := []
  journal := []

/- A code file with one comment. -/
def disabled : Bytes :=
  Utf8.encode "// eslint-disable-line\nf();\n".toList

variable {contents : List (String × Bytes)} {log : String}

theorem realPath_loggedWorld :
    (loggedWorld contents log).files.realPath .top = .ok .top :=
  rfl

theorem codeFiles_loggedWorld
    (hOrder : (contents.map Prod.fst).Pairwise (· ≤ ·))
    (hShort :
      ∀ name ∈ contents.map Prod.fst,
        (Path.top.below [name]).text.utf8ByteSize ≤
          FileSystem.pathLimit) :
    (loggedWorld contents log).files.codeFiles .top =
      .ok (((contents.map Prod.fst).filter
        CodeFiles.isCodeName).map fun name =>
          ⟨.root, [name]⟩) := by
  apply FileSystem.codeFiles_eq_ok_iff.mpr
  refine ⟨.flat contents, rfl, ?_, ?_⟩
  · rw [Node.visits_flat hOrder]
    intro visit hVisit
    rcases List.mem_cons.mp hVisit with rfl | hSeen
    · rfl
    · rcases List.mem_map.mp hSeen with ⟨name, hName, rfl⟩
      unfold Visit.fault? Visit.textFault?
      exact if_neg (Nat.not_lt.mpr (hShort name hName))
  · rw [Node.codeFiles_flat hOrder, List.map_map]
    rfl

theorem unlogged_loggedWorld
    (hLog : CodeFiles.isCodeName log = false) :
    Unlogged .top (loggedWorld contents log) := by
  rintro loc hCode ⟨_, hLogs, _⟩
  have hPlace : loc = [log] := by
    simpa [loggedWorld, Logger.add, Logger.plain] using hLogs
  subst hPlace
  have hName :=
    Node.isCodePlace_singleton_iff.mp hCode.isCodePlace
  rw [hLog] at hName
  cases hName

------------------------------------------------------------
-- Scrubbed Files and the Rest
------------------------------------------------------------

variable {place : Path → Location} {sources : List Source}
variable {rest : List Path}

/-
  Of some files with places of their own, the first ones have
  been scrubbed, and the rest has not.
-/
structure Divided
    (rules : List Rule)
    (place : Path → Location)
    (sources : List Source)
    (rest : List Path)
    (w w' : World) : Prop where
  leads :
    ∀ p ∈ sources.map Source.path ++ rest, Leads w p (place p)
  apart :
    ((sources.map Source.path ++ rest).map place).Nodup
  own :
    ∀ s ∈ sources,
      s.place = place s.path ∧
        w.files.LeadsTo s.path s.place s.bytes
  effect : Effect rules sources w w'

namespace Divided

theorem leads_source
    (hDivided : Divided rules place sources rest w w')
    {s : Source}
    (hMember : s ∈ sources) :
    Leads w s.path s.place := by
  rw [(hDivided.own s hMember).1]
  exact hDivided.leads _
    (List.mem_append_left _ (List.mem_map_of_mem hMember))

theorem leads_rest
    (hDivided : Divided rules place sources rest w w')
    {p : Path}
    (hMember : p ∈ rest) :
    Leads w p (place p) :=
  hDivided.leads p (List.mem_append_right _ hMember)

/- A scrubbed file held its text. -/
theorem node
    (hDivided : Divided rules place sources rest w w')
    {s : Source}
    (hMember : s ∈ sources) :
    w.files.root.at? s.place = some (.file s.bytes) :=
  (hDivided.own s hMember).2.node
    (hDivided.leads_source hMember).anchor

theorem hasFile
    (hDivided : Divided rules place sources rest w w') :
    ∀ s ∈ sources, w.files.HasFile s.place :=
  fun _ hMember => ⟨_, hDivided.node hMember⟩

/- No file of the rest is a scrubbed one. -/
theorem place_ne
    (hDivided : Divided rules place sources rest w w')
    {p : Path}
    (hRest : p ∈ rest) :
    ∀ s ∈ sources, s.place ≠ place p := by
  intro s hMember hSame
  have hApart := hDivided.apart
  rw [List.map_append, List.nodup_append] at hApart
  rw [(hDivided.own s hMember).1] at hSame
  exact hApart.2.2 _
    (List.mem_map_of_mem (List.mem_map_of_mem hMember)) _
    (List.mem_map_of_mem hRest) hSame

theorem map_place
    (hDivided : Divided rules place sources rest w w') :
    (sources.map Source.path).map place =
      sources.map Source.place := by
  rw [List.map_map]
  exact List.map_congr_left fun s hMember =>
    (hDivided.own s hMember).1.symm

/- A scrubbed file is read as what the rules leave of it. -/
theorem read_source
    (hDivided : Divided rules place sources rest w w')
    {s : Source}
    (hMember : s ∈ sources) :
    w.files.read s.path = .ok s.bytes ∧
      w'.files.read s.path = .ok (s.cleaned rules) := by
  have hBefore := (hDivided.own s hMember).2
  have hGrows := (hDivided.effect.touches hDivided.hasFile).grows
  exact ⟨FileSystem.read_eq_ok_iff.mpr ⟨_, hBefore⟩,
    FileSystem.read_eq_ok_iff.mpr
      ⟨_, hBefore.of_grows (hDivided.leads_source hMember).anchor
        hGrows (hDivided.effect.cleaned s hMember)⟩⟩

/- A file of the rest that can be opened is read as before. -/
theorem read_rest
    (hDivided : Divided rules place sources rest w w')
    {p : Path}
    (hRest : p ∈ rest)
    (hOpens : Opens w.files p) :
    w'.files.read p = w.files.read p := by
  have hLeads := hDivided.leads_rest hRest
  rcases hLeads.leadsTo_of_opens hOpens with ⟨content, hBefore⟩
  have hLater :=
    (hLeads.leadsTo_iff hDivided.effect hDivided.hasFile
      (hDivided.place_ne hRest)).mpr hBefore
  rw [FileSystem.read_eq_ok_iff.mpr ⟨_, hBefore⟩,
    FileSystem.read_eq_ok_iff.mpr ⟨_, hLater⟩]

/- The content of a file of the rest is as it was. -/
theorem node_rest
    (hDivided : Divided rules place sources rest w w')
    {p : Path}
    (hRest : p ∈ rest) :
    w'.files.root.at? (place p) =
      w.files.root.at? (place p) := by
  have hLeads := hDivided.leads_rest hRest
  rcases hLeads.hasFile with ⟨content, hContent⟩
  have hKept :=
    hDivided.effect.others _ (hDivided.place_ne hRest)
  rw [hContent]
  exact hKept.file hLeads.unlogged hContent

/- A scrubbed file is changed if something was removed. -/
theorem changed_iff
    (hDivided : Divided rules place sources rest w w')
    {s : Source}
    (hMember : s ∈ sources) :
    w'.files.root.at? s.place ≠ w.files.root.at? s.place ↔
      0 < s.removed rules := by
  rw [hDivided.effect.cleaned s hMember, hDivided.node hMember,
    s.removed_pos_iff]
  simp

end Divided

/- Scrubbing the listed files of a project divides them. -/
theorem divided_of_ends
    (hProper : w.files.root.Proper)
    (hUnlogged : Unlogged root w)
    (hReal : w.files.realPath root = .ok real)
    (hListed : w.files.codeFiles real = .ok paths)
    {result : Except Failure (List (Path × Nat))}
    (hEnds : Ends (paths.mapM (step rules)) w result w') :
    ∃ place sources rest,
      paths = sources.map Source.path ++ rest ∧
        Divided rules place sources rest w w' ∧
        (∀ loc,
          w.files.IsCodeFile root loc ↔
            ∃ p ∈ paths, place p = loc) ∧
        ((rest = [] ∧
            result =
              .ok (sources.map fun s =>
                (s.path, s.removed rules))) ∨
          ∃ p later failure,
            rest = p :: later ∧ result = .error failure ∧
              Stops w p (place p) failure) := by
  rcases leads_of_listed hProper hUnlogged hReal hListed with
    ⟨place, hApart, hLeads, hAll⟩
  rcases ends_mapM hLeads hApart hEnds with
    ⟨sources, rest, rfl, hOwn, hEffect, hEnd⟩
  exact ⟨place, sources, rest, rfl,
    ⟨hLeads, hApart, hOwn, hEffect⟩, hAll, hEnd⟩

------------------------------------------------------------
-- Success
------------------------------------------------------------

/-
  All code files of a project have been scrubbed, each one
  once, in the order of the list, and reported.
-/
structure Finished
    (rules : List Rule)
    (root : Path)
    (sources : List Source)
    (w w' : World)
    (report : Report) : Prop where
  apart : (sources.map Source.place).Nodup
  all :
    ∀ loc,
      w.files.IsCodeFile root loc ↔
        ∃ s ∈ sources, s.place = loc
  listed :
    ∃ real,
      w.files.realPath root = .ok real ∧
        w.files.codeFiles real = .ok (sources.map Source.path)
  before :
    ∀ s ∈ sources,
      w.files.root.at? s.place = some (.file s.bytes)
  effect : Effect rules sources w w'
  scanned : report.scanned = sources.length
  removed :
    report.removed = (sources.map (·.removed rules)).sum
  modified :
    report.modified =
      (sources.filter (0 < ·.removed rules)).map Source.path
  once : report.modified.Nodup
  changed :
    ∀ s ∈ sources,
      s.path ∈ report.modified ↔
        w'.files.root.at? s.place ≠ w.files.root.at? s.place

/- The report of files that have been scrubbed. -/
def Report.ofSources
    (rules : List Rule)
    (sources : List Source) : Report :=
  ⟨sources.map fun s => (s.path, s.removed rules)⟩

theorem Report.scanned_ofSources
    (rules : List Rule)
    (sources : List Source) :
    (ofSources rules sources).scanned = sources.length := by
  unfold scanned ofSources
  rw [List.length_map]

theorem Report.removed_ofSources
    (rules : List Rule)
    (sources : List Source) :
    (ofSources rules sources).removed =
      (sources.map (·.removed rules)).sum := by
  unfold removed ofSources
  rw [List.foldr_map]
  induction sources with
  | nil => rfl
  | cons s sources ih =>
      rw [List.foldr_cons, List.map_cons, List.sum_cons, ih]

theorem Report.modified_ofSources
    (rules : List Rule)
    (sources : List Source) :
    (ofSources rules sources).modified =
      (sources.filter (0 < ·.removed rules)).map
        Source.path := by
  unfold modified ofSources
  rw [List.filter_map, List.map_map]
  rfl

/- A file is reported as changed if something was removed. -/
theorem Report.mem_modified_iff
    (hPaths : (sources.map Source.path).Nodup)
    {s : Source}
    (hMember : s ∈ sources) :
    s.path ∈ (ofSources rules sources).modified ↔
      0 < s.removed rules := by
  rw [modified_ofSources]
  constructor
  · intro hModified
    rcases List.mem_map.mp hModified with ⟨s', hs', hSame⟩
    rcases List.mem_filter.mp hs' with ⟨hs', hPositive⟩
    have hEq : s' = s :=
      List.inj_on_of_nodup_map hPaths hs' hMember hSame
    subst hEq
    simpa using hPositive
  · intro hPositive
    exact List.mem_map_of_mem
      (List.mem_filter.mpr ⟨hMember, by simpa using hPositive⟩)

/-
  When scrubbing a project succeeds, its code files hold what
  the rules leave of them, everything else is as it was, but
  for log files that debug records have been added to, and
  the report is right.
-/
theorem finished_of_runs
    (hProper : w.files.root.Proper)
    (hUnlogged : Unlogged root w)
    {report : Report}
    (hRuns : Runs (tree rules root) w report w') :
    ∃ sources, Finished rules root sources w w' report := by
  rcases runs_tree hRuns with
    ⟨real, paths, hReal, hListed, hEnds⟩
  rcases divided_of_ends hProper hUnlogged hReal hListed hEnds with
    ⟨place, sources, rest, rfl, hDivided, hAll,
      ⟨rfl, hResult⟩ | ⟨_, _, _, _, hFailed, _⟩⟩
  · have hReport : report = Report.ofSources rules sources := by
      unfold Report.ofSources
      rw [← Except.ok.inj hResult]
    subst hReport
    have hApart := hDivided.apart
    rw [List.append_nil] at hListed hAll hApart
    have hPaths : (sources.map Source.path).Nodup :=
      hApart.of_map
    have hModified := Report.modified_ofSources rules sources
    rw [hDivided.map_place] at hApart
    refine ⟨sources, hApart, ?all, ⟨real, hReal, hListed⟩,
      fun _ => hDivided.node, hDivided.effect,
      Report.scanned_ofSources rules sources,
      Report.removed_ofSources rules sources, hModified, ?once,
      ?changed⟩
    case all =>
      intro loc
      rw [hAll loc]
      constructor
      · rintro ⟨p, hp, rfl⟩
        rcases List.mem_map.mp hp with ⟨s, hs, rfl⟩
        exact ⟨s, hs, (hDivided.own s hs).1⟩
      · rintro ⟨s, hs, rfl⟩
        exact ⟨s.path, List.mem_map_of_mem hs,
          (hDivided.own s hs).1.symm⟩
    case once =>
      rw [hModified]
      exact hPaths.sublist (List.filter_sublist.map _)
    case changed =>
      intro s hs
      rw [Report.mem_modified_iff hPaths hs,
        hDivided.changed_iff hs]
  · cases hFailed

/- A project of one code file, and a log file beside it. -/
def soundWorld : World :=
  loggedWorld [("a.js", disabled), ("run.log", [])] "run.log"

theorem proper_soundWorld : soundWorld.files.root.Proper :=
  Node.proper_flat (by decide)

/- The code file of the project loses its comment. -/
theorem runs_soundWorld :
    ∃ report w',
      Runs (tree Rule.standard .top) soundWorld report w' ∧
        w'.files.root.at? ["run.log"] ≠ some (.file []) := by
  have hListed :
      soundWorld.files.codeFiles .top =
        .ok [⟨.root, ["a.js"]⟩] :=
    codeFiles_loggedWorld (by decide) (by decide +kernel)
  have hOk :
      (([⟨.root, ["a.js"]⟩].mapM
        (step Rule.standard)).run.run soundWorld).1.isOk =
        true := by
    decide +kernel
  have hGrown :
      (([⟨.root, ["a.js"]⟩].mapM
          (step Rule.standard)).run.run
        soundWorld).2.files.root.seen? ["run.log"] ≠
        some (.file []) := by
    decide +kernel
  rcases runs_of_isOk hOk with ⟨files, hRuns⟩
  refine ⟨⟨files⟩, _,
    ends_tree realPath_loggedWorld hListed hRuns, ?_⟩
  intro hEmpty
  exact hGrown (Node.seen?_eq_file_iff.mpr hEmpty)

theorem finished_soundWorld :
    ∃ report w' sources,
      soundWorld.files.root.Proper ∧
        Unlogged .top soundWorld ∧
        Runs (tree Rule.standard .top) soundWorld report w' ∧
        Finished Rule.standard .top sources soundWorld w'
          report := by
  have hUnlogged : Unlogged .top soundWorld :=
    unlogged_loggedWorld (by decide +kernel)
  rcases runs_soundWorld with ⟨report, w', hRuns, _⟩
  rcases finished_of_runs proper_soundWorld hUnlogged hRuns with
    ⟨sources, hFinished⟩
  exact ⟨report, w', sources, proper_soundWorld, hUnlogged,
    hRuns, hFinished⟩

/-
  Not all that is no code file is as it was: an open log file
  has a debug record more for each changed file.
-/
theorem not_all_others_kept :
    ¬ ∀ (rules : List Rule) (root : Path) (w w' : World)
        (report : Report),
      w.files.root.Proper →
        Runs (tree rules root) w report w' →
          ∀ loc, ¬ w.files.IsCodeFile root loc →
            w'.files.root.seen? loc =
              w.files.root.seen? loc := by
  intro hAll
  rcases runs_soundWorld with ⟨report, w', hRuns, hGrown⟩
  have hOther : ¬ soundWorld.files.IsCodeFile .top ["run.log"] := by
    intro hCode
    have hName :=
      Node.isCodePlace_singleton_iff.mp hCode.isCodePlace
    exact absurd hName (by decide +kernel)
  have hSame :=
    hAll _ _ _ _ _ proper_soundWorld hRuns _ hOther
  exact hGrown (Node.seen?_eq_file_iff.mp hSame)

------------------------------------------------------------
-- Failure
------------------------------------------------------------

/-
  A code file without a text has ended the work. The files
  before it have been scrubbed; it and the later ones are as
  they were, and each code file is either as it was or
  scrubbed as a whole.
-/
structure Aborted
    (rules : List Rule)
    (root : Path)
    (paths : List Path)
    (w w' : World)
    (fault : Utf8.Fault) : Prop where
  split :
    ∃ (sources : List Source) (p : Path) (later : List Path)
        (bytes : Bytes),
      paths = sources.map Source.path ++ p :: later ∧
        w.files.read p = .ok bytes ∧
        Utf8.decode bytes = .error fault ∧
        (∀ s ∈ sources,
          w.files.read s.path = .ok s.bytes ∧
            w'.files.read s.path = .ok (s.cleaned rules)) ∧
        (∀ q ∈ p :: later,
          w'.files.read q = w.files.read q) ∧
        Effect rules sources w w'
  whole :
    ∀ loc, w.files.IsCodeFile root loc →
      w'.files.root.at? loc = w.files.root.at? loc ∨
        ∃ s : Source,
          w.files.root.at? loc = some (.file s.bytes) ∧
            w'.files.root.at? loc =
              some (.file (s.cleaned rules))

/- If all listed files have been scrubbed, they have texts. -/
theorem Divided.decodes
    (hDivided : Divided rules place sources [] w w')
    {p : Path}
    (hMember : p ∈ sources.map Source.path ++ [])
    {bytes : Bytes}
    (hFile : w.files.root.at? (place p) = some (.file bytes))
    (fault : Utf8.Fault) :
    Utf8.decode bytes ≠ .error fault := by
  rw [List.append_nil] at hMember
  rcases List.mem_map.mp hMember with ⟨s, hs, rfl⟩
  rw [← (hDivided.own s hs).1, hDivided.node hs] at hFile
  rcases Option.some.inj hFile with ⟨⟩
  unfold Source.bytes
  rw [Utf8.decode_encode]
  simp

/-
  When a code file of a project has no text, and all of them
  can be opened, scrubbing fails by the first one without a
  text, with the files before it scrubbed and no others.
-/
theorem aborted_of_fault
    (hProper : w.files.root.Proper)
    (hUnlogged : Unlogged root w)
    (hReal : w.files.realPath root = .ok real)
    (hListed : w.files.codeFiles real = .ok paths)
    (hOpens : ∀ p ∈ paths, Opens w.files p)
    (hBroken :
      ∃ loc bytes fault,
        w.files.IsCodeFile root loc ∧
          w.files.root.at? loc = some (.file bytes) ∧
          Utf8.decode bytes = .error fault)
    (rules : List Rule) :
    ∃ fault w',
      Ends (tree rules root) w (.error (.decoding fault)) w' ∧
        Aborted rules root paths w w' fault := by
  rcases exists_ends (paths.mapM (step rules)) w with
    ⟨result, w', hEnds⟩
  rcases divided_of_ends hProper hUnlogged hReal hListed hEnds with
    ⟨place, sources, rest, rfl, hDivided, hAll,
      ⟨rfl, _⟩ | ⟨p, later, failure, rfl, rfl, hStops⟩⟩
  · rcases hBroken with ⟨loc, bytes, fault, hCode, hFile, hFault⟩
    rcases (hAll loc).mp hCode with ⟨p, hp, rfl⟩
    exact (hDivided.decodes hp hFile fault hFault).elim
  have hOpensRest :
      ∀ q ∈ p :: later, Opens w.files q :=
    fun q hq => hOpens q (List.mem_append_right _ hq)
  rcases hStops with
    ⟨_, _, hClosed⟩ | ⟨bytes, fault, hBad, hFault, rfl⟩
  · exact (hClosed (hOpensRest p (by simp))).elim
  refine ⟨fault, w', ends_tree hReal hListed hEnds,
    ⟨sources, p, later, bytes, rfl,
      FileSystem.read_eq_ok_iff.mpr ⟨_, hBad⟩, hFault,
      fun _ => hDivided.read_source,
      fun q hq => hDivided.read_rest hq (hOpensRest q hq),
      hDivided.effect⟩, ?whole⟩
  case whole =>
    intro loc hCode
    rcases (hAll loc).mp hCode with ⟨q, hq, rfl⟩
    rcases List.mem_append.mp hq with hEarly | hLate
    · rcases List.mem_map.mp hEarly with ⟨s, hs, rfl⟩
      rw [← (hDivided.own s hs).1]
      exact Or.inr ⟨s, hDivided.node hs,
        hDivided.effect.cleaned s hs⟩
    · exact Or.inl (hDivided.node_rest hLate)

/- Three code files, the second one without a text. -/
def brokenWorld (log : String) : World :=
  loggedWorld
    [("a.js", disabled), ("b.js", [0xff]), ("c.js", disabled),
      ("run.log", [])]
    log

/- The path of a file in the root directory. -/
def inTop (name : String) : Path :=
  ⟨.root, [name]⟩

theorem proper_brokenWorld (log : String) :
    (brokenWorld log).files.root.Proper :=
  Node.proper_flat (by decide)

theorem codeFiles_brokenWorld (log : String) :
    (brokenWorld log).files.codeFiles .top =
      .ok [inTop "a.js", inTop "b.js", inTop "c.js"] :=
  codeFiles_loggedWorld (by decide) (by decide +kernel)

theorem opens_brokenWorld (log : String) :
    ∀ p ∈ [inTop "a.js", inTop "b.js", inTop "c.js"],
      Opens (brokenWorld log).files p := by
  simp only [List.mem_cons, List.not_mem_nil, or_false]
  rintro p (rfl | rfl | rfl)
  · exact ⟨_, rfl⟩
  · exact ⟨_, rfl⟩
  · exact ⟨_, rfl⟩

theorem aborted_brokenWorld :
    ∃ fault w',
      let w := brokenWorld "run.log"
      let paths := [inTop "a.js", inTop "b.js", inTop "c.js"]
      w.files.root.Proper ∧
        Unlogged .top w ∧
        w.files.realPath .top = .ok .top ∧
        w.files.codeFiles .top = .ok paths ∧
        (∀ p ∈ paths, Opens w.files p) ∧
        (∃ loc bytes fault,
          w.files.IsCodeFile .top loc ∧
            w.files.root.at? loc = some (.file bytes) ∧
            Utf8.decode bytes = .error fault) ∧
        Ends (tree Rule.standard .top) w
            (.error (.decoding fault)) w' ∧
          Aborted Rule.standard .top paths w w' fault := by
  have hProper := proper_brokenWorld "run.log"
  have hListed := codeFiles_brokenWorld "run.log"
  have hUnlogged : Unlogged .top (brokenWorld "run.log") :=
    unlogged_loggedWorld (by decide +kernel)
  have hOpens := opens_brokenWorld "run.log"
  have hBroken :
      ∃ loc bytes fault,
        (brokenWorld "run.log").files.IsCodeFile .top loc ∧
          (brokenWorld "run.log").files.root.at? loc =
            some (.file bytes) ∧
          Utf8.decode bytes = .error fault := by
    refine ⟨["b.js"], [0xff], _,
      ⟨.top, [], _, ["b.js"], realPath_loggedWorld, rfl, rfl,
        ⟨?_, by simp⟩, [0xff], rfl⟩, rfl, rfl⟩
    exact Node.isCodePlace_singleton_iff.mpr (by decide +kernel)
  rcases aborted_of_fault hProper hUnlogged realPath_loggedWorld
      hListed hOpens hBroken Rule.standard with
    ⟨fault, w', hEnds, hAborted⟩
  exact ⟨fault, w', hProper, hUnlogged, realPath_loggedWorld,
    hListed, hOpens, hBroken, hEnds, hAborted⟩

/-
  Not all later files are as they were: one that is an open
  log file has a debug record more for each changed file.
-/
theorem not_all_later_kept :
    ¬ ∀ (rules : List Rule) (root real : Path) (w w' : World)
        (earlier later : List Path) (p : Path) (bytes : Bytes)
        (fault : Utf8.Fault) (result : Except Failure Report),
      w.files.root.Proper →
        w.files.realPath root = .ok real →
          w.files.codeFiles real =
            .ok (earlier ++ p :: later) →
            (∀ q ∈ earlier ++ p :: later, Opens w.files q) →
              w.files.read p = .ok bytes →
                Utf8.decode bytes = .error fault →
                  Ends (tree rules root) w result w' →
                    ∀ q ∈ later,
                      w'.files.read q = w.files.read q := by
  intro hAll
  have hOpens :
      ∀ p ∈ [inTop "a.js"] ++ inTop "b.js" :: [inTop "c.js"],
        Opens (brokenWorld "c.js").files p :=
    opens_brokenWorld "c.js"
  rcases exists_ends
      ([inTop "a.js", inTop "b.js", inTop "c.js"].mapM
        (step Rule.standard))
      (brokenWorld "c.js") with
    ⟨result, w', hEnds⟩
  have hSame :=
    hAll _ _ _ _ _ _ _ _ _ _ _ (proper_brokenWorld "c.js")
      realPath_loggedWorld (codeFiles_brokenWorld "c.js") hOpens
      rfl rfl
      (ends_tree realPath_loggedWorld
        (codeFiles_brokenWorld "c.js") hEnds)
      (inTop "c.js") (by simp)
  have hGrown :
      ((([inTop "a.js", inTop "b.js", inTop "c.js"].mapM
            (step Rule.standard)).run.run
          (brokenWorld "c.js")).2.files.read
        (inTop "c.js")).toOption ≠ some disabled := by
    decide +kernel
  have hBefore :
      (brokenWorld "c.js").files.read (inTop "c.js") =
        .ok disabled :=
    rfl
  unfold Ends at hEnds
  rw [hEnds, hSame, hBefore] at hGrown
  exact hGrown rfl

end Scrub

end BiomeMigration
