import BiomeMigration.Proofs.Biome.Configuration
import BiomeMigration.Proofs.Files.Entrance
import BiomeMigration.Proofs.Session.Records

/-
  The writing of a configuration into a directory. It is made
  if there is none, and otherwise left alone, so that calls
  in a row leave the one that the first of them has made. A
  path that the system refuses stops each call alike.

  Main declarations:
    * `FileSystem.HasOpened`
    * `Biome.writeAll`
    * `Biome.writeAll_found`
    * `Biome.writeAll_refused`
    * `Biome.Created`
    * `Biome.written_once`
-/

------------------------------------------------------------
-- Log Files
------------------------------------------------------------

namespace BiomeMigration

/- There is a file at each place that is held open. -/
def FileSystem.HasOpened (fs : FileSystem) : Prop :=
  ∀ loc ∈ fs.opened, fs.HasFile loc

namespace Session

variable {w w' : World} {level : Level} {p : Path}
variable {loc : Location} {content : Bytes}

theorem Logged.start_eq
    (hLogged : Logged level w w')
    (p : Path) :
    w'.files.start p = w.files.start p := by
  rw [hLogged.frame]
  rfl

theorem Logged.opened_eq
    (hLogged : Logged level w w') :
    w'.files.opened = w.files.opened := by
  rw [hLogged.frame]

theorem Logged.begins
    (hLogged : Logged level w w')
    (hBegins : w.files.Begins p) :
    w'.files.Begins p :=
  hBegins.of_grows hLogged.touches.grows (hLogged.start_eq p)

/- A file that a path leads to may grow if it is a log file. -/
theorem Logged.leadsTo
    (hLogged : Logged level w w')
    (hBegins : w.files.Begins p)
    (hLeads : w.files.LeadsTo p loc content) :
    ∃ more,
      w'.files.LeadsTo p loc (content ++ more) ∧
        (¬ w.logger.Receives level w.files loc → more = []) := by
  have hNode := hLeads.node_of_begins hBegins
  have hLater :
      ∀ {new}, w'.files.root.at? loc = some (.file new) →
        w'.files.LeadsTo p loc new :=
    hLeads.of_begins hBegins hLogged.touches.grows
      (hLogged.start_eq p)
  rcases hLogged.kept loc with
    hSame | ⟨hReceives, old, more, hOld, hNew⟩
  · rw [Node.seen?_eq_file_iff.mpr hNode] at hSame
    refine ⟨[], ?_, fun _ => rfl⟩
    rw [List.append_nil]
    exact hLater (Node.seen?_eq_file_iff.mp hSame)
  · rw [hNode] at hOld
    rcases Option.some.inj hOld with ⟨⟩
    exact ⟨more, hLater hNew,
      fun hOther => (hOther hReceives).elim⟩

/- A file that is not held open does not grow. -/
theorem Logged.leadsTo_of_not_opened
    (hLogged : Logged level w w')
    (hBegins : w.files.Begins p)
    (hLeads : w.files.LeadsTo p loc content)
    (hClosed : loc ∉ w.files.opened) :
    w'.files.LeadsTo p loc content := by
  rcases hLogged.leadsTo hBegins hLeads with
    ⟨more, hLater, hNone⟩
  rw [hNone fun hReceives => hClosed hReceives.2.2,
    List.append_nil] at hLater
  exact hLater

end Session

namespace Biome

open Session
open FileSystem (Enters pathLimit)

variable {root : Path} {w w' : World} {fs : FileSystem}
variable {archetype : Archetype} {version : Text}
variable {loc above : Location} {old bytes : Bytes}
variable {fault : PathFault}

------------------------------------------------------------
-- Paths
------------------------------------------------------------

theorem isUsualName_fileName : Path.IsUsualName fileName where
  entry := by decide +kernel
  short := by decide +kernel
  plain := by decide +kernel

/-
  The system refuses the path of a configuration: the path
  cannot be looked up, or no file can be made at it.
-/
def Refuses
    (fs : FileSystem)
    (p : Path)
    (fault : PathFault) : Prop :=
  fs.exists? p = .error fault ∨
    fs.exists? p = .ok false ∧
      fs.openForWriting p = .error fault

/- A path is too long, or a link is at its end. -/
def IsBlocked (fs : FileSystem) (p : Path) : Prop :=
  pathLimit < p.text.utf8ByteSize ∨
    ∃ loc target,
      fs.locate .link p = .ok ⟨loc, some (.link target)⟩

/- No other path is refused in a directory. -/
theorem isBlocked_of_refuses
    (hEnters : fs.Enters root above)
    (hRefuses : Refuses fs (root.child fileName) fault) :
    IsBlocked fs (root.child fileName) := by
  by_cases hText :
      (root.child fileName).text.utf8ByteSize ≤ pathLimit
  · have hPlace :
        ∀ ending,
          (∀ target,
            fs.root.at? (above ++ [fileName]) =
                some (.link target) →
              ending = .link) →
            fs.locate ending (root.child fileName) =
              .ok ⟨above ++ [fileName],
                fs.root.at? (above ++ [fileName])⟩ :=
      fun _ => hEnters.locate_child isUsualName_fileName hText
    cases hEntry : fs.root.at? (above ++ [fileName]) with
    | none =>
        exfalso
        have hFound := fun ending =>
          hPlace ending (by simp [hEntry])
        rw [hEntry] at hFound
        rcases hRefuses with hLost | ⟨_, hOpen⟩
        · unfold FileSystem.exists? FileSystem.follow? at hLost
          rw [hFound .target] at hLost
          cases hLost
        · unfold FileSystem.openForWriting at hOpen
          rw [hFound .newFile] at hOpen
          cases hOpen
    | some node =>
        cases node with
        | link target =>
            have hLink := hPlace .link fun _ _ => rfl
            rw [hEntry] at hLink
            exact Or.inr ⟨_, target, hLink⟩
        | _ =>
            exfalso
            have hFound := hPlace .target (by simp [hEntry])
            rw [hEntry] at hFound
            have hThere :=
              FileSystem.exists?_eq_true_iff.mpr ⟨_, _, hFound⟩
            rcases hRefuses with hLost | ⟨hMissing, _⟩
            · rw [hThere] at hLost
              cases hLost
            · rw [hThere] at hMissing
              cases hMissing
  · exact Or.inl (Nat.not_le.mp hText)

/- A file that is to be made has nothing at its place. -/
theorem at?_of_missing
    (hBegins : fs.Begins (root.child fileName))
    (hMissing : fs.exists? (root.child fileName) = .ok false)
    (hOpen :
      fs.openForWriting (root.child fileName) =
        .ok (loc, old)) :
    fs.root.at? loc = none := by
  rcases FileSystem.locate_of_openForWriting hOpen with
    ⟨node?, hPlace⟩
  have hFound :=
    (FileSystem.locate_of_begins (Node.Grows.refl fs.root)
      (Or.inr ⟨rfl, rfl⟩) hBegins rfl hPlace).2
  dsimp only at hFound
  cases hNode : fs.root.at? loc with
  | none => rfl
  | some node =>
      rw [hNode] at hFound
      rw [FileSystem.exists?_eq_true_iff.mpr ⟨_, _, hFound⟩]
        at hMissing
      cases hMissing

------------------------------------------------------------
-- One Call
------------------------------------------------------------

/- What is said if there is a configuration. -/
def foundRecord : Record where
  level := .warning
  source := Record.sourceOf "synthesizer"
  message :=
    "A biome.json file already exists. It will not be overwritten."
  cause? := none
  stack? := none

/- What is said when a configuration has been made. -/
def createdRecord (archetype : Archetype) : Record where
  level := .info
  source := Record.sourceOf "synthesizer"
  message := s!"Created biome.json for project type: {archetype.id}"
  cause? := none
  stack? := none

theorem ends_write_found
    (hThere : w.files.exists? (root.child fileName) = .ok true)
    (archetype : Archetype)
    (version : Text) :
    Ends (write root archetype version) w (.ok false)
      (recorded foundRecord w) := by
  unfold write
  apply (ends_ofFiles_of_ok hThere).bind
  rw [if_pos rfl]
  exact (ends_log _ _ _ w).bind (ends_pure_iff.mpr ⟨rfl, rfl⟩)

theorem ends_write_created
    (hMissing : w.files.exists? (root.child fileName) = .ok false)
    (hOpen :
      w.files.openForWriting (root.child fileName) =
        .ok (loc, old))
    (archetype : Archetype)
    (version : Text) :
    Ends (write root archetype version) w (.ok true)
      (recorded (createdRecord archetype)
        { w with
          files :=
            w.files.setFile loc (encoded archetype version) }) := by
  have hWritten :
      Ends
        (writeText (root.child fileName) (text archetype version))
        w (.ok ())
        { w with
          files :=
            w.files.setFile loc (encoded archetype version) } := by
    apply ends_writeText_iff.mpr
    rw [FileSystem.writeText_eq, hOpen, encode_text]
    exact ⟨rfl, rfl⟩
  unfold write
  apply (ends_ofFiles_of_ok hMissing).bind
  rw [if_neg (by simp)]
  apply hWritten.bind
  exact (ends_log _ _ _ _).bind (ends_pure_iff.mpr ⟨rfl, rfl⟩)

theorem ends_write_refused
    (hRefuses : Refuses w.files (root.child fileName) fault)
    (archetype : Archetype)
    (version : Text) :
    Ends (write root archetype version) w
      (.error (.path fault)) w := by
  unfold write
  rcases hRefuses with hLost | ⟨hMissing, hOpen⟩
  · exact (ends_ofFiles_of_error hLost).bind_error _
  · have hFailed :
        Ends
          (writeText (root.child fileName)
            (text archetype version))
          w (.error (.path fault)) w := by
      apply ends_writeText_iff.mpr
      rw [FileSystem.writeText_eq, hOpen]
      exact ⟨rfl, rfl⟩
    apply (ends_ofFiles_of_ok hMissing).bind
    rw [if_neg (by simp)]
    exact hFailed.bind_error _

------------------------------------------------------------
-- Calls in a Row
------------------------------------------------------------

/-
  What calls come to, one after the other, and the world
  after them. A call that fails does not stop the others.
-/
def writeAll (root : Path) :
    List (Archetype × Text) → World →
      List (Except Failure Bool) × World
  | [], w => ([], w)
  | (archetype, version) :: calls, w =>
      let (result, w) := (write root archetype version).run.run w
      let (results, w) := writeAll root calls w
      (result :: results, w)

variable {calls : List (Archetype × Text)}

theorem writeAll_cons
    {result : Except Failure Bool}
    (hEnds : Ends (write root archetype version) w result w')
    (calls : List (Archetype × Text)) :
    writeAll root ((archetype, version) :: calls) w =
      (result :: (writeAll root calls w').1,
        (writeAll root calls w').2) := by
  unfold Ends at hEnds
  rw [writeAll, hEnds]

/- What is there stays there, and is found by each call. -/
theorem writeAll_found
    (hBegins : w.files.Begins (root.child fileName))
    (hThere : w.files.exists? (root.child fileName) = .ok true)
    (calls : List (Archetype × Text)) :
    (writeAll root calls w).1 = calls.map (fun _ => .ok false) ∧
      Logged .warning w (writeAll root calls w).2 := by
  induction calls generalizing w with
  | nil => exact ⟨rfl, Logged.refl _ w⟩
  | cons call calls ih =>
      rcases call with ⟨archetype, version⟩
      have hFirst := logged_recorded foundRecord w
      have hStill :=
        FileSystem.exists?_of_begins hBegins
          hFirst.touches.grows (hFirst.start_eq _) hThere
      rcases ih (hFirst.begins hBegins) hStill with
        ⟨hResults, hRest⟩
      rw [writeAll_cons (ends_write_found hThere _ _), hResults]
      exact ⟨rfl, hFirst.trans hRest⟩

/- What is refused once is refused again. -/
theorem writeAll_refused
    (hRefuses : Refuses w.files (root.child fileName) fault)
    (calls : List (Archetype × Text)) :
    writeAll root calls w =
      (calls.map (fun _ => .error (.path fault)), w) := by
  induction calls with
  | nil => rfl
  | cons call calls ih =>
      rcases call with ⟨archetype, version⟩
      rw [writeAll_cons (ends_write_refused hRefuses _ _), ih]
      rfl

/-
  Calls are refused: none of them makes anything. The path is
  too long, or a link is there that leads to no file and to
  no place for one.
-/
structure Refused
    (root : Path)
    (calls : List (Archetype × Text))
    (w : World)
    (results : List (Except Failure Bool))
    (w' : World) : Prop where
  missing : w.files.exists? (root.child fileName) ≠ .ok true
  blocked : IsBlocked w.files (root.child fileName)
  results :
    ∃ fault, results = calls.map fun _ => .error (.path fault)
  world : w' = w

/-
  Calls find a configuration. The file keeps its bytes, but
  for the warnings at its end if it is an open log file.
-/
structure Found
    (root : Path)
    (calls : List (Archetype × Text))
    (w : World)
    (results : List (Except Failure Bool))
    (w' : World) : Prop where
  there : w.files.exists? (root.child fileName) = .ok true
  results : results = calls.map fun _ => .ok false
  logged : Logged .warning w w'
  file :
    ∀ loc content,
      w.files.LeadsTo (root.child fileName) loc content →
        ∃ more,
          w'.files.LeadsTo (root.child fileName) loc
              (content ++ more) ∧
            (¬ w.logger.Receives .warning w.files loc →
              more = [])

/-
  The first call makes the configuration, and later ones find
  it. The file is that of the first call.
-/
structure Created
    (root : Path)
    (archetype : Archetype)
    (version : Text)
    (later : List (Archetype × Text))
    (w : World)
    (results : List (Except Failure Bool))
    (w' : World) : Prop where
  missing : w.files.exists? (root.child fileName) = .ok false
  results : results = .ok true :: later.map fun _ => .ok false
  file :
    ∃ loc content,
      w'.files.LeadsTo (root.child fileName) loc content ∧
        Holds content archetype version

theorem created_of_opens
    (hWorking : w.files.HasWorking)
    (hOpened : w.files.HasOpened)
    (hMissing : w.files.exists? (root.child fileName) = .ok false)
    (hOpen :
      w.files.openForWriting (root.child fileName) =
        .ok (loc, old))
    (archetype : Archetype)
    (version : Text)
    (later : List (Archetype × Text)) :
    Created root archetype version later w
      (writeAll root ((archetype, version) :: later) w).1
      (writeAll root ((archetype, version) :: later) w).2 := by
  have hBegins := hWorking.begins (root.child fileName)
  have hNone := at?_of_missing hBegins hMissing hOpen
  have hClosed : loc ∉ w.files.opened := by
    intro hHeld
    rcases hOpened loc hHeld with ⟨content, hFile⟩
    rw [hNone] at hFile
    cases hFile
  -- The file is set first, and then the record is written.
  let v : World :=
    { w with
      files :=
        w.files.setFile loc (encoded archetype version) }
  have hSet :
      v.files.LeadsTo (root.child fileName) loc
        (encoded archetype version) :=
    FileSystem.leadsTo_setFile hBegins hOpen _
  have hSetBegins : v.files.Begins (root.child fileName) :=
    FileSystem.begins_setFile hBegins hOpen _
  have hFirst := logged_recorded (createdRecord archetype) v
  have hLeads :=
    hFirst.leadsTo_of_not_opened hSetBegins hSet hClosed
  have hLaterBegins := hFirst.begins hSetBegins
  rcases writeAll_found hLaterBegins
      (FileSystem.exists?_of_leadsTo hLeads) later with
    ⟨hResults, hRest⟩
  rw [writeAll_cons (ends_write_created hMissing hOpen _ _),
    hResults]
  exact
    { missing := hMissing
      results := rfl
      file :=
        ⟨loc, encoded archetype version,
          hRest.leadsTo_of_not_opened hLaterBegins hLeads
            (hFirst.opened_eq ▸ hClosed),
          holds_encoded archetype version⟩ }

/-
  A directory is given a configuration once. The first call
  makes it if there is none; it is ASCII, ends with one line
  break and is read as what was to be written, in the same
  order. All other calls leave the file as it is, but for
  warnings if it is an open log file. Where the system
  refuses the path, nothing happens at all.
-/
theorem written_once
    (hWorking : w.files.HasWorking)
    (hOpened : w.files.HasOpened)
    (hRoot : w.files.isDirectory? root = .ok true)
    (archetype : Archetype)
    (version : Text)
    (later : List (Archetype × Text)) :
    let calls := (archetype, version) :: later
    let results := (writeAll root calls w).1
    let w' := (writeAll root calls w).2
    Refused root calls w results w' ∨
      Found root calls w results w' ∨
      Created root archetype version later w results w' := by
  intro calls results w'
  have hBegins := hWorking.begins (root.child fileName)
  have hRefused :
      ∀ fault, Refuses w.files (root.child fileName) fault →
        Refused root calls w results w' := by
    intro fault hRefuses
    rcases FileSystem.exists_enters (hWorking.begins root) hRoot
      with ⟨above, hEnters⟩
    have hAll := writeAll_refused hRefuses calls
    refine ⟨?_, isBlocked_of_refuses hEnters hRefuses,
      ⟨fault, congrArg Prod.fst hAll⟩, congrArg Prod.snd hAll⟩
    rcases hRefuses with hLost | ⟨hMissing, _⟩
    · simp [hLost]
    · simp [hMissing]
  cases hThere : w.files.exists? (root.child fileName) with
  | error fault => exact Or.inl (hRefused fault (Or.inl hThere))
  | ok isThere =>
      cases isThere with
      | true =>
          rcases writeAll_found hBegins hThere calls with
            ⟨hResults, hLogged⟩
          exact Or.inr (Or.inl ⟨hThere, hResults, hLogged,
            fun _ _ hLeads => hLogged.leadsTo hBegins hLeads⟩)
      | false =>
          cases hOpen :
              w.files.openForWriting (root.child fileName) with
          | error fault =>
              exact Or.inl
                (hRefused fault (Or.inr ⟨hThere, hOpen⟩))
          | ok found =>
              exact Or.inr (Or.inr
                (created_of_opens hWorking hOpened hThere hOpen
                  archetype version later))

------------------------------------------------------------
-- A Version with Escapes
------------------------------------------------------------

/- A world whose working directory has some entries. -/
def worldOf
    (entries : Node.Entries)
    (opened : List Location)
    (logger : Logger) : World where
  files :=
    { root := .directory [("project", .directory entries)]
      working := ["project"]
      home := .top
      homes := []
      opened := opened }
  logger := logger
  lines := []
  journal := []

/- The path of the working directory. -/
def herePath : Path := ⟨.working, []⟩

/- A quote, a backslash, a control and a great code point. -/
def oddVersion : Text := Text.ofString "2\"\\\x07😀"

/- A call for another project and version. -/
def otherCall : Archetype × Text :=
  (.react, Text.ofString "2.0.0")

/- The working directory is empty. -/
def emptyWorld : World := worldOf [] [] .initial

/-
  The first of two calls makes the configuration, and the
  odd version is read back.
-/
theorem written_once_oddVersion :
    emptyWorld.files.HasWorking ∧
      emptyWorld.files.HasOpened ∧
      emptyWorld.files.isDirectory? herePath = .ok true ∧
      (writeAll herePath [(.node, oddVersion), otherCall]
          emptyWorld).1 =
        [.ok true, .ok false] ∧
      ∃ loc content,
        (writeAll herePath [(.node, oddVersion), otherCall]
            emptyWorld).2.files.LeadsTo
            (herePath.child fileName) loc content ∧
          (∀ b ∈ content, b < 0x80) ∧
          Json.ofBytes 9 content =
            .ok (configuration .node oddVersion) := by
  have hWorking : emptyWorld.files.HasWorking := ⟨_, rfl⟩
  have hOpened : emptyWorld.files.HasOpened := nofun
  have hRoot :
      emptyWorld.files.isDirectory? herePath = .ok true := by
    decide +kernel
  have hMissing :
      emptyWorld.files.exists? (herePath.child fileName) =
        .ok false := by
    decide +kernel
  have hPlace :
      emptyWorld.files.locate .link (herePath.child fileName) =
        .ok ⟨["project", fileName], none⟩ :=
    rfl
  have hPlain : oddVersion.IsPlain := Text.isPlain_ofChars _
  refine ⟨hWorking, hOpened, hRoot, ?_⟩
  rcases written_once hWorking hOpened hRoot .node oddVersion
      [otherCall] with
    hRefused | hFound | hCreated
  · rcases hRefused.blocked with hLong | ⟨loc, target, hLink⟩
    · exact absurd hLong (by decide +kernel)
    · rw [hPlace] at hLink
      cases hLink
  · have hThere := hFound.there
    rw [hMissing] at hThere
    cases hThere
  · rcases hCreated.file with ⟨loc, content, hLeads, hHolds⟩
    exact ⟨hCreated.results, loc, content, hLeads, hHolds.ascii,
      hHolds.reads hPlain 9 (Nat.le_refl _)⟩

------------------------------------------------------------
-- Refused Paths and Log Files
------------------------------------------------------------

/- A configuration that is a link to itself. -/
def loopWorld : World :=
  worldOf [(fileName, .link fileName)] [] .initial

/- A configuration that is the open log file. -/
def loggedWorld : World :=
  worldOf [(fileName, .file [])] [["project", fileName]]
    ((Logger.plain false).add (.file ["project", fileName]))

theorem refuses_loopWorld :
    Refuses loopWorld.files (herePath.child fileName)
      (.refused .tooManyLinks fileName) := by
  right
  decide +kernel

/- Steps up from the root, as many as a path can have. -/
set_option maxRecDepth 10000 in
theorem exists_long_path :
    ∃ p : Path,
      (p.child fileName).hasNul = false ∧
        pathLimit < (p.child fileName).text.utf8ByteSize ∧
        loggedWorld.files.isDirectory? p = .ok true :=
  ⟨⟨.root, List.replicate 1362 ".."⟩, by decide +kernel,
    by decide +kernel, by decide +kernel⟩

theorem refuses_of_long
    {p : Path}
    (hNul : p.hasNul = false)
    (hLong : pathLimit < p.text.utf8ByteSize) :
    Refuses fs p (.refused .nameTooLong p.text) := by
  left
  unfold FileSystem.exists? FileSystem.follow?
  rw [FileSystem.locate_of_long hNul hLong]
  rfl

/-
  Not each call comes to a result: a link may lead in a
  circle, and the path of the directory may be as long as a
  path can be. And a configuration that is found need not
  keep its bytes, if it is the log file.
-/
theorem not_always_written :
    (¬ ∀ (root : Path) (archetype : Archetype) (version : Text)
        (w : World),
      w.files.HasWorking → w.files.HasOpened →
        version.IsPlain →
          w.files.isDirectory? root = .ok true →
            (root.child fileName).text.utf8ByteSize ≤ pathLimit →
              ∃ written w',
                Runs (write root archetype version) w written
                  w') ∧
      (¬ ∀ (root : Path) (archetype : Archetype)
          (version : Text) (w : World),
        w.files.HasWorking → w.files.HasOpened →
          version.IsPlain →
            w.files.isDirectory? root = .ok true →
              (∀ loc target,
                w.files.locate .link (root.child fileName) ≠
                  .ok ⟨loc, some (.link target)⟩) →
                ∃ written w',
                  Runs (write root archetype version) w written
                    w') ∧
      ¬ ∀ (root : Path) (archetype : Archetype) (version : Text)
          (w w' : World) (content : Bytes),
        w.files.HasWorking → w.files.HasOpened →
          version.IsPlain →
            w.files.isDirectory? root = .ok true →
              Runs (write root archetype version) w false w' →
                w.files.read (root.child fileName) =
                    .ok content →
                  w'.files.read (root.child fileName) =
                    .ok content := by
  have hPlain : oddVersion.IsPlain := Text.isPlain_ofChars _
  have hOpened : loggedWorld.files.HasOpened := by
    intro loc hHeld
    rw [List.mem_singleton.mp hHeld]
    exact ⟨[], rfl⟩
  refine ⟨fun hAll => ?_, fun hAll => ?_, fun hAll => ?_⟩
  · rcases hAll herePath .node oddVersion loopWorld ⟨_, rfl⟩ nofun
        hPlain (by decide +kernel) (by decide +kernel) with
      ⟨written, w', hRuns⟩
    cases ((runs_iff_ends.mp hRuns).unique
      (ends_write_refused refuses_loopWorld _ _)).1
  · rcases exists_long_path with ⟨p, hNul, hLong, hRoot⟩
    have hLost :
        loggedWorld.files.locate .link (p.child fileName) =
          .error _ :=
      FileSystem.locate_of_long hNul hLong
    rcases hAll p .node oddVersion loggedWorld ⟨_, rfl⟩
        hOpened hPlain hRoot (by simp [hLost]) with
      ⟨written, w', hRuns⟩
    cases ((runs_iff_ends.mp hRuns).unique
      (ends_write_refused (refuses_of_long hNul hLong) _ _)).1
  · have hRuns :
        Runs (write herePath .node oddVersion) loggedWorld false
          _ :=
      runs_of_toOption (by decide +kernel)
    have hSame :=
      hAll herePath .node oddVersion loggedWorld _ [] ⟨_, rfl⟩
        hOpened hPlain (by decide +kernel) hRuns
        (by decide +kernel)
    have hGrown :
        ((write herePath .node oddVersion).run.run
          loggedWorld).2.files.read (herePath.child fileName) ≠
            .ok [] := by
      decide +kernel
    exact hGrown hSame

end Biome

end BiomeMigration
