import BiomeMigration.Proofs.Files.Opening
import BiomeMigration.Proofs.Package.Writing

/-
  Reading and writing a manifest are inverse to each other.
  A manifest that was read and holds no lone surrogate can
  be written wherever its file can be opened, which is so
  where it was read. It is read back as it was, with all
  members in their order, and written once more it leaves
  its file as it is, to the byte.

  Main declarations:
    * `Manifest.read_of_leadsTo`
    * `Manifest.WrittenBack`
    * `Manifest.written_back`
-/

namespace BiomeMigration

namespace Manifest

open Session

variable {m : Manifest} {root source : Path}
variable {fs : FileSystem} {w w' : World}
variable {loc : Location} {old bytes : Bytes}

------------------------------------------------------------
-- Writing and Reading Back
------------------------------------------------------------

/- A manifest whose text has an encoding is written. -/
theorem runs_write
    (hOpen :
      w.files.openForWriting (root.child fileName) =
        .ok (loc, old))
    (hBytes : m.text.encode = .ok bytes) :
    Runs (m.write root) w ()
      { w with files := w.files.setFile loc bytes } := by
  apply Session.ends_writeText_iff.mpr
  rw [FileSystem.writeText_eq, hOpen]
  dsimp only
  rw [hBytes]
  exact ⟨rfl, rfl⟩

/- What has been put into its file is read as the manifest. -/
theorem read_of_leadsTo
    (hSound : m.IsSound fs.depths.json)
    (hBytes : m.text.encode = .ok bytes)
    (hLeads : fs.LeadsTo (root.child fileName) loc bytes) :
    Manifest.read fs root = .ok m :=
  read_eq_ok_iff.mpr
    ⟨loc, bytes, hLeads,
      ofBytes_text hSound (survives_of_isSound hSound) hBytes⟩

/-
  The manifest has been written with no fault. Its text is in
  the file, closed by one line break; it is read back, and
  to write it again changes nothing in the world.
-/
structure WrittenBack
    (m : Manifest)
    (root : Path)
    (w w' : World) : Prop where
  runs : Runs (m.write root) w () w'
  file :
    ∃ bytes front,
      m.text.encode = .ok bytes ∧
        w'.files.read (root.child fileName) = .ok bytes ∧
        bytes = front ++ [0x7D, 0x0A]
  same : Manifest.read w'.files root = .ok m
  again : Runs (m.write root) w' () w'

theorem writtenBack_of_opens
    (hSound : m.IsSound w.files.depths.json)
    (hPlain : m.IsPlain)
    (hWorking : w.files.HasWorking)
    (hOpen :
      w.files.openForWriting (root.child fileName) =
        .ok (loc, old)) :
    ∃ w', m.WrittenBack root w w' := by
  rcases encode_text_iff.mpr hPlain with ⟨bytes, hBytes⟩
  rcases Json.encode_object_closes hBytes with ⟨front, hFront⟩
  have hLeads :=
    FileSystem.leadsTo_setFile (hWorking.begins _) hOpen bytes
  let written : World :=
    { w with files := w.files.setFile loc bytes }
  have hAgain : Runs (m.write root) written () written := by
    have hRuns :=
      @runs_write m root written loc bytes bytes hLeads.opens
        hBytes
    rw [FileSystem.setFile_setFile] at hRuns
    exact hRuns
  exact ⟨written,
    { runs := runs_write hOpen hBytes
      file :=
        ⟨bytes, front, hBytes,
          FileSystem.read_eq_ok_iff.mpr ⟨loc, hLeads⟩, hFront⟩
      same := read_of_leadsTo hSound hBytes hLeads
      again := hAgain }⟩

/-
  A manifest that was read is written and read back in any
  world in which its file can be opened and values may nest
  as deep, and it can be opened where the manifest was read.
-/
theorem written_back
    (hRead : Manifest.read fs source = .ok m)
    (hPlain : m.IsPlain) :
    (∃ found,
      fs.openForWriting (source.child fileName) = .ok found) ∧
      ∀ w root,
        w.files.HasWorking →
        fs.depths.json ≤ w.files.depths.json →
        (∃ found,
          w.files.openForWriting (root.child fileName) =
            .ok found) →
        ∃ w', m.WrittenBack root w w' := by
  constructor
  · rcases read_eq_ok_iff.mp hRead with ⟨loc, old, hLeads, _⟩
    exact ⟨_, hLeads.opens⟩
  · rintro w root hWorking hRoom ⟨⟨loc, old⟩, hOpen⟩
    exact writtenBack_of_opens
      ((isSound_of_read hRead).mono hRoom) hPlain hWorking hOpen

------------------------------------------------------------
-- A Manifest with Escapes
------------------------------------------------------------

/-
  A manifest in one line with a pair of escapes for one
  character, a great number, empty values and the line
  breaks of another system.
-/
def escapedText : List Char :=
  ("\x7b\"name\": \"\\ud83d\\ude00\\u000b\\\"\",\r\n" ++
    "\"big\":100000000000000000000,\"x\":[ ],\"y\":\x7b\x7d," ++
    "\"list\":[1.50,\x7b\"a\":null\x7d]\x7d").toList

/- The manifest as it is written. -/
def settledText : List Char :=
  ("\x7b\n  \"name\": \"😀\\u000b\\\"\",\n" ++
    "  \"big\": 100000000000000000000,\n" ++
    "  \"x\": [],\n  \"y\": \x7b\x7d,\n" ++
    "  \"list\": [\n    1.5,\n    \x7b\n" ++
    "      \"a\": null\n    \x7d\n  ]\n\x7d\n").toList

/- A project whose directory is the working directory. -/
def escapedWorld : World :=
  .initial
    { root :=
        .directory
          [("project",
            .directory
              [("package.json",
                .file (Utf8.encode escapedText))])]
      working := ["project"]
      home := ⟨.root, []⟩
      homes := []
      opened := [] }
    []

/- The manifest of a project is written as a text. -/
def isWrittenAs
    (fs : FileSystem)
    (root : Path)
    (text : List Char) : Bool :=
  match Manifest.read fs root with
  | .ok m => m.text.encode.toOption == some (Utf8.encode text)
  | .error _ => false

theorem written_back_escaped :
    ∃ (m : Manifest) (w' : World),
      Manifest.read escapedWorld.files ⟨.working, []⟩ = .ok m ∧
        m.IsPlain ∧
        escapedWorld.files.HasWorking ∧
        m.WrittenBack ⟨.working, []⟩ escapedWorld w' ∧
        w'.files.read ⟨.working, [fileName]⟩ =
          .ok (Utf8.encode settledText) := by
  have hEvaluated :
      isWrittenAs escapedWorld.files ⟨.working, []⟩
        settledText = true := by
    decide +kernel
  unfold isWrittenAs at hEvaluated
  split at hEvaluated
  · next m hRead =>
      have hText := eq_of_beq hEvaluated
      cases hBytes : m.text.encode with
      | error fault =>
          rw [hBytes] at hText
          cases hText
      | ok bytes =>
          rw [hBytes] at hText
          have hSettled := Option.some.inj hText
          have hPlain := encode_text_iff.mp ⟨_, hBytes⟩
          have hWorking : escapedWorld.files.HasWorking :=
            ⟨_, rfl⟩
          have hBack := written_back hRead hPlain
          rcases hBack.2 _ _ hWorking (Nat.le_refl _) hBack.1 with
            ⟨w', hWritten⟩
          refine ⟨m, w', hRead, hPlain, hWorking, hWritten, ?_⟩
          rcases hWritten.file with ⟨bytes, _, hSame, hFile, _⟩
          rw [hBytes] at hSame
          rw [← hSettled, Except.ok.inj hSame]
          exact hFile
  · cases hEvaluated

end Manifest

end BiomeMigration
