import BiomeMigration.Proofs.Files.Touch
import BiomeMigration.Proofs.Json.Survival
import BiomeMigration.Proofs.Package.Manifest
import BiomeMigration.Proofs.Session.Ends

/-
  How the writing of a manifest ends. All numbers of a
  manifest that was read survive, so that a manifest without
  lone surrogates is read back from its file; with one, the
  file is left empty.

  Main declarations:
    * `Manifest.IsObtained`
    * `Manifest.survives_of_isSound`
    * `Manifest.WriteEnd`
    * `Manifest.writeEnd_of_ends`
-/

------------------------------------------------------------
-- Sound Values
------------------------------------------------------------

namespace BiomeMigration

namespace Json

/- The numbers of a sound value survive. -/
theorem hasSurvived_of_isSound
    (v : Json)
    (hSound : v.IsSound) :
    v.HasSurvived := by
  cases v with
  | number x => exact Binary64.IsCanonical.survives hSound
  | _ => trivial

end Json

namespace Manifest

variable {room : Nat} {m : Manifest} {root : Path}
variable {fs fs' : FileSystem}

theorem survives_of_isSound
    (hSound : m.IsSound room) :
    m.Survives :=
  hSound.fitsAt_object.1.imp Json.hasSurvived_of_isSound

------------------------------------------------------------
-- Obtained Manifests
------------------------------------------------------------

/-
  A manifest that has been read, its containers no deeper
  than there is room, and maybe edited.
-/
inductive IsObtained (room : Nat) : Manifest → Prop where
  | read
      {fs : FileSystem}
      {root : Path}
      {m : Manifest} :
      fs.depths.json ≤ room →
      Manifest.read fs root = .ok m → IsObtained room m
  | withoutLegacySettings
      {m : Manifest} :
      IsObtained room m →
      IsObtained room m.withoutLegacySettings
  | withScripts
      {m : Manifest}
      (manager : Manager)
      (typescript : Bool) :
      IsObtained room m →
      IsObtained room
        (m.withScripts (scripts manager typescript))

theorem isSound_of_read
    (hRead : Manifest.read fs root = .ok m) :
    m.IsSound fs.depths.json := by
  rcases read_eq_ok_iff.mp hRead with ⟨_, _, _, hManifest⟩
  exact isSound_of_ofBytes hManifest

/- A sound manifest is so where there is more room. -/
theorem IsSound.mono
    {more : Nat}
    (hSound : m.IsSound room)
    (hLe : room ≤ more) :
    m.IsSound more := by
  rcases hSound with ⟨hDepth, hKeys, hValues⟩
  refine ⟨hDepth.trans_le hLe, hKeys, ?_⟩
  intro x hx
  rcases hValues x hx with ⟨hValue, hNesting⟩
  exact ⟨hValue, hNesting.trans hLe⟩

/- Where a manifest has been read, scripts can be read too. -/
theorem IsObtained.two_le
    (hObtained : m.IsObtained room) :
    2 ≤ room := by
  induction hObtained with
  | read hRoom _ =>
      exact (FileSystem.depths _).two_le_json.trans hRoom
  | withoutLegacySettings _ ih => exact ih
  | withScripts _ _ _ ih => exact ih

theorem IsObtained.isSound
    (hObtained : m.IsObtained room) :
    m.IsSound room := by
  induction hObtained with
  | read hRoom hRead => exact (isSound_of_read hRead).mono hRoom
  | withoutLegacySettings _ ih =>
      exact ih.withoutLegacySettings
  | withScripts manager typescript hBefore ih =>
      exact ih.withScripts hBefore.two_le _

------------------------------------------------------------
-- Lone Surrogates
------------------------------------------------------------

/- No text of a manifest holds a lone surrogate. -/
def IsPlain (m : Manifest) : Prop :=
  (Json.object m).All Json.IsPlain

theorem isPlain_text_iff :
    m.text.IsPlain ↔ m.IsPlain := by
  unfold text Json.print
  rw [Text.isPlain_append_iff]
  constructor
  · intro hText
    exact Json.all_isPlain_of_printAt hText.1
  · intro hPlain
    exact ⟨Json.isPlain_printAt hPlain .plain 0,
      Text.isPlain_ofChars _⟩

/- The manifests without lone surrogates can be encoded. -/
theorem encode_text_iff :
    (∃ bytes, m.text.encode = .ok bytes) ↔ m.IsPlain := by
  simp only [Text.encode_eq_ok_iff, exists_and_left,
    exists_eq, and_true, isPlain_text_iff]

------------------------------------------------------------
-- Writing
------------------------------------------------------------

/-
  How the writing of a manifest ends: its text is in the file
  and is read back, the path is refused and nothing has
  changed, or a lone surrogate has left the file empty.
-/
inductive WriteEnd
    (root : Path)
    (m : Manifest)
    (fs : FileSystem) :
    Except Failure Unit → FileSystem → Prop where
  | complete
      {fs' : FileSystem}
      {bytes : Bytes} :
      m.text.encode = .ok bytes →
      fs'.read (root.child fileName) = .ok bytes →
      Manifest.read fs' root = .ok m →
      WriteEnd root m fs (.ok ()) fs'
  | refused (fault : PathFault) :
      WriteEnd root m fs (.error (.path fault)) fs
  | emptied
      {fs' : FileSystem}
      (fault : Text.Fault) :
      ¬ m.IsPlain →
      fs'.read (root.child fileName) = .ok [] →
      WriteEnd root m fs (.error (.encoding fault)) fs'

theorem child_anchor
    (hRoot : root.anchor ≠ .working) :
    (root.child fileName).anchor ≠ .working :=
  Path.child_anchor hRoot rfl

/- A sound manifest is written in one of these ways. -/
theorem writeEnd_of_ends
    (hRoot : root.anchor ≠ .working)
    {w w' : World}
    (hSound : m.IsSound w.files.depths.json)
    {result : Except Failure Unit}
    (hEnds : Session.Ends (m.write root) w result w') :
    WriteEnd root m w.files result w'.files := by
  have hAnchor := child_anchor hRoot
  rcases Session.ends_writeText_iff.mp hEnds with ⟨rfl, rfl⟩
  dsimp only
  rw [FileSystem.writeText_eq]
  cases hOpen : w.files.openForWriting (root.child fileName) with
  | error fault => exact .refused fault
  | ok found =>
      rcases found with ⟨loc, old⟩
      have hWritten :
          ∀ content,
            (w.files.setFile loc content).read
                (root.child fileName) =
              .ok content := by
        intro content
        have hWrite :
            w.files.write (root.child fileName) content =
              .ok (w.files.setFile loc content) := by
          unfold FileSystem.write
          rw [hOpen]
          rfl
        rcases FileSystem.rewrites_of_write hAnchor hWrite with
          ⟨place, _, hRewrites⟩
        exact FileSystem.read_eq_ok_iff.mpr
          ⟨_, hRewrites.leads⟩
      dsimp only
      cases hBytes : m.text.encode with
      | error fault =>
          apply WriteEnd.emptied fault _ (hWritten [])
          intro hPlain
          rcases encode_text_iff.mpr hPlain with ⟨bytes, hOk⟩
          rw [hBytes] at hOk
          cases hOk
      | ok bytes =>
          have hRead :=
            FileSystem.read_eq_ok_iff.mp (hWritten bytes)
          rcases hRead with ⟨place, hLeads⟩
          apply WriteEnd.complete hBytes (hWritten bytes)
          exact read_eq_ok_iff.mpr
            ⟨place, bytes, hLeads,
              ofBytes_text hSound (survives_of_isSound hSound)
                hBytes⟩

end Manifest

end BiomeMigration
