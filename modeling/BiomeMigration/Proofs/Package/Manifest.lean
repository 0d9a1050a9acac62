import BiomeMigration.Proofs.Files.Writing
import BiomeMigration.Proofs.Json.RoundTrip

/-
  Manifests in their files: what is read is sound, the edits
  of a migration keep it sound, and a sound manifest whose
  numbers survive is read back from the text that is written
  for it.

  Main declarations:
    * `Manifest.IsSound`
    * `Manifest.Survives`
    * `Manifest.ofBytes_text`
    * `Manifest.read_eq_ok_iff`
-/

------------------------------------------------------------
-- Sound Manifests
------------------------------------------------------------

namespace BiomeMigration

open Json (FitsAt MembersFitAt HasSurvived)

theorem Json.MembersFitAt.of_object
    {room depth : Nat}
    {members : Members}
    (hFits : FitsAt room depth (.object members)) :
    MembersFitAt room depth members := by
  rcases hFits with ⟨hSound, hNesting⟩
  rw [all_object_iff] at hSound
  rw [nesting] at hNesting
  refine ⟨by omega, hSound.1, ?_⟩
  intro m hm
  have hLe := nestingMembers_le_iff.mp (Nat.le_refl _) m hm
  exact ⟨hSound.2 m hm, by omega⟩

theorem Members.mem_of_get?
    {ms : Members}
    {key : Text}
    {v : Json}
    (hGet : get? ms key = some v) :
    (key, v) ∈ ms := by
  induction ms with
  | nil => simp [get?] at hGet
  | cons m ms ih =>
      rcases m with ⟨k, w⟩
      rw [get?] at hGet
      split at hGet
      · next hKey =>
          rw [hKey, Option.some.inj hGet]
          exact List.mem_cons_self
      · exact List.mem_cons_of_mem _ (ih hGet)

theorem Members.erase_eq_self
    {ms : Members}
    {key : Text}
    (hNone : has ms key = false) :
    erase ms key = ms := by
  induction ms with
  | nil => rfl
  | cons m ms ih =>
      rcases m with ⟨k, w⟩
      unfold has at hNone ih
      rw [get?] at hNone
      split at hNone
      · simp at hNone
      · next hKey =>
          have hRest := ih hNone
          unfold erase at hRest ⊢
          rw [List.filter_cons, hRest]
          simp [hKey]

/- Setting the value of a key leaves the other members. -/
theorem Members.filter_insert
    {key : Text}
    (keeps : Text → Bool)
    (hKey : keeps key = false)
    (ms : Members)
    (v : Json) :
    (insert ms key v).filter (fun m => keeps m.1) =
      ms.filter fun m => keeps m.1 := by
  induction ms with
  | nil => simp [insert, hKey]
  | cons m ms ih =>
      rcases m with ⟨k, w⟩
      rw [insert]
      split
      · next hSame => simp [hSame, hKey]
      · rw [List.filter_cons, List.filter_cons, ih]

theorem Members.erase_insert_self
    (ms : Members)
    (key : Text)
    (v : Json) :
    erase (insert ms key v) key = erase ms key :=
  filter_insert (· ≠ key) (by simp) ms v

namespace Manifest

/-
  A manifest such as is read from a file: no key comes twice
  and its values are sound and do not nest too deep.
-/
def IsSound
    (room : Nat)
    (m : Manifest) : Prop :=
  MembersFitAt room 0 m

/- All floating-point numbers of a manifest survive. -/
def Survives (m : Manifest) : Prop :=
  (Json.object m).All HasSurvived

variable {room : Nat} {m : Manifest}

theorem survives_iff :
    m.Survives ↔ ∀ x ∈ m, x.2.All HasSurvived := by
  unfold Survives
  rw [Json.all_object_iff]
  exact and_iff_right trivial

------------------------------------------------------------
-- Edits
------------------------------------------------------------

theorem mem_of_mem_withoutLegacySettings
    {x : Text × Json}
    (hMember : x ∈ m.withoutLegacySettings) :
    x ∈ m := by
  unfold withoutLegacySettings legacyFields Members.erase
    at hMember
  simp only [List.foldl_cons, List.foldl_nil, List.mem_filter]
    at hMember
  exact hMember.1.1

/- A manifest without the old settings is not changed. -/
theorem withoutLegacySettings_eq_self
    (hNone : m.hasLegacySettings = false) :
    m.withoutLegacySettings = m := by
  unfold hasLegacySettings legacyFields at hNone
  simp only [List.any_cons, List.any_nil, Bool.or_false,
    Bool.or_eq_false_iff] at hNone
  unfold withoutLegacySettings legacyFields
  rw [List.foldl_cons, List.foldl_cons, List.foldl_nil,
    Members.erase_eq_self hNone.1,
    Members.erase_eq_self hNone.2]

theorem IsSound.withoutLegacySettings
    (hSound : m.IsSound room) :
    m.withoutLegacySettings.IsSound room := by
  rcases hSound with ⟨hDepth, hKeys, hValues⟩
  refine ⟨hDepth, ?_, ?_⟩
  · have hSublist : List.Sublist m.withoutLegacySettings m := by
      unfold Manifest.withoutLegacySettings legacyFields
        Members.erase
      exact (List.filter_sublist ..).trans
        (List.filter_sublist ..)
    exact (hSublist.map Prod.fst).nodup hKeys
  · intro x hx
    exact hValues x (mem_of_mem_withoutLegacySettings hx)

theorem Survives.withoutLegacySettings
    (hSurvives : m.Survives) :
    m.withoutLegacySettings.Survives := by
  rw [survives_iff] at hSurvives ⊢
  intro x hx
  exact hSurvives x (mem_of_mem_withoutLegacySettings hx)

/- The scripts of a sound manifest are sound. -/
theorem IsSound.currentScripts
    (hRoom : 2 ≤ room)
    (hSound : m.IsSound room) :
    MembersFitAt room 1 m.currentScripts := by
  unfold Manifest.currentScripts
  split
  · next scripts hScripts =>
      exact .of_object
        (hSound.2.2 _ (Members.mem_of_get? hScripts))
  · exact Json.membersFitAt_nil hRoom

/- Scripts are strings, which are always sound. -/
theorem membersFitAt_insertAll
    {members : Members}
    (hMembers : MembersFitAt room 1 members)
    (added : List (String × String)) :
    MembersFitAt room 1
      (Members.insertAll members
        (added.map fun (name, command) =>
          (Text.ofString name, .ofString command))) := by
  induction added generalizing members with
  | nil => exact hMembers
  | cons script added ih =>
      apply ih
      apply hMembers.insert
      have hFlat : (Json.ofString script.2).nesting = 0 := rfl
      refine ⟨trivial, ?_⟩
      rw [hFlat]
      exact hMembers.1

theorem IsSound.withScripts
    (hRoom : 2 ≤ room)
    (hSound : m.IsSound room)
    (added : List (String × String)) :
    (m.withScripts added).IsSound room := by
  unfold Manifest.withScripts
  apply Json.MembersFitAt.insert hSound
  apply Json.MembersFitAt.fitsAt_object
  exact membersFitAt_insertAll (hSound.currentScripts hRoom) added

theorem Survives.currentScripts
    (hSurvives : m.Survives) :
    ∀ x ∈ m.currentScripts, x.2.All HasSurvived := by
  rw [survives_iff] at hSurvives
  unfold Manifest.currentScripts
  split
  · next scripts hScripts =>
      have hObject :=
        hSurvives _ (Members.mem_of_get? hScripts)
      exact (Json.all_object_iff.mp hObject).2
  · simp

theorem mem_of_mem_insertAll
    {members news : Members}
    {x : Text × Json}
    (hMember : x ∈ Members.insertAll members news) :
    x ∈ members ∨ ∃ y ∈ news, x.2 = y.2 := by
  induction news generalizing members with
  | nil => exact Or.inl hMember
  | cons new news ih =>
      rcases ih hMember with hOld | ⟨y, hy, hEq⟩
      · rcases Members.mem_of_mem_insert hOld with hKept | hNew
        · exact Or.inl hKept
        · exact Or.inr ⟨new, by simp, hNew⟩
      · exact Or.inr ⟨y, by simp [hy], hEq⟩

theorem Survives.withScripts
    (hSurvives : m.Survives)
    (added : List (String × String)) :
    (m.withScripts added).Survives := by
  have hScripts := hSurvives.currentScripts
  rw [survives_iff] at hSurvives ⊢
  intro x hx
  rcases Members.mem_of_mem_insert hx with hOld | hNew
  · exact hSurvives x hOld
  · rw [hNew, Json.all_object_iff]
    refine ⟨trivial, ?_⟩
    intro y hy
    rcases mem_of_mem_insertAll hy with hOld | ⟨z, hz, hEq⟩
    · exact hScripts y hOld
    · rcases List.mem_map.mp hz with ⟨script, _, rfl⟩
      rw [hEq]
      exact trivial

/- Adding scripts leaves all other members as they are. -/
theorem erase_withScripts
    (m : Manifest)
    (added : List (String × String)) :
    Members.erase (m.withScripts added)
        (Text.ofString "scripts") =
      Members.erase m (Text.ofString "scripts") := by
  exact Members.erase_insert_self m _ _

------------------------------------------------------------
-- Files
------------------------------------------------------------

/- Bytes are read by their text, its line ends made equal. -/
theorem ofBytes_eq_ok_iff
    {bytes : Bytes}
    {v : Json} :
    Json.ofBytes room bytes = .ok v ↔
      ∃ cs,
        Utf8.decode bytes = .ok cs ∧
          Json.parse room (LineBreak.unify cs) = .ok v := by
  unfold Json.ofBytes
  simp only [bind_eq_ok_iff, mapError_eq_ok_iff]

/- What is printed for a value is read as the value. -/
theorem ofBytes_print
    {charset : Json.Charset}
    {v : Json}
    (hSound : v.All Json.IsSound)
    (hPlain : v.All Json.IsPlain)
    (hSurvives : v.All HasSurvived)
    (hNesting : v.nesting ≤ room)
    {bytes : Bytes}
    (hBytes :
      (Json.print charset v ++ Text.ofString "\n").encode =
        .ok bytes) :
    Json.ofBytes room bytes = .ok v := by
  rcases Text.encode_eq_ok_iff.mp hBytes with ⟨_, rfl⟩
  rw [Text.plain_append, Text.plain_ofString]
  have hReturn :
      '\r' ∉ (Json.print charset v).plain ++ ['\n'] := by
    rw [List.mem_append, not_or]
    exact ⟨Json.return_not_mem_printAt 0 v, by simp⟩
  apply ofBytes_eq_ok_iff.mpr
  refine ⟨_, Utf8.decode_encode _, ?_⟩
  exact (congrArg (Json.parse room)
    (LineBreak.unify_eq_self hReturn)).trans
      (Json.parse_print hSound hPlain hSurvives hNesting)

/- The text of a manifest is read as the manifest. -/
theorem ofBytes_text
    (hSound : m.IsSound room)
    (hSurvives : m.Survives)
    {bytes : Bytes}
    (hBytes : m.text.encode = .ok bytes) :
    Json.ofBytes room bytes = .ok (.object m) := by
  have hFits : FitsAt room 0 (.object m) := hSound.fitsAt_object
  have hPlain := (Text.encode_eq_ok_iff.mp hBytes).1
  have hPrinted : (Json.print .plain (.object m)).IsPlain :=
    (Text.isPlain_append_iff.mp hPlain).1
  exact ofBytes_print hFits.1
    (Json.all_isPlain_of_printAt hPrinted) hSurvives
    (by simpa using hFits.2) hBytes

/- What is read as a manifest is sound. -/
theorem isSound_of_ofBytes
    {bytes : Bytes}
    (hRead : Json.ofBytes room bytes = .ok (.object m)) :
    m.IsSound room := by
  rcases ofBytes_eq_ok_iff.mp hRead with
    ⟨cs, _, hParse⟩
  exact .of_object (Json.fitsAt_of_parse hParse)

theorem ofJson_eq_ok_iff
    {v : Json} :
    ofJson v = .ok m ↔ v = .object m := by
  cases v <;> simp [ofJson]

theorem readJson_eq_ok_iff
    {fs : FileSystem}
    {p : Path}
    {v : Json} :
    fs.readJson p = .ok v ↔
      ∃ bytes,
        fs.read p = .ok bytes ∧
          Json.ofBytes fs.depths.json bytes = .ok v := by
  unfold FileSystem.readJson
  simp only [bind_eq_ok_iff, mapError_eq_ok_iff]

theorem readJson_of_read
    {fs : FileSystem}
    {root : Path}
    (hRead : Manifest.read fs root = .ok m) :
    fs.readJson (root.child fileName) = .ok (.object m) := by
  rcases bind_eq_ok_iff.mp hRead with
    ⟨isThere, _, hFound⟩
  cases isThere with
  | false => cases hFound
  | true =>
      rcases bind_eq_ok_iff.mp hFound with ⟨v, hJson, hValue⟩
      rw [mapError_eq_ok_iff.mp hJson,
        ofJson_eq_ok_iff.mp hValue]

/- A manifest is read if its path leads to a file with it. -/
theorem read_eq_ok_iff
    {fs : FileSystem}
    {root : Path} :
    Manifest.read fs root = .ok m ↔
      ∃ loc bytes,
        fs.LeadsTo (root.child fileName) loc bytes ∧
          Json.ofBytes fs.depths.json bytes =
            .ok (.object m) := by
  constructor
  · intro hRead
    rcases readJson_eq_ok_iff.mp (readJson_of_read hRead) with
      ⟨bytes, hFile, hManifest⟩
    rcases FileSystem.read_eq_ok_iff.mp hFile with ⟨loc, hLeads⟩
    exact ⟨loc, bytes, hLeads, hManifest⟩
  · rintro ⟨loc, bytes, hLeads, hManifest⟩
    have hFile := FileSystem.read_eq_ok_iff.mpr ⟨loc, hLeads⟩
    have hJson := readJson_eq_ok_iff.mpr ⟨bytes, hFile, hManifest⟩
    have hThere := FileSystem.exists?_of_leadsTo hLeads
    apply bind_eq_ok_iff.mpr
    refine ⟨true, mapError_eq_ok_iff.mpr hThere, ?_⟩
    apply bind_eq_ok_iff.mpr
    exact ⟨_, mapError_eq_ok_iff.mpr hJson, rfl⟩

end Manifest

end BiomeMigration
