import BiomeMigration.Proofs.Files.Entries
import BiomeMigration.Proofs.Migration.Scrubbing

/-
  The package manager of a project is the same in two worlds
  if the files that are searched for exist in both or in
  none, and the manifests among them declare the same.

  Main declarations:
    * `Probe.searched`
    * `Probe.SameSearch`
    * `Probe.detect_unique`
-/

------------------------------------------------------------
-- Search
------------------------------------------------------------

namespace BiomeMigration

open Session

namespace Probe

variable {fs fs' : FileSystem} {root d : Path}
variable {names : List String} {directories : List Path}

/-
  Two file systems that both tell whether a path leads to a
  node tell the same.
-/
def Agree (fs fs' : FileSystem) (p : Path) : Prop :=
  ∀ b b', fs.exists? p = .ok b → fs'.exists? p = .ok b' → b = b'

theorem Agree.of_iff
    {p : Path}
    (hIff : fs.exists? p = .ok true ↔ fs'.exists? p = .ok true) :
    Agree fs fs' p := by
  intro b b' hThere hThere'
  rw [hThere, hThere'] at hIff
  cases b <;> cases b' <;> simp_all

theorem inDirectory_agree
    (hAgree : ∀ name ∈ names, Agree fs fs' (d.child name))
    {found? found?' : Option Found}
    (hFound : inDirectory fs d names = .ok found?)
    (hFound' : inDirectory fs' d names = .ok found?') :
    found? = found?' := by
  induction names with
  | nil =>
      rw [← Except.ok.inj hFound, ← Except.ok.inj hFound']
  | cons name names ih =>
      rcases bind_eq_ok_iff.mp hFound with ⟨b, hThere, hRest⟩
      rcases bind_eq_ok_iff.mp hFound' with
        ⟨b', hThere', hRest'⟩
      rcases hAgree name (by simp) b b' hThere hThere' with rfl
      cases b with
      | true =>
          rw [← Except.ok.inj hRest, ← Except.ok.inj hRest']
      | false =>
          exact ih (fun n hn => hAgree n (by simp [hn])) hRest
            hRest'

theorem nearest_agree
    (hAgree :
      ∀ d ∈ directories, ∀ name ∈ names,
        Agree fs fs' (d.child name))
    {found? found?' : Option Found}
    (hFound : nearest fs names directories = .ok found?)
    (hFound' : nearest fs' names directories = .ok found?') :
    found? = found?' := by
  induction directories with
  | nil =>
      rw [← Except.ok.inj hFound, ← Except.ok.inj hFound']
  | cons d directories ih =>
      rcases bind_eq_ok_iff.mp hFound with ⟨here?, hHere, hRest⟩
      rcases bind_eq_ok_iff.mp hFound' with
        ⟨here?', hHere', hRest'⟩
      rcases inDirectory_agree (hAgree d (by simp)) hHere
        hHere' with rfl
      cases here? with
      | some found =>
          rw [← Except.ok.inj hRest, ← Except.ok.inj hRest']
      | none =>
          exact ih (fun e he => hAgree e (by simp [he])) hRest
            hRest'

/- A search that starts at a real directory. -/
theorem find_agree
    (hRoot : root.anchor = .root)
    (hReal : fs.IsReal root)
    (hReal' : fs'.IsReal root)
    (hAgree :
      ∀ d ∈ root.ancestry, ∀ name ∈ names,
        Agree fs fs' (d.child name))
    {found? found?' : Option Found}
    (hFound : find fs root names = .ok found?)
    (hFound' : find fs' root names = .ok found?') :
    found? = found?' := by
  rcases bind_eq_ok_iff.mp hFound with ⟨start, hStart, hRest⟩
  rcases bind_eq_ok_iff.mp hFound' with
    ⟨start', hStart', hRest'⟩
  rw [hReal.resolve_eq hRoot hStart] at hRest
  rw [hReal'.resolve_eq hRoot hStart'] at hRest'
  exact nearest_agree hAgree hRest hRest'

theorem of_inDirectory
    {found : Found}
    (hFound : inDirectory fs d names = .ok (some found)) :
    ∃ name ∈ names,
      found.file = d.child name ∧
        fs.exists? found.file = .ok true := by
  induction names with
  | nil => cases hFound
  | cons name names ih =>
      rcases bind_eq_ok_iff.mp hFound with ⟨b, hThere, hRest⟩
      cases b with
      | true =>
          rcases Option.some.inj (Except.ok.inj hRest) with rfl
          exact ⟨name, by simp, rfl, hThere⟩
      | false =>
          rcases ih hRest with ⟨n, hn, hFile⟩
          exact ⟨n, by simp [hn], hFile⟩

theorem of_nearest
    {found : Found}
    (hFound : nearest fs names directories = .ok (some found)) :
    ∃ d ∈ directories, ∃ name ∈ names,
      found.file = d.child name ∧
        fs.exists? found.file = .ok true := by
  induction directories with
  | nil => cases hFound
  | cons d directories ih =>
      rcases bind_eq_ok_iff.mp hFound with ⟨here?, hHere, hRest⟩
      cases here? with
      | some here =>
          rcases Option.some.inj (Except.ok.inj hRest) with rfl
          exact ⟨d, by simp, of_inDirectory hHere⟩
      | none =>
          rcases ih hRest with ⟨e, he, hFile⟩
          exact ⟨e, by simp [he], hFile⟩

/- What is found exists in a directory above the start. -/
theorem of_find
    (hRoot : root.anchor = .root)
    (hReal : fs.IsReal root)
    {found : Found}
    (hFound : find fs root names = .ok (some found)) :
    ∃ d ∈ root.ancestry, ∃ name ∈ names,
      found.file = d.child name ∧
        fs.exists? found.file = .ok true := by
  rcases bind_eq_ok_iff.mp hFound with ⟨start, hStart, hRest⟩
  rw [hReal.resolve_eq hRoot hStart] at hRest
  exact of_nearest hRest

------------------------------------------------------------
-- Declarations
------------------------------------------------------------

variable {w w' v v' : World} {p : Path}
variable {manager? manager?' : Option Manager}

/- The manager that is declared by what a file reads as. -/
def declaredIn : Except Unreadable Json → Option Manager
  | .ok v => declaredBy v
  | .error _ => none

theorem runs_declared
    (hRuns : Runs (declared p) w manager? w') :
    manager? = declaredIn (w.files.readJson p) := by
  unfold declared at hRuns
  rcases runs_bind_iff.mp hRuns with ⟨fs, v, hFiles, hRest⟩
  rcases runs_files_iff.mp hFiles with ⟨rfl, rfl⟩
  cases hJson : v.files.readJson p with
  | ok value =>
      rw [hJson] at hRest
      exact (runs_pure_iff.mp hRest).1
  | error cause =>
      rw [hJson] at hRest
      dsimp only at hRest
      split at hRest
      · exact (not_runs_throw hRest).elim
      · rcases runs_bind_iff.mp hRest with ⟨_, _, _, hPure⟩
        exact (runs_pure_iff.mp hPure).1

theorem runs_declaredAt
    (hRuns : Runs (declaredAt p) w manager? w') :
    manager? = declaredIn (w.files.readJson p) := by
  unfold declaredAt at hRuns
  rcases runs_bind_iff.mp hRuns with
    ⟨found?, v, hDeclared, hRest⟩
  rw [← runs_declared hDeclared]
  cases found? with
  | some manager =>
      rcases runs_bind_iff.mp hRest with ⟨_, _, _, hPure⟩
      exact (runs_pure_iff.mp hPure).1
  | none => exact (runs_pure_iff.mp hRest).1

------------------------------------------------------------
-- The Package Manager
------------------------------------------------------------

/- The names that are searched for in and above a project. -/
def searched : List String :=
  Manifest.fileName :: lockfiles.map Prod.snd

theorem child_anchor_of_searched
    (hAnchor : d.anchor ≠ .working)
    {name : String}
    (hName : name ∈ searched) :
    (d.child name).anchor ≠ .working := by
  apply Path.child_anchor hAnchor
  revert name
  decide +kernel

/-
  A search from a project in two file systems finds the same
  files, and in them the same declarations.
-/
structure SameSearch
    (root : Path)
    (fs fs' : FileSystem) : Prop where
  real : fs.IsReal root
  real' : fs'.IsReal root
  entries :
    ∀ d ∈ root.ancestry, ∀ name ∈ searched,
      Agree fs fs' (d.child name)
  own :
    declaredIn (fs'.readJson (root.child Manifest.fileName)) =
      declaredIn (fs.readJson (root.child Manifest.fileName))
  others :
    root.parts ≠ [] →
      ∀ d ∈ root.parent.ancestry,
        fs.exists? (d.child Manifest.fileName) = .ok true →
          declaredIn
              (fs'.readJson (d.child Manifest.fileName)) =
            declaredIn (fs.readJson (d.child Manifest.fileName))

theorem local?_agree
    (hSame : SameSearch root w.files w'.files)
    (hRuns : Runs (local? root) w manager? v)
    (hRuns' : Runs (local? root) w' manager?' v') :
    manager? = manager?' := by
  unfold local? at hRuns hRuns'
  rcases runs_bind_iff.mp hRuns with ⟨b, u, hThere, hRest⟩
  rcases runs_bind_iff.mp hRuns' with ⟨b', u', hThere', hRest'⟩
  rcases runs_ofFiles_iff.mp hThere with ⟨hExists, rfl⟩
  rcases runs_ofFiles_iff.mp hThere' with ⟨hExists', rfl⟩
  have hHere : root ∈ root.ancestry := Path.mem_ancestry_self root
  rcases hSame.entries root hHere Manifest.fileName
    (by simp [searched]) b b' hExists hExists' with rfl
  cases b with
  | true =>
      rw [runs_declaredAt hRest, runs_declaredAt hRest', hSame.own]
  | false =>
      rw [(runs_pure_iff.mp hRest).1, (runs_pure_iff.mp hRest').1]

theorem above?_agree
    (hRoot : root.anchor = .root)
    (hSame : SameSearch root w.files w'.files)
    (hRuns : Runs (above? root) w manager? v)
    (hRuns' : Runs (above? root) w' manager?' v') :
    manager? = manager?' := by
  unfold above? at hRuns hRuns'
  cases hEmpty : root.parts.isEmpty with
  | true =>
      rw [hEmpty, if_pos rfl] at hRuns hRuns'
      rw [(runs_pure_iff.mp hRuns).1, (runs_pure_iff.mp hRuns').1]
  | false =>
      have hParts : root.parts ≠ [] := by
        simpa using hEmpty
      rw [hEmpty, if_neg (by simp)] at hRuns hRuns'
      rcases runs_bind_iff.mp hRuns with
        ⟨found?, u, hFind, hRest⟩
      rcases runs_bind_iff.mp hRuns' with
        ⟨found?', u', hFind', hRest'⟩
      rcases runs_ofFiles_iff.mp hFind with ⟨hFound, rfl⟩
      rcases runs_ofFiles_iff.mp hFind' with ⟨hFound', rfl⟩
      have hParent := hSame.real.parent
      have hRoot' : root.parent.anchor = .root := hRoot
      rcases find_agree hRoot' hParent hSame.real'.parent
        (fun d hd name hName =>
          hSame.entries d (Path.mem_ancestry_of_parent hd) name
            (by simp [searched, List.mem_singleton.mp hName]))
        hFound hFound' with rfl
      cases found? with
      | none =>
          rw [(runs_pure_iff.mp hRest).1,
            (runs_pure_iff.mp hRest').1]
      | some found =>
          rcases of_find hRoot' hParent hFound with
            ⟨d, hd, name, hName, hFile, hThere⟩
          rw [List.mem_singleton.mp hName] at hFile
          rw [hFile] at hThere
          rw [runs_declaredAt hRest, runs_declaredAt hRest',
            hFile, hSame.others hParts d hd hThere]

theorem locked?_agree
    (hRoot : root.anchor = .root)
    (hSame : SameSearch root w.files w'.files)
    {candidates : List (Manager × String)}
    (hSearched :
      ∀ candidate ∈ candidates, candidate.2 ∈ searched)
    (hRuns : Runs (locked? root candidates) w manager? v)
    (hRuns' : Runs (locked? root candidates) w' manager?' v') :
    manager? = manager?' := by
  induction candidates with
  | nil =>
      rw [(runs_pure_iff.mp hRuns).1, (runs_pure_iff.mp hRuns').1]
  | cons candidate candidates ih =>
      rcases candidate with ⟨manager, name⟩
      unfold locked? at hRuns hRuns'
      rcases runs_bind_iff.mp hRuns with
        ⟨found?, u, hFind, hRest⟩
      rcases runs_bind_iff.mp hRuns' with
        ⟨found?', u', hFind', hRest'⟩
      rcases runs_ofFiles_iff.mp hFind with ⟨hFound, rfl⟩
      rcases runs_ofFiles_iff.mp hFind' with ⟨hFound', rfl⟩
      have hName : name ∈ searched :=
        hSearched (manager, name) (by simp)
      rcases find_agree hRoot hSame.real hSame.real'
        (fun d hd n hn =>
          hSame.entries d hd n
            (List.mem_singleton.mp hn ▸ hName))
        hFound hFound' with rfl
      cases found? with
      | none =>
          exact ih (fun c hc => hSearched c (by simp [hc]))
            hRest hRest'
      | some found =>
          rcases runs_bind_iff.mp hRest with ⟨_, _, _, hPure⟩
          rcases runs_bind_iff.mp hRest' with ⟨_, _, _, hPure'⟩
          rw [(runs_pure_iff.mp hPure).1,
            (runs_pure_iff.mp hPure').1]

/-
  Two worlds with a property that logging keeps, and that
  makes searches the same, have one package manager.
-/
theorem detect_unique
    {P : World → Prop}
    (hLasting : Lasting P)
    (hRoot : root.anchor = .root)
    (hSame :
      ∀ w w', P w → P w' → SameSearch root w.files w'.files)
    (hHere : P w)
    (hHere' : P w')
    {manager manager' : Manager}
    (hRuns : Runs (detect root) w manager v)
    (hRuns' : Runs (detect root) w' manager' v') :
    manager = manager' := by
  have hSteady := hLasting.steady
  have hFiles := hSame w w' hHere hHere'
  unfold detect at hRuns hRuns'
  rcases runs_bind_iff.mp hRuns with ⟨real, u, hReal, hRest₀⟩
  rcases runs_bind_iff.mp hRuns' with
    ⟨real', u', hReal', hRest₀'⟩
  rcases runs_ofFiles_iff.mp hReal with ⟨hResolve, rfl⟩
  rcases runs_ofFiles_iff.mp hReal' with ⟨hResolve', rfl⟩
  rcases hFiles.real.resolve_eq hRoot hResolve with rfl
  rcases hFiles.real'.resolve_eq hRoot hResolve' with rfl
  rcases runs_bind_iff.mp hRest₀ with
    ⟨own?, u₁, hLocal, hRest₁⟩
  rcases runs_bind_iff.mp hRest₀' with
    ⟨own?', u₁', hLocal', hRest₁'⟩
  rcases local?_agree hFiles hLocal hLocal' with rfl
  cases own? with
  | some own =>
      rw [(runs_pure_iff.mp hRest₁).1,
        (runs_pure_iff.mp hRest₁').1]
  | none =>
      have hLater :=
        (keeps_local? hSteady _).of_runs hLocal hHere
      have hLater' :=
        (keeps_local? hSteady _).of_runs hLocal' hHere'
      rcases runs_bind_iff.mp hRest₁ with
        ⟨other?, u₂, hAbove, hRest₂⟩
      rcases runs_bind_iff.mp hRest₁' with
        ⟨other?', u₂', hAbove', hRest₂'⟩
      rcases above?_agree hRoot (hSame _ _ hLater hLater')
        hAbove hAbove' with rfl
      cases other? with
      | some other =>
          rw [(runs_pure_iff.mp hRest₂).1,
            (runs_pure_iff.mp hRest₂').1]
      | none =>
          have hLast :=
            (keeps_above? hSteady _).of_runs hAbove hLater
          have hLast' :=
            (keeps_above? hSteady _).of_runs hAbove' hLater'
          rcases runs_bind_iff.mp hRest₂ with
            ⟨locked?, u₃, hLocked, hPure⟩
          rcases runs_bind_iff.mp hRest₂' with
            ⟨locked?', u₃', hLocked', hPure'⟩
          rcases locked?_agree hRoot (hSame _ _ hLast hLast')
            (by decide) hLocked hLocked' with rfl
          rw [(runs_pure_iff.mp hPure).1,
            (runs_pure_iff.mp hPure').1]

end Probe

end BiomeMigration
