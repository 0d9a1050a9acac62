import BiomeMigration.Proofs.Migration.Detection
import BiomeMigration.Proofs.Migration.Furnishing

/-
  The package manager of a project stays the same while runs
  of a migration go on with it, if the files that are
  searched for are none that these runs make or write to.

  Main declarations:
    * `Migration.Extends.tracks`
    * `Migration.Undisturbed`
    * `Migration.Ongoing`
    * `Migration.manager_unique`
    * `Migration.typed_unique`
-/

------------------------------------------------------------
-- An Added Configuration
------------------------------------------------------------

namespace BiomeMigration

open Session
open FileSystem (Touches HasFile)

namespace Migration

variable {m : Migration} {l : Logger} {loc : Location}
variable {base later : FileSystem} {w w' v v' : World}
variable {X Y : Manifest} {p : Path}

theorem Extends.opened
    (hExtends : m.Extends base later) :
    later.opened = base.opened := by
  rcases hExtends with rfl | ⟨_, _, rfl⟩
  · rfl
  · rfl

theorem Extends.grows
    (hExtends : m.Extends base later)
    (hRegular : m.Regular l base) :
    base.root.Grows later.root := by
  rcases hExtends with rfl | ⟨content, hNone, rfl⟩
  · exact Node.Grows.refl _
  · exact (hRegular.room hNone).grows_put content

theorem Extends.depths
    (hExtends : m.Extends base later) :
    later.depths = base.depths := by
  rcases hExtends with rfl | ⟨_, _, rfl⟩
  · rfl
  · rfl

/- Only the configuration may be new. -/
theorem Extends.seen
    (hExtends : m.Extends base later)
    (hRegular : m.Regular l base)
    (hThere :
      loc = m.configPlace → base.root.at? loc ≠ none) :
    later.root.seen? loc = base.root.seen? loc := by
  rcases hExtends with rfl | ⟨content, hNone, rfl⟩
  · rfl
  · apply (hRegular.room hNone).seen?_put_of_ne content
    rintro rfl
    exact hThere rfl hNone

/- What is found later was found before, or is the new file. -/
theorem Extends.tracks
    (hExtends : m.Extends base later)
    (hRegular : m.Regular l base) :
    later.root.Tracks base.root := by
  refine ⟨fun loc node hNode => ?_, fun loc target hLink => ?_⟩
  · by_cases hNew :
        loc = m.configPlace ∧ base.root.at? loc = none
    · rcases hNew with ⟨rfl, hNone⟩
      refine Or.inr ⟨?_, hNone⟩
      rcases hExtends with rfl | ⟨content, _, rfl⟩
      · rw [hNone] at hNode
        cases hNode
      · have hPut : some node = some (Node.file content) :=
          hNode.symm.trans (Node.at?_put_self _ _ _)
        exact ⟨content, Option.some.inj hPut⟩
    · have hSeen := hExtends.seen hRegular
        fun hPlace hNone => hNew ⟨hPlace, hNone⟩
      have hLeaf :
          (base.root.at? loc).map Node.leaf = some node.leaf :=
        hSeen.symm.trans (congrArg (Option.map Node.leaf) hNode)
      rcases Option.map_eq_some_iff.mp hLeaf with
        ⟨node', hNode', hSame⟩
      exact Or.inl
        ⟨node', hNode', Node.sameKind_of_leaf_eq hSame.symm⟩
  · exact (hExtends.grows hRegular).tracks.link hLink

------------------------------------------------------------
-- Ongoing Runs
------------------------------------------------------------

/-
  The files that are searched for the package manager are
  not made or written to by a migration: none is missing only
  as long as the configuration of Biome is, and no manifest
  above the project is an open log file or a code file of it.
-/
structure Undisturbed
    (m : Migration)
    (l : Logger)
    (fs : FileSystem) : Prop where
  made :
    ∀ d ∈ m.root.ancestry, ∀ name ∈ Probe.searched,
      fs.locate .target (d.child name) ≠
        .ok ⟨m.configPlace, none⟩
  above :
    m.root.parts ≠ [] →
      ∀ d ∈ m.root.parent.ancestry, ∀ loc content,
        fs.LeadsTo (d.child Manifest.fileName) loc content →
          ¬ l.LogsTo fs loc ∧ ¬ m.Scrubs loc

/-
  A world in which runs of a migration have gone on from some
  files, with a manifest of the same kind.
-/
def Ongoing
    (m : Migration)
    (l : Logger)
    (base : FileSystem)
    (X : Manifest)
    (w : World) : Prop :=
  ∃ later Y,
    m.Extends base later ∧ X.Akin Y ∧ m.Holds l later Y w

theorem lasting_ongoing
    (hRegular : m.Regular l base)
    (X : Manifest) :
    Lasting (m.Ongoing l base X) where
  record r w hOngoing := by
    rcases hOngoing with ⟨later, Y, hExtends, hAkin, hHolds⟩
    exact ⟨later, Y, hExtends, hAkin,
      (lasting_holds (hRegular.of_extends hExtends) Y).record r w
        hHolds⟩
  echo _ _ hOngoing := by
    rcases hOngoing with ⟨later, Y, hExtends, hAkin, hHolds⟩
    exact ⟨later, Y, hExtends, hAkin, hHolds.of_same rfl rfl⟩

theorem Ongoing.grows
    (hOngoing : m.Ongoing l base X w)
    (hRegular : m.Regular l base) :
    base.root.Grows w.files.root := by
  rcases hOngoing with ⟨later, Y, hExtends, _, _, _, hVaries⟩
  exact (hExtends.grows hRegular).trans hVaries.files.grows

theorem Ongoing.real
    (hOngoing : m.Ongoing l base X w)
    (hRegular : m.Regular l base) :
    w.files.IsReal m.root :=
  hRegular.real.of_grows (hOngoing.grows hRegular)

/- What exists is the same, but for the configuration. -/
theorem Ongoing.exists_iff
    (hOngoing : m.Ongoing l base X w)
    (hRegular : m.Regular l base)
    (hAnchor : p.anchor ≠ .working)
    (hMade :
      base.locate .target p ≠ .ok ⟨m.configPlace, none⟩) :
    w.files.exists? p = .ok true ↔ base.exists? p = .ok true := by
  refine ⟨fun hThere => ?_, fun hThere =>
    FileSystem.exists?_of_grows hAnchor
      (hOngoing.grows hRegular) hThere⟩
  rcases hOngoing with ⟨later, Y, hExtends, _, _, _, hVaries⟩
  have hLater : later.exists? p = .ok true :=
    FileSystem.exists?_of_grows hAnchor
      hVaries.files.symm.grows hThere
  rcases FileSystem.exists?_of_tracks hAnchor
      (hExtends.tracks hRegular) hLater with
    hBefore | ⟨loc, node, hNode, hPlace⟩
  · exact hBefore
  · -- Only the configuration is new, and the path is not its.
    exfalso
    have hNone : base.root.at? loc = none :=
      (FileSystem.locate_of_grows (Node.Grows.refl _)
        (Or.inl rfl) hAnchor hPlace).1.node.symm
    have hOther : loc ≠ m.configPlace := by
      rintro rfl
      exact hMade hPlace
    have hSeen := hExtends.seen hRegular
      fun hPlace => (hOther hPlace).elim
    rw [Node.seen?_eq_none_iff.mpr hNone,
      Node.seen?_eq_none_iff, hNode] at hSeen
    cases hSeen

/- A manifest that is told apart by the field for managers. -/
theorem declaredBy_of_akin
    (hAkin : X.Akin Y) :
    Probe.declaredBy (.object Y) =
      Probe.declaredBy (.object X) := by
  unfold Probe.declaredBy
  dsimp only
  rw [hAkin.manager]

theorem Ongoing.own
    (hOngoing : m.Ongoing l base X w) :
    Probe.declaredIn
        (w.files.readJson (m.root.child Manifest.fileName)) =
      Probe.declaredBy (.object X) := by
  rcases hOngoing with ⟨later, Y, _, hAkin, hHolds⟩
  rw [Manifest.readJson_of_read hHolds.read]
  exact declaredBy_of_akin hAkin

/-
  What a manifest above the project declares is the same in
  all these worlds.
-/
theorem declared_above
    (hRegular : m.Regular l base)
    (hAnchor : p.anchor ≠ .working)
    (hAbove :
      ∀ loc content, base.LeadsTo p loc content →
        ¬ l.LogsTo base loc ∧ ¬ m.Scrubs loc)
    (hThere : base.exists? p = .ok true)
    (X : Manifest) :
    ∃ manager?, ∀ w, m.Ongoing l base X w →
      Probe.declaredIn (w.files.readJson p) = manager? := by
  rcases FileSystem.exists?_eq_true_iff.mp hThere with
    ⟨loc, node, hPlace⟩
  have hNode : base.root.at? loc = some node :=
    (FileSystem.locate_of_grows (Node.Grows.refl _)
      (Or.inl rfl) hAnchor hPlace).1.node.symm
  by_cases hManifest : loc = m.manifestPlace
  · -- The manifest of the project may have become an akin one.
    refine ⟨Probe.declaredBy (.object X), fun w hOngoing => ?_⟩
    have hGrows := hOngoing.grows hRegular
    rcases hOngoing with
      ⟨later, Y, hExtends, hAkin, bytes, hBytes, hVaries⟩
    have hFile :=
      hVaries.node (hRegular.of_extends hExtends)
    have hLeads : w.files.LeadsTo p m.manifestPlace bytes := by
      have hFound :=
        (FileSystem.locate_of_grows hGrows (Or.inl rfl) hAnchor
          hPlace).2
      unfold FileSystem.LeadsTo
      rw [hFound, hManifest, hFile]
    rw [← hVaries.files.depths] at hBytes
    have hRead : w.files.readJson p = .ok (.object Y) :=
      Manifest.readJson_eq_ok_iff.mpr
        ⟨bytes, FileSystem.read_eq_ok_iff.mpr ⟨_, hLeads⟩,
          hBytes⟩
    rw [hRead]
    exact declaredBy_of_akin hAkin
  · refine ⟨Probe.declaredIn (base.readJson p),
      fun w hOngoing => ?_⟩
    have hGrows := hOngoing.grows hRegular
    rcases hOngoing with
      ⟨later, Y, hExtends, _, _, _, hVaries⟩
    have hSame : later.root.seen? loc = base.root.seen? loc :=
      hExtends.seen hRegular fun _ hNone => by
        rw [hNode] at hNone
        cases hNone
    have hSeen : w.files.root.seen? loc = base.root.seen? loc := by
      rcases hVaries.files.seen loc with
        hKept | ⟨hWritten, ⟨content, hFile⟩, _⟩
      · exact hKept.trans hSame
      · exfalso
        rw [← Node.seen?_eq_file_iff, hSame,
          Node.seen?_eq_file_iff, hNode] at hFile
        rcases Option.some.inj hFile with rfl
        rcases hAbove loc content hPlace with ⟨hLogs, hScrubs⟩
        rw [m.writes_congr l hExtends.opened] at hWritten
        rcases hWritten with hPlace' | hLogged | hScrubbed
        · exact hManifest hPlace'
        · exact hLogs hLogged
        · exact hScrubs hScrubbed
    have hRead :=
      FileSystem.read_congr hAnchor hGrows hPlace hSeen
    unfold FileSystem.readJson
    rw [hRead, hVaries.files.depths, hExtends.depths]

theorem sameSearch_of_ongoing
    (hRegular : m.Regular l base)
    (hUndisturbed : m.Undisturbed l base)
    (hOngoing : m.Ongoing l base X w)
    (hOngoing' : m.Ongoing l base X w') :
    Probe.SameSearch m.root w.files w'.files := by
  have hAnchor :
      ∀ d ∈ m.root.ancestry, d.anchor ≠ .working := by
    intro d hd
    rw [(Path.mem_ancestry_iff.mp hd).1]
    exact hRegular.anchor_ne
  have hThere :
      ∀ {w}, m.Ongoing l base X w →
        ∀ d ∈ m.root.ancestry, ∀ name ∈ Probe.searched,
          (w.files.exists? (d.child name) = .ok true ↔
            base.exists? (d.child name) = .ok true) := by
    intro w hOngoing d hd name hName
    exact hOngoing.exists_iff hRegular
      (Probe.child_anchor_of_searched (hAnchor d hd) hName)
      (hUndisturbed.made d hd name hName)
  refine
    { real := hOngoing.real hRegular
      real' := hOngoing'.real hRegular
      entries := fun d hd name hName => ?_
      own := hOngoing'.own.trans hOngoing.own.symm
      others := fun hParts d hd hFound => ?_ }
  · apply Probe.Agree.of_iff
    exact (hThere hOngoing d hd name hName).trans
      (hThere hOngoing' d hd name hName).symm
  · have hMember := Path.mem_ancestry_of_parent hd
    have hName : Manifest.fileName ∈ Probe.searched := by
      decide
    have hBefore :=
      (hThere hOngoing d hMember _ hName).mp hFound
    rcases declared_above hRegular
        (Probe.child_anchor_of_searched (hAnchor d hMember) hName)
        (hUndisturbed.above hParts d hd) hBefore X with
      ⟨manager?, hSame⟩
    rw [hSame w hOngoing, hSame w' hOngoing']

/- All runs find the same package manager. -/
theorem manager_unique
    (hRegular : m.Regular l base)
    (hUndisturbed : m.Undisturbed l base)
    (hOngoing : m.Ongoing l base X w)
    (hOngoing' : m.Ongoing l base X w')
    {manager manager' : Manager}
    (hRuns : Runs (Probe.detect m.root) w manager v)
    (hRuns' : Runs (Probe.detect m.root) w' manager' v') :
    manager = manager' :=
  Probe.detect_unique (lasting_ongoing hRegular X)
    hRegular.anchor
    (fun _ _ => sameSearch_of_ongoing hRegular hUndisturbed)
    hOngoing hOngoing' hRuns hRuns'

/- All runs find the same use of TypeScript. -/
theorem typed_unique
    (hRegular : m.Regular l base)
    (hAkin : X.Akin Y)
    {typescript typescript' : Bool}
    (hTyped : m.Typed l base X typescript)
    (hTyped' : m.Typed l base Y typescript') :
    typescript = typescript' := by
  rcases hTyped with ⟨fs, hTouches, hUses⟩
  rcases hTyped' with ⟨fs', hTouches', hUses'⟩
  rcases bind_eq_ok_iff.mp hUses with ⟨b, hThere, hResult⟩
  rcases bind_eq_ok_iff.mp hUses' with ⟨b', hThere', hResult'⟩
  have hAnchor :
      (m.root.child Manifest.typescriptFile).anchor ≠ .working :=
    Path.child_anchor hRegular.anchor_ne rfl
  have hIff :
      fs.exists? (m.root.child Manifest.typescriptFile) =
          .ok true ↔
        fs'.exists? (m.root.child Manifest.typescriptFile) =
          .ok true :=
    ⟨FileSystem.exists?_of_grows hAnchor
        (hTouches.symm.trans hTouches').grows,
      FileSystem.exists?_of_grows hAnchor
        (hTouches'.symm.trans hTouches).grows⟩
  rcases Probe.Agree.of_iff hIff b b' hThere hThere' with rfl
  rw [← Except.ok.inj hResult, ← Except.ok.inj hResult',
    hAkin.typescript]

end Migration

end BiomeMigration
