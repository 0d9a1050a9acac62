import BiomeMigration.Proofs.Scrub.Effect

/-
  Code files that are scrubbed in turn: all of them, or those
  before the first one that stops the work.

  Main declarations:
    * `Scrub.InTurn`
    * `Scrub.ends_step`
    * `Scrub.ends_mapM`
-/

------------------------------------------------------------
-- Files that Stop the Work
------------------------------------------------------------

namespace BiomeMigration

namespace Scrub

open Directive (Rule)
open Session

variable {rules : List Rule} {sources : List Source}
variable {w w' v : World} {p : Path} {loc : Location}
variable {paths : List Path}
variable {place : Path → Location}

/- A file that can be opened can still be, and nothing more. -/
theorem opens_of_touches
    {places : Location → Prop}
    {fs fs' : FileSystem}
    (hTouches : FileSystem.Touches places fs fs')
    (hAnchor : p.anchor ≠ .working)
    (hOpens : Opens fs p) :
    Opens fs' p := by
  rcases hOpens with ⟨⟨other, old⟩, hOpen⟩
  rcases FileSystem.locate_of_openForWriting hOpen with
    ⟨node?, hPlace⟩
  rcases FileSystem.locate_of_grows hTouches.grows (Or.inl rfl)
    hAnchor hPlace with ⟨hStands, hPlace'⟩
  unfold Opens FileSystem.openForWriting
  rw [hPlace']
  unfold FileSystem.openForWriting at hOpen
  rw [hPlace] at hOpen
  have hNode : node? = fs.root.at? other := hStands.node
  cases node? with
  | none =>
      dsimp only
      rw [hTouches.at?_eq_none hNode.symm]
      exact ⟨_, rfl⟩
  | some node =>
      cases node with
      | file content =>
          rcases hTouches.hasFile ⟨content, hNode.symm⟩ with
            ⟨content', hContent'⟩
          dsimp only
          rw [hContent']
          exact ⟨_, rfl⟩
      | directory entries => cases hOpen
      | link target => cases hOpen

/- A file is as it was when other ones have been scrubbed. -/
theorem Leads.leadsTo_iff
    (hLeads : Leads w p loc)
    (hEffect : Effect rules sources w w')
    (hFiles : ∀ s ∈ sources, w.files.HasFile s.place)
    (hApart : ∀ s ∈ sources, s.place ≠ loc)
    {other : Location}
    {bytes : Bytes} :
    w'.files.LeadsTo p other bytes ↔
      w.files.LeadsTo p other bytes := by
  have hTouches := hEffect.touches hFiles
  have hKept := hEffect.others loc hApart
  constructor
  · intro hLater
    rcases (hLeads.of_effect hEffect hFiles).unique _ _ hLater
      with rfl
    apply hLater.of_grows hLeads.anchor hTouches.symm.grows
    rcases hLeads.hasFile with ⟨content, hContent⟩
    have hSame := hKept.file hLeads.unlogged hContent
    rw [hLater.node hLeads.anchor] at hSame
    rcases Option.some.inj hSame with ⟨⟩
    exact hContent
  · intro hEarlier
    rcases hLeads.unique _ _ hEarlier with rfl
    exact hEarlier.of_grows hLeads.anchor hTouches.grows
      (hKept.file hLeads.unlogged
        (hEarlier.node hLeads.anchor))

/- What stops the work later would have done so at once. -/
theorem Stops.of_effect
    {failure : Failure}
    (hStops : Stops w' p loc failure)
    (hLeads : Leads w p loc)
    (hEffect : Effect rules sources w w')
    (hFiles : ∀ s ∈ sources, w.files.HasFile s.place)
    (hApart : ∀ s ∈ sources, s.place ≠ loc) :
    Stops w p loc failure := by
  rcases hStops with
    ⟨fault, hFailure, hOpens⟩ | ⟨bytes, fault, hPlace, hFault⟩
  · exact Or.inl ⟨fault, hFailure, fun hOpened =>
      hOpens (opens_of_touches (hEffect.touches hFiles)
        hLeads.anchor hOpened)⟩
  · exact Or.inr ⟨bytes, fault,
      (hLeads.leadsTo_iff hEffect hFiles hApart).mp hPlace,
      hFault⟩

------------------------------------------------------------
-- Files in Turn
------------------------------------------------------------

/- The outcome of a file, with its path. -/
def step
    (rules : List Rule)
    (p : Path) : Session (Path × Nat) := do
  return (p, ← file rules p)

/-
  Some files have been scrubbed in turn: all of them, or
  those before the first one that stops the work.
-/
def InTurn
    (rules : List Rule)
    (place : Path → Location)
    (paths : List Path)
    (w w' : World)
    (result : Except Failure (List (Path × Nat))) : Prop :=
  ∃ sources rest,
    paths = sources.map Source.path ++ rest ∧
      (∀ s ∈ sources,
        s.place = place s.path ∧
          w.files.LeadsTo s.path s.place s.bytes) ∧
      Effect rules sources w w' ∧
      ((rest = [] ∧
          result =
            .ok (sources.map fun s => (s.path, s.removed rules))) ∨
        ∃ p later failure,
          rest = p :: later ∧ result = .error failure ∧
            Stops w p (place p) failure)

/- A file that is the only one of some sources is there. -/
theorem hasFile_singleton
    {s : Source}
    (hAnchor : s.path.anchor ≠ .working)
    (hLeads : w.files.LeadsTo s.path s.place s.bytes) :
    ∀ s' ∈ [s], w.files.HasFile s'.place := by
  intro s' hMember
  rw [List.mem_singleton.mp hMember]
  exact ⟨_, hLeads.node hAnchor⟩

/- The first file has been scrubbed, and then the others. -/
theorem InTurn.cons
    {s : Source}
    {result : Except Failure (List (Path × Nat))}
    (hPlace : s.place = place s.path)
    (hLeads : ∀ p ∈ s.path :: paths, Leads w p (place p))
    (hApart : ((s.path :: paths).map place).Nodup)
    (hFirst : w.files.LeadsTo s.path s.place s.bytes)
    (hEffect : Effect rules [s] w v)
    (hRest : InTurn rules place paths v w' result) :
    InTurn rules place (s.path :: paths) w w'
      (result.map ((s.path, s.removed rules) :: ·)) := by
  rw [List.map_cons, List.nodup_cons, ← hPlace] at hApart
  have hHere := hLeads s.path List.mem_cons_self
  have hOwn := hasFile_singleton hHere.anchor hFirst
  have hOther :
      ∀ p ∈ paths, ∀ s' ∈ [s], s'.place ≠ place p := by
    intro p hp s' hMember hSame
    rw [List.mem_singleton.mp hMember] at hSame
    exact hApart.1 (List.mem_map.mpr ⟨p, hp, hSame.symm⟩)
  have hLater :
      ∀ p ∈ paths, Leads w p (place p) :=
    fun p hp => hLeads p (List.mem_cons_of_mem _ hp)
  rcases hRest with
    ⟨sources, rest, rfl, hSources, hEffect', hEnd⟩
  have hMember :
      ∀ s' ∈ sources,
        s'.path ∈ sources.map Source.path ++ rest :=
    fun s' hs' =>
      List.mem_append_left _ (List.mem_map_of_mem hs')
  refine ⟨s :: sources, rest, rfl, ?_, ?_, ?_⟩
  · intro s' hs'
    rcases List.mem_cons.mp hs' with rfl | hs'
    · exact ⟨hPlace, hFirst⟩
    · rcases hSources s' hs' with ⟨hPlace', hLeadsTo⟩
      have hp := hMember s' hs'
      exact ⟨hPlace',
        ((hLater _ hp).leadsTo_iff hEffect hOwn
          (hOther _ hp)).mp hLeadsTo⟩
  · apply hEffect.append hEffect'
    · intro s₁ hs₁ s₂ hs₂ hSame
      rw [(hSources s₂ hs₂).1] at hSame
      exact hOther _ (hMember s₂ hs₂) s₁ hs₁ hSame.symm
    · intro s₁ hs₁
      rw [List.mem_singleton.mp hs₁, hPlace]
      exact hHere.unlogged
  · rcases hEnd with
      ⟨rfl, rfl⟩ | ⟨p, later, failure, rfl, rfl, hStops⟩
    · exact Or.inl ⟨rfl, rfl⟩
    · have hp : p ∈ sources.map Source.path ++ p :: later := by
        simp
      exact Or.inr ⟨p, later, failure, rfl, rfl,
        hStops.of_effect (hLater p hp) hEffect hOwn
          (hOther p hp)⟩

/- One file is scrubbed and counted, or it stops the work. -/
theorem ends_step
    (hLeads : Leads w p loc)
    {result : Except Failure (Path × Nat)}
    (hEnds : Ends (step rules p) w result w') :
    (∃ s : Source,
        s.path = p ∧ s.place = loc ∧
          w.files.LeadsTo p loc s.bytes ∧
          result = .ok (p, s.removed rules) ∧
          Effect rules [s] w w') ∨
      ∃ failure,
        result = .error failure ∧ w' = w ∧
          Stops w p loc failure := by
  rcases ends_bind_iff.mp hEnds with
    ⟨failure, hFile, rfl⟩ | ⟨n, v, hFile, hPure⟩
  · rcases ends_file hLeads hFile with
      ⟨s, _, _, _, hOk, _⟩ | ⟨_, hSame, hWorld, hStops⟩
    · cases hOk
    · rcases Except.error.inj hSame with rfl
      exact Or.inr ⟨failure, rfl, hWorld, hStops⟩
  · rcases ends_pure_iff.mp hPure with ⟨rfl, rfl⟩
    rcases ends_file hLeads hFile with
      ⟨s, hPath, hPlace, hFirst, hCount, hEffect⟩ |
        ⟨_, hSame, _⟩
    · rcases Except.ok.inj hCount with rfl
      exact Or.inl ⟨s, hPath, hPlace, hFirst, rfl, hEffect⟩
    · cases hSame

/- Files with places of their own are scrubbed in turn. -/
theorem ends_mapM
    (hLeads : ∀ p ∈ paths, Leads w p (place p))
    (hApart : (paths.map place).Nodup)
    {result : Except Failure (List (Path × Nat))}
    (hEnds : Ends (paths.mapM (step rules)) w result w') :
    InTurn rules place paths w w' result := by
  induction paths generalizing w result with
  | nil =>
      rcases ends_pure_iff.mp hEnds with ⟨rfl, rfl⟩
      exact ⟨[], [], rfl, by simp, Effect.refl rules w',
        Or.inl ⟨rfl, rfl⟩⟩
  | cons p paths ih =>
      have hHere := hLeads p List.mem_cons_self
      rw [List.mapM_cons] at hEnds
      rcases ends_bind_iff.mp hEnds with
        ⟨failure, hFailed, rfl⟩ | ⟨found, v, hStep, hRest⟩
      · rcases ends_step hHere hFailed with
          ⟨s, _, _, _, hOk, _⟩ | ⟨_, hSame, rfl, hStops⟩
        · cases hOk
        · rcases Except.error.inj hSame with rfl
          exact ⟨[], p :: paths, rfl, by simp,
            Effect.refl rules w',
            Or.inr ⟨p, paths, _, rfl, rfl, hStops⟩⟩
      · rcases ends_step hHere hStep with
          ⟨s, rfl, hPlace, hFirst, hFound, hEffect⟩ |
            ⟨_, hSame, _⟩
        · rcases Except.ok.inj hFound with rfl
          rw [← hPlace] at hFirst
          have hOwn := hasFile_singleton hHere.anchor hFirst
          have hLater :
              ∀ q ∈ paths, Leads v q (place q) :=
            fun q hq =>
              (hLeads q (List.mem_cons_of_mem _ hq)).of_effect
                hEffect hOwn
          have hNodup := (List.nodup_cons.mp hApart).2
          rcases ends_bind_iff.mp hRest with
            ⟨failure, hFailed, rfl⟩ | ⟨others, u, hOthers, hPure⟩
          · exact InTurn.cons hPlace hLeads hApart hFirst hEffect
              (ih hLater hNodup hFailed)
          · rcases ends_pure_iff.mp hPure with ⟨rfl, rfl⟩
            exact InTurn.cons hPlace hLeads hApart hFirst hEffect
              (ih hLater hNodup hOthers)
        · cases hSame

end Scrub

end BiomeMigration
