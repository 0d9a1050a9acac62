import BiomeMigration.Proofs.Files.Listing

/-
  Paths that lead from the root by their names, with no link
  on the way. Such a path is its own real path, and unless
  links lead in a circle, real paths are such.

  Main declarations:
    * `FileSystem.Straight`
    * `FileSystem.Straight.resolve`
    * `FileSystem.Unlooped`
    * `FileSystem.straight_of_resolve`
-/

------------------------------------------------------------
-- Straight Paths
------------------------------------------------------------

namespace BiomeMigration

/- The path of the root directory. -/
def Path.top : Path :=
  ⟨.root, []⟩

namespace FileSystem

/-
  A path starts at the root and consists of names, and there
  is no link at its end or above it. The end may be missing.
-/
structure Straight (fs : FileSystem) (d : Path) : Prop where
  anchor : d.anchor = .root
  named : ∀ name ∈ d.parts, Step.ofString name = .down name
  linkless :
    ∀ above, above <+: d.parts →
      ∀ target, fs.root.at? above ≠ some (.link target)

variable {fs fs' : FileSystem} {d : Path}
variable {root : Node} {ending : Ending}

theorem Straight.of_above
    (hStraight : fs.Straight d)
    {above : Path}
    (hAnchor : above.anchor = d.anchor)
    (hPrefix : above.parts <+: d.parts) :
    fs.Straight above where
  anchor := hAnchor.trans hStraight.anchor
  named name hName :=
    hStraight.named name (hPrefix.subset hName)
  linkless outer hOuter :=
    hStraight.linkless outer (hOuter.trans hPrefix)

theorem Straight.parent
    (hStraight : fs.Straight d) :
    fs.Straight d.parent :=
  hStraight.of_above rfl (List.dropLast_prefix _)

theorem Straight.of_grows
    (hStraight : fs.Straight d)
    (hGrows : fs.root.Grows fs'.root) :
    fs'.Straight d where
  anchor := hStraight.anchor
  named := hStraight.named
  linkless above hAbove target hLink :=
    hStraight.linkless above hAbove target
      (hGrows.links above target hLink)

theorem climb_names
    {names : List String}
    (hNamed : ∀ n ∈ names, Step.ofString n = .down n)
    (loc : Location) :
    climb loc (names.map Step.ofString) = loc ++ names := by
  induction names generalizing loc with
  | nil => exact (List.append_nil loc).symm
  | cons name names ih =>
      have hLater :=
        ih (fun n hn => hNamed n (by simp [hn])) (loc ++ [name])
      rw [List.append_assoc] at hLater
      rw [List.map_cons, hNamed name (by simp)]
      exact hLater

theorem absolute_names
    {names : List String}
    (hNamed : ∀ n ∈ names, Step.ofString n = .down n) :
    fs.absolute ⟨.root, names⟩ = ⟨.root, names⟩ := by
  have hStart : fs.start ⟨.root, names⟩ = [] :=
    start_eq_nil fs (by simp)
  unfold absolute
  rw [hStart, climb_names hNamed, List.nil_append]
  rfl

theorem Straight.absolute_eq
    (hStraight : fs.Straight d) :
    fs.absolute d = d := by
  have hPath : d = ⟨.root, d.parts⟩ := by
    rw [← hStraight.anchor]
  rw [hPath]
  exact absolute_names hStraight.named

------------------------------------------------------------
-- Look-Ups
------------------------------------------------------------

/- Where there is no link, none is followed. -/
theorem walk_linkless
    {follow :
      Location → String → List Step → Except Problem Place}
    {above below : Location}
    {node : Node}
    (hNode : root.at? above = some node)
    (hNamed : ∀ n ∈ below, Step.ofString n = .down n)
    (hLinkless :
      ∀ names, names <+: below →
        ∀ target, root.at? (above ++ names) ≠ some (.link target)) :
    walk root ending follow above node
        (below.map Step.ofString) ≠
      .error .tooManyLinks := by
  induction below generalizing above node with
  | nil => simp [walk]
  | cons name below ih =>
      rw [List.map_cons, hNamed name (by simp)]
      cases node with
      | file content => simp [walk]
      | link target => simp [walk]
      | directory entries =>
          have hLater :
              ∀ child,
                root.at? (above ++ [name]) = some child →
                  walk root ending follow (above ++ [name]) child
                      (below.map Step.ofString) ≠
                    .error .tooManyLinks := by
            intro child hChild
            apply ih hChild fun n hn => hNamed n (by simp [hn])
            intro names hNames
            rw [List.append_assoc]
            exact hLinkless (name :: names)
              ((List.prefix_cons_inj name).mpr hNames)
          rw [walk_down follow hNode]
          split
          · simp
          · cases hEntry : root.at? (above ++ [name]) with
            | none =>
                dsimp only
                split
                · simp
                · simp
            | some child =>
                cases child with
                | file content => exact hLater _ hEntry
                | directory inner => exact hLater _ hEntry
                | link target =>
                    exact (hLinkless [name]
                      (List.prefix_append [name] below) target
                      hEntry).elim

theorem Straight.lookUp_ne
    (hStraight : fs.Straight d) :
    fs.lookUp ending d ≠ .error .tooManyLinks := by
  have hAnchor : d.anchor ≠ .working := by
    rw [hStraight.anchor]
    simp
  have hWalk :
      ∀ follow,
        walk fs.root ending follow [] fs.root
            (d.parts.map Step.ofString) ≠
          .error .tooManyLinks :=
    fun follow =>
      walk_linkless rfl hStraight.named hStraight.linkless
  unfold lookUp
  split
  · simp
  · rw [start_eq_nil fs hAnchor]
    exact hWalk _

------------------------------------------------------------
-- Their Real Paths
------------------------------------------------------------

/- A straight path is followed name by name. -/
theorem realWalk_names
    {active : List Path}
    {deeper :
      List Path → Path → List String → Except Path Path}
    {above below : Location}
    (hStraight : fs.Straight ⟨.root, above ++ below⟩) :
    realWalk fs active deeper ⟨.root, above⟩ below =
      .ok ⟨.root, above ++ below⟩ := by
  induction below generalizing above with
  | nil => rw [List.append_nil, realWalk]
  | cons name below ih =>
      have hSame :
          above ++ name :: below = (above ++ [name]) ++ below := by
        rw [List.append_assoc, List.singleton_append]
      rw [hSame] at hStraight ⊢
      have hNext : fs.Straight ⟨.root, above ++ [name]⟩ :=
        hStraight.of_above rfl (List.prefix_append _ below)
      rw [realWalk, hNext.named name (by simp)]
      simp only [hNext.absolute_eq]
      split
      · next target hLink =>
          exact (hNext.linkless _ List.prefix_rfl _ hLink).elim
      · exact ih hStraight

/- Some link may be met in any tree. -/
theorem exists_realDepth (fs : FileSystem) :
    ∃ depth, fs.realDepth = depth + 1 := by
  apply Nat.exists_eq_succ_of_ne_zero
  unfold realDepth
  exact Nat.mul_ne_zero (by omega) (by omega)

/- A straight path is real. -/
theorem Straight.resolve
    (hStraight : fs.Straight d) :
    fs.resolve d = if d.hasNul then .error .nul else .ok d := by
  rcases exists_realDepth fs with ⟨depth, hDepth⟩
  have hPath : (⟨.root, [] ++ d.parts⟩ : Path) = d := by
    rw [List.nil_append, ← hStraight.anchor]
  have hWalk :
      realWalk fs [] (realPieces fs depth) ⟨.root, []⟩
          d.parts =
        .ok d := by
    have hWhole := hStraight
    rw [← hPath] at hWhole
    rw [realWalk_names hWhole, hPath]
  have hPieces :
      realPieces fs fs.realDepth [] ⟨.root, []⟩ d.parts =
        .ok d := by
    rw [hDepth, realPieces]
    exact hWalk
  have hAnchor : (d.anchor == .working) = false := by
    rw [hStraight.anchor]
    rfl
  unfold FileSystem.resolve
  split
  · rfl
  · simp only [hAnchor, Bool.false_eq_true, if_false, hPieces,
      hStraight.absolute_eq]
    split
    · next hLoop => exact (hStraight.lookUp_ne hLoop).elim
    · rfl

theorem Straight.resolve_eq
    (hStraight : fs.Straight d)
    {real : Path}
    (hResolve : fs.resolve d = .ok real) :
    real = d := by
  rw [hStraight.resolve] at hResolve
  split at hResolve
  · cases hResolve
  · exact (Except.ok.inj hResolve).symm

------------------------------------------------------------
-- Real Paths Are Straight
------------------------------------------------------------

/-
  No link that a path leads through leads back to itself.
-/
def Unlooped (fs : FileSystem) (p : Path) : Prop :=
  let anchor : Anchor :=
    if p.anchor == .working then .working else .root
  ∃ q,
    realPieces fs fs.realDepth [] ⟨anchor, []⟩ p.parts = .ok q

/-
  A path that a resolution has come to: its names lead up
  from the working directory or down, and to a place with no
  link on the way.
-/
structure OnCourse (fs : FileSystem) (q : Path) : Prop where
  anchor : q.anchor ≠ .doubleRoot
  parts :
    ∀ part ∈ q.parts,
      Step.ofString part = .down part ∨
        q.anchor = .working ∧ part = ".."
  straight : fs.Straight (fs.absolute q)

theorem climb_append
    (loc : Location)
    (steps more : List Step) :
    climb loc (steps ++ more) = climb (climb loc steps) more :=
  List.foldl_append

variable {q : Path} {name : String}

theorem Step.eq_of_ofString
    {piece : String}
    (hStep : Step.ofString piece = .down name) :
    piece = name := by
  unfold ofString at hStep
  split at hStep
  · cases hStep
  · split at hStep
    · cases hStep
    · exact Step.down.inj hStep

/- A name that leads to no link is followed. -/
theorem OnCourse.down
    (hCourse : fs.OnCourse q)
    (hName : Step.ofString name = .down name)
    (hNoLink :
      ∀ target,
        fs.root.at?
            (fs.absolute { q with parts := q.parts ++ [name] }).parts ≠
          some (.link target)) :
    fs.OnCourse { q with parts := q.parts ++ [name] } := by
  have hAbsolute :
      (fs.absolute { q with parts := q.parts ++ [name] }).parts =
        (fs.absolute q).parts ++ [name] := by
    unfold absolute start
    simp only [List.map_append, climb_append, List.map_singleton,
      hName]
    rfl
  rw [hAbsolute] at hNoLink
  refine ⟨hCourse.anchor, ?_, hCourse.straight.anchor, ?_, ?_⟩
  · intro part hPart
    rcases List.mem_append.mp hPart with hEarly | hLast
    · exact hCourse.parts part hEarly
    · rw [List.mem_singleton.mp hLast]
      exact Or.inl hName
  · rw [hAbsolute]
    intro part hPart
    rcases List.mem_append.mp hPart with hEarly | hLast
    · exact hCourse.straight.named part hEarly
    · rw [List.mem_singleton.mp hLast]
      exact hName
  · rw [hAbsolute]
    intro above hAbove
    rcases List.prefix_concat_iff.mp hAbove with rfl | hEarly
    · exact hNoLink
    · exact hCourse.straight.linkless above hEarly

/- A step up leads to the directory above. -/
theorem OnCourse.absolute_stepUp
    (hCourse : fs.OnCourse q) :
    (fs.absolute (stepUp q)).parts =
      (fs.absolute q).parts.dropLast := by
  rcases q with ⟨anchor, parts⟩
  unfold stepUp
  dsimp only
  split
  · unfold absolute start
    simp only [List.map_append, climb_append, List.map_singleton]
    rfl
  · next hFree =>
      rcases List.eq_nil_or_concat parts with
        rfl | ⟨front, last, hParts⟩
      · cases anchor with
        | working => simp at hFree
        | root => rfl
        | doubleRoot => rfl
      · rw [List.concat_eq_append] at hParts
        subst hParts
        rcases hCourse.parts last (by simp) with
          hDown | ⟨hWorking, hUp⟩
        · unfold absolute start Path.parent
          simp only [List.map_append, climb_append,
            List.map_singleton, List.dropLast_concat, hDown]
          exact List.dropLast_concat.symm
        · dsimp only at hWorking
          subst hWorking hUp
          simp at hFree

theorem OnCourse.up
    (hCourse : fs.OnCourse q) :
    fs.OnCourse (stepUp q) := by
  have hAnchor : (stepUp q).anchor = q.anchor := by
    unfold stepUp
    dsimp only
    split
    · rfl
    · rfl
  have hAbsolute := hCourse.absolute_stepUp
  refine ⟨hAnchor ▸ hCourse.anchor, ?_, ?_⟩
  · rw [hAnchor]
    unfold stepUp
    dsimp only
    split
    · next hStuck =>
        have hWorking : q.anchor = .working := by
          simpa using (Bool.and_eq_true_iff.mp hStuck).1
        intro part hPart
        rcases List.mem_append.mp hPart with hEarly | hLast
        · exact hCourse.parts part hEarly
        · exact Or.inr ⟨hWorking, List.mem_singleton.mp hLast⟩
    · intro part hPart
      exact hCourse.parts part
        ((List.dropLast_prefix _).subset hPart)
  · apply hCourse.straight.of_above
    · unfold absolute
      rw [hAnchor]
    · rw [hAbsolute]
      exact List.dropLast_prefix _

theorem onCourse_root
    (hRoot : fs.Straight ⟨.root, []⟩) :
    fs.OnCourse ⟨.root, []⟩ where
  anchor := by simp
  parts := by simp
  straight := hRoot

/- A resolution that comes to an end stays on its course. -/
theorem onCourse_of_realWalk
    {active : List Path}
    {deeper :
      List Path → Path → List String → Except Path Path}
    (hRoot : fs.Straight ⟨.root, []⟩)
    (hDeeper :
      ∀ active p pieces real,
        fs.OnCourse p → deeper active p pieces = .ok real →
          fs.OnCourse real)
    (hCourse : fs.OnCourse q)
    {pieces : List String}
    {real : Path}
    (hWalk : realWalk fs active deeper q pieces = .ok real) :
    fs.OnCourse real := by
  induction pieces generalizing q with
  | nil =>
      rw [realWalk] at hWalk
      rw [← Except.ok.inj hWalk]
      exact hCourse
  | cons piece rest ih =>
      rw [realWalk] at hWalk
      split at hWalk
      · exact ih hCourse hWalk
      · exact ih hCourse.up hWalk
      · next name hStep =>
          have hName : Step.ofString name = .down name := by
            rw [Step.eq_of_ofString hStep] at hStep
            exact hStep
          dsimp only at hWalk
          split at hWalk
          · next target hLink =>
              split at hWalk
              · cases hWalk
              · split at hWalk
                · next inner hInner =>
                    refine ih (hDeeper _ _ _ _ ?_ hInner) hWalk
                    split
                    · exact onCourse_root hRoot
                    · exact hCourse
                · cases hWalk
          · next hNoLink =>
              exact ih (hCourse.down hName hNoLink) hWalk

/- So it does whatever the number of links that it meets. -/
theorem onCourse_of_realPieces
    (hRoot : fs.Straight ⟨.root, []⟩)
    (depth : Nat)
    {active : List Path}
    (hCourse : fs.OnCourse q)
    {pieces : List String}
    {real : Path}
    (hPieces :
      realPieces fs depth active q pieces = .ok real) :
    fs.OnCourse real := by
  induction depth generalizing active q pieces real with
  | zero => cases hPieces
  | succ depth ih =>
      rw [realPieces] at hPieces
      exact onCourse_of_realWalk hRoot
        (fun _ _ _ _ hHere hMore => ih hHere hMore) hCourse
        hPieces

/-
  The real path of a path is straight, if no links lead in a
  circle on its way.
-/
theorem straight_of_resolve
    (hWorking : fs.Straight ⟨.root, fs.working⟩)
    {p real : Path}
    (hUnlooped : fs.Unlooped p)
    (hResolve : fs.resolve p = .ok real) :
    fs.Straight real := by
  have hRoot : fs.Straight ⟨.root, []⟩ :=
    hWorking.of_above rfl List.nil_prefix
  rcases hUnlooped with ⟨q, hPieces⟩
  have hCourse : fs.OnCourse q := by
    refine onCourse_of_realPieces hRoot fs.realDepth ?_ hPieces
    split
    · exact ⟨by simp, by simp, hWorking⟩
    · exact onCourse_root hRoot
  unfold resolve at hResolve
  split at hResolve
  · cases hResolve
  · simp only [hPieces] at hResolve
    split at hResolve
    · cases hResolve
    · rw [← Except.ok.inj hResolve]
      exact hCourse.straight

end FileSystem

end BiomeMigration
