import BiomeMigration.Probe
import BiomeMigration.Proofs.Files.Straight

/-
  Look-ups of the entries of directories that are reached by
  their names, with no link on the way: what they find is
  what stands at the place of the entry.

  Main declarations:
    * `Path.Fits`
    * `FileSystem.IsReal`
    * `FileSystem.locate_entry`
    * `FileSystem.exists?_entry`
    * `FileSystem.exists?_longLink`
    * `FileSystem.IsReal.resolve_eq`
    * `FileSystem.IsReal.of_mem_ancestry`
-/

------------------------------------------------------------
-- Names
------------------------------------------------------------

namespace BiomeMigration

open FileSystem (Step Place Ending nameLimit pathLimit)

namespace Path

/- A text names an entry of a directory. -/
def IsEntryName (name : String) : Prop :=
  ofString name = ⟨.working, [name]⟩ ∧
    Step.ofString name = .down name

instance (name : String) : Decidable (IsEntryName name) :=
  inferInstanceAs (Decidable (_ ∧ _))

/- The path of an entry. -/
theorem child_eq
    {name : String}
    (hName : IsEntryName name)
    (d : Path) :
    d.child name = ⟨d.anchor, d.parts ++ [name]⟩ := by
  unfold child join
  rw [hName.1]

theorem mem_ancestryOf_iff
    {anchor : Anchor}
    {parts : List String}
    {above : Path} :
    above ∈ ancestryOf anchor parts ↔
      above.anchor = anchor ∧ above.parts <+: parts := by
  induction parts generalizing above with
  | nil =>
      rcases above with ⟨anchor', names⟩
      simp [ancestryOf]
  | cons part parts ih =>
      rw [ancestryOf, List.mem_append, List.mem_map,
        List.mem_singleton]
      constructor
      · rintro (⟨p, hp, rfl⟩ | rfl)
        · exact ⟨rfl,
            (List.prefix_cons_inj part).mpr (ih.mp hp).2⟩
        · exact ⟨rfl, List.nil_prefix⟩
      · rcases above with ⟨anchor', names⟩
        rintro ⟨hAnchor, hPrefix⟩
        dsimp only at hAnchor hPrefix
        subst hAnchor
        cases names with
        | nil => exact Or.inr rfl
        | cons name names =>
            rcases List.cons_prefix_cons.mp hPrefix with
              ⟨rfl, hRest⟩
            exact Or.inl ⟨⟨anchor', names⟩,
              ih.mpr ⟨rfl, hRest⟩, rfl⟩

/- A text without slashes is one piece. -/
theorem split_of_no_slash
    {cs : List Char}
    (hPlain : '/' ∉ cs) :
    split cs = [cs] := by
  induction cs with
  | nil => rfl
  | cons c cs ih =>
      rw [List.mem_cons, not_or] at hPlain
      rw [split, if_neg (Ne.symm hPlain.1), ih hPlain.2]

/- The paths above a path are those that start it. -/
theorem mem_ancestry_iff
    {p above : Path} :
    above ∈ p.ancestry ↔
      above.anchor = p.anchor ∧ above.parts <+: p.parts :=
  mem_ancestryOf_iff

theorem mem_ancestry_self (p : Path) : p ∈ p.ancestry :=
  mem_ancestry_iff.mpr ⟨rfl, List.prefix_rfl⟩

/- What is above the parent of a path is above the path. -/
theorem mem_ancestry_of_parent
    {p above : Path}
    (hMember : above ∈ p.parent.ancestry) :
    above ∈ p.ancestry := by
  rcases mem_ancestry_iff.mp hMember with ⟨hAnchor, hPrefix⟩
  exact mem_ancestry_iff.mpr
    ⟨hAnchor, hPrefix.trans (List.dropLast_prefix _)⟩

/- Neither a path nor a name in it is too long. -/
def Fits (p : Path) : Prop :=
  p.text.utf8ByteSize ≤ pathLimit ∧
    ∀ name ∈ p.parts, name.utf8ByteSize ≤ nameLimit

instance (p : Path) : Decidable p.Fits :=
  inferInstanceAs (Decidable (_ ∧ _))

end Path

namespace FileSystem

variable {root : Node} {ending : Ending}

/- Steps by name lead to a directory, unless one is too long. -/
theorem walk_directory
    {follow :
      Location → String → List Step → Except Problem Place}
    {above below : Location}
    {node : Node}
    {entries : Node.Entries}
    (hDirectory : node.at? below = some (.directory entries))
    (hNamed : ∀ name ∈ below, Step.ofString name = .down name)
    (more : List Step) :
    walk root ending follow above node
        (below.map Step.ofString ++ more) =
      if ∀ name ∈ below, name.utf8ByteSize ≤ nameLimit then
        walk root ending follow (above ++ below)
          (.directory entries) more
      else .error .nameTooLong := by
  induction below generalizing above node with
  | nil =>
      rcases Option.some.inj hDirectory with rfl
      simp
  | cons name below ih =>
      cases node with
      | file content => simp [Node.at?] at hDirectory
      | link target => simp [Node.at?] at hDirectory
      | directory outer =>
          rw [Node.at?] at hDirectory
          rw [List.map_cons, hNamed name (by simp),
            List.cons_append, walk]
          cases hFind : Node.find? outer name with
          | none => simp [hFind] at hDirectory
          | some child =>
              simp only [hFind] at hDirectory ⊢
              cases child with
              | file content =>
                  cases below <;> simp [Node.at?] at hDirectory
              | link target =>
                  cases below <;> simp [Node.at?] at hDirectory
              | directory inner =>
                  have hLater :=
                    @ih (above ++ [name]) (.directory inner)
                      hDirectory fun n hn => hNamed n (by simp [hn])
                  simp only [hLater, List.append_assoc,
                    List.singleton_append, List.forall_mem_cons]
                  split
                  · next hLong =>
                      rw [if_neg fun hAll =>
                        absurd hAll.1 (Nat.not_le.mpr hLong)]
                  · next hShort =>
                      simp only [Nat.not_lt.mp hShort, true_and]

/-
  The look-up of an entry that is no link ends at its place.
-/
theorem walkLinks_entry
    {above : Location}
    {entries : Node.Entries}
    {name : String}
    (hDirectory : root.at? above = some (.directory entries))
    (hNamed :
      ∀ n ∈ above ++ [name], Step.ofString n = .down n)
    (hNoLink :
      ∀ target, root.at? (above ++ [name]) ≠ some (.link target))
    (links : Nat) :
    walkLinks root ending links [] root
        ((above ++ [name]).map Step.ofString) =
      if ∀ n ∈ above ++ [name], n.utf8ByteSize ≤ nameLimit then
        .ok ⟨above ++ [name], root.at? (above ++ [name])⟩
      else .error .nameTooLong := by
  have hWalk :
      ∀ follow,
        walk root ending follow [] root
            ((above ++ [name]).map Step.ofString) =
          if ∀ n ∈ above ++ [name],
              n.utf8ByteSize ≤ nameLimit then
            .ok ⟨above ++ [name], root.at? (above ++ [name])⟩
          else .error .nameTooLong := by
    intro follow
    rw [List.map_append, walk_directory hDirectory
      (fun n hn => hNamed n (by simp [hn])), List.nil_append,
      List.map_singleton, hNamed name (by simp),
      walk_down follow hDirectory]
    simp only [List.forall_mem_append, List.forall_mem_singleton]
    by_cases hAbove : ∀ n ∈ above, n.utf8ByteSize ≤ nameLimit
    · by_cases hLong : nameLimit < name.utf8ByteSize
      · rw [if_pos hAbove, if_pos hLong, if_neg fun hAll =>
          absurd hAll.2 (Nat.not_le.mpr hLong)]
      · have hAll := And.intro hAbove (Nat.not_lt.mp hLong)
        rw [if_pos hAbove, if_neg hLong, if_pos hAll]
        cases hEntry : root.at? (above ++ [name]) with
        | none => rfl
        | some child =>
            cases child with
            | file content => rfl
            | directory inner => rfl
            | link target => exact (hNoLink target hEntry).elim
    · rw [if_neg hAbove, if_neg fun hAll => hAbove hAll.1]
  cases links with
  | zero => exact hWalk _
  | succ links => exact hWalk _

------------------------------------------------------------
-- Entries of Real Directories
------------------------------------------------------------

/-
  A path leads to a directory by its names, with no link on
  the way.
-/
structure IsReal (fs : FileSystem) (d : Path) : Prop where
  anchor : d.anchor ≠ .working
  directory :
    ∃ entries, fs.root.at? d.parts = some (.directory entries)
  named : ∀ name ∈ d.parts, Step.ofString name = .down name

variable {fs fs' : FileSystem} {d : Path} {name : String}

theorem IsReal.named_entry
    (hReal : fs.IsReal d)
    (hName : Path.IsEntryName name) :
    ∀ n ∈ d.parts ++ [name], Step.ofString n = .down n := by
  intro n hn
  rcases List.mem_append.mp hn with hAbove | hLast
  · exact hReal.named n hAbove
  · rw [List.mem_singleton.mp hLast]
    exact hName.2

theorem IsReal.child_anchor
    (hReal : fs.IsReal d)
    (hName : Path.IsEntryName name) :
    (d.child name).anchor ≠ .working := by
  rw [Path.child_eq hName]
  exact hReal.anchor

theorem lookUp_entry
    (hReal : fs.IsReal d)
    (hName : Path.IsEntryName name)
    (hNoLink :
      ∀ target,
        fs.root.at? (d.parts ++ [name]) ≠ some (.link target)) :
    fs.lookUp ending (d.child name) =
      if (d.child name).Fits then
        .ok ⟨d.parts ++ [name],
          fs.root.at? (d.parts ++ [name])⟩
      else .error .nameTooLong := by
  rcases hReal.directory with ⟨entries, hDirectory⟩
  have hNamed := hReal.named_entry hName
  have hAnchor := hReal.child_anchor hName
  have hParts : (d.child name).parts = d.parts ++ [name] := by
    rw [Path.child_eq hName]
  have hWalk :
      walkLinks fs.root ending linkLimit [] fs.root
          ((d.parts ++ [name]).map Step.ofString) = _ :=
    walkLinks_entry hDirectory hNamed hNoLink linkLimit
  by_cases hFits : (d.child name).Fits
  · have hShort := hFits.2
    rw [hParts] at hShort
    rw [if_pos hShort] at hWalk
    unfold lookUp
    rw [if_neg (Nat.not_lt.mpr hFits.1), if_pos hFits,
      start_eq_nil fs hAnchor, hParts]
    exact hWalk
  · unfold lookUp
    rw [if_neg hFits, start_eq_nil fs hAnchor, hParts]
    split
    · rfl
    · next hText =>
        rw [if_neg fun hShort => hFits
          ⟨Nat.not_lt.mp hText, hParts ▸ hShort⟩] at hWalk
        exact hWalk

/- What is found under the path of an entry. -/
theorem locate_entry
    (hReal : fs.IsReal d)
    (hName : Path.IsEntryName name)
    (hNoLink :
      ∀ target,
        fs.root.at? (d.parts ++ [name]) ≠ some (.link target)) :
    fs.locate ending (d.child name) =
      if (d.child name).hasNul then .error .nul
      else if (d.child name).Fits then
        .ok ⟨d.parts ++ [name],
          fs.root.at? (d.parts ++ [name])⟩
      else
        .error (.refused .nameTooLong (d.child name).text) := by
  unfold locate
  rw [lookUp_entry hReal hName hNoLink]
  split
  · rfl
  · by_cases hFits : (d.child name).Fits
    · rw [if_pos hFits, if_pos hFits]
      rfl
    · rw [if_neg hFits, if_neg hFits]
      rfl

/- Whether there is an entry. -/
theorem exists?_entry
    (hReal : fs.IsReal d)
    (hName : Path.IsEntryName name)
    (hNoLink :
      ∀ target,
        fs.root.at? (d.parts ++ [name]) ≠ some (.link target)) :
    fs.exists? (d.child name) =
      if (d.child name).hasNul then .ok false
      else if (d.child name).Fits then
        .ok (fs.root.at? (d.parts ++ [name])).isSome
      else
        .error (.refused .nameTooLong (d.child name).text) := by
  unfold exists? follow?
  rw [locate_entry hReal hName hNoLink]
  by_cases hNul : (d.child name).hasNul = true
  · rw [if_pos hNul, if_pos hNul]
    rfl
  · rw [if_neg hNul, if_neg hNul]
    by_cases hFits : (d.child name).Fits
    · rw [if_pos hFits, if_pos hFits]
      rfl
    · rw [if_neg hFits, if_neg hFits]
      rfl

/- An entry is located at its place. -/
theorem place_of_locate_entry
    (hReal : fs.IsReal d)
    (hName : Path.IsEntryName name)
    (hNoLink :
      ∀ target,
        fs.root.at? (d.parts ++ [name]) ≠ some (.link target))
    {place : Place}
    (hPlace : fs.locate ending (d.child name) = .ok place) :
    place =
      ⟨d.parts ++ [name], fs.root.at? (d.parts ++ [name])⟩ := by
  rw [locate_entry hReal hName hNoLink] at hPlace
  split at hPlace
  · cases hPlace
  · split at hPlace
    · exact (Except.ok.inj hPlace).symm
    · cases hPlace

------------------------------------------------------------
-- Links to Names that Are Too Long
------------------------------------------------------------

/-
  The target of a link is a single name that is longer than
  names can be.
-/
structure IsLongName (target : String) : Prop where
  plain : '/' ∉ target.toList
  long : nameLimit < target.utf8ByteSize

variable {target : String}

theorem IsLongName.ne
    (hTarget : IsLongName target)
    (short : String)
    (hShort : short.utf8ByteSize ≤ nameLimit) :
    target ≠ short := by
  rintro rfl
  exact Nat.not_le.mpr hTarget.long hShort

theorem IsLongName.targetPieces_eq
    (hTarget : IsLongName target) :
    targetPieces target = [target] := by
  unfold targetPieces
  rw [Path.split_of_no_slash hTarget.plain, List.map_singleton,
    String.ofList_toList]

theorem IsLongName.targetSteps_eq
    (hTarget : IsLongName target) :
    targetSteps target = [.down target] := by
  have hEmpty := hTarget.ne "" (by decide)
  have hHere := hTarget.ne "." (by decide)
  have hUp := hTarget.ne ".." (by decide)
  unfold targetSteps Step.ofString
  simp [hTarget.targetPieces_eq, hEmpty, hHere, hUp]

theorem IsLongName.slashedSteps?_eq
    (hTarget : IsLongName target) :
    slashedSteps? target = none := by
  have hEmpty := hTarget.ne "" (by decide)
  unfold slashedSteps?
  simp [hTarget.targetPieces_eq, hEmpty]

theorem IsLongName.isAbsolute_eq
    (hTarget : IsLongName target) :
    isAbsolute target = false := by
  have hPlain := hTarget.plain
  unfold isAbsolute
  cases hChars : target.toList with
  | nil => rfl
  | cons c cs =>
      rw [hChars, List.mem_cons, not_or] at hPlain
      simpa using Ne.symm hPlain.1

/- The look-up of a link to such a name fails. -/
theorem walkLinks_longLink
    {above : Location}
    {entries : Node.Entries}
    (hDirectory : root.at? above = some (.directory entries))
    (hNamed : ∀ n ∈ above ++ [name], Step.ofString n = .down n)
    (hLink : root.at? (above ++ [name]) = some (.link target))
    (hTarget : IsLongName target)
    (links : Nat) :
    walkLinks root .target (links + 1) [] root
        ((above ++ [name]).map Step.ofString) =
      .error .nameTooLong := by
  have hFails :
      walkLinks root .target links above (.directory entries)
          [.down target] =
        .error .nameTooLong := by
    cases links with
    | zero => rw [walkLinks, walk, if_pos hTarget.long]
    | succ links => rw [walkLinks, walk, if_pos hTarget.long]
  rw [walkLinks, List.map_append, walk_directory hDirectory
    (fun n hn => hNamed n (by simp [hn])), List.nil_append,
    List.map_singleton, hNamed name (by simp),
    walk_down _ hDirectory, hLink]
  split
  · split
    · rfl
    · have hFollowed :
          (([] : List Step).isEmpty && Ending.target == .link) =
            false :=
        rfl
      simpa only [hFollowed, hTarget.slashedSteps?_eq,
        hTarget.isAbsolute_eq, hTarget.targetSteps_eq,
        Bool.false_eq_true, ↓reduceIte, hDirectory,
        Option.getD_some, List.append_nil] using hFails
  · rfl

/- Whether such a link leads to a node is refused. -/
theorem exists?_longLink
    (hReal : fs.IsReal d)
    (hName : Path.IsEntryName name)
    (hNul : (d.child name).hasNul = false)
    (hLink :
      fs.root.at? (d.parts ++ [name]) = some (.link target))
    (hTarget : IsLongName target) :
    fs.exists? (d.child name) =
      .error (.refused .nameTooLong (d.child name).text) := by
  rcases hReal.directory with ⟨entries, hDirectory⟩
  have hNamed := hReal.named_entry hName
  have hLookUp :
      fs.lookUp .target (d.child name) = .error .nameTooLong := by
    unfold lookUp
    split
    · rfl
    · rw [start_eq_nil fs (hReal.child_anchor hName),
        Path.child_eq hName]
      exact walkLinks_longLink hDirectory hNamed hLink hTarget 39
  unfold exists? follow? locate
  rw [hNul, hLookUp]
  rfl

------------------------------------------------------------
-- Real Paths
------------------------------------------------------------

/- What is above a directory is one, too. -/
theorem directory_of_append
    {above below : Location}
    {entries : Node.Entries}
    (hDirectory :
      root.at? (above ++ below) = some (.directory entries)) :
    ∃ outer, root.at? above = some (.directory outer) := by
  rw [Node.at?_append] at hDirectory
  rcases Option.bind_eq_some_iff.mp hDirectory with
    ⟨node, hNode, hBelow⟩
  cases node with
  | directory outer => exact ⟨outer, hNode⟩
  | file content => cases below <;> simp [Node.at?] at hBelow
  | link target => cases below <;> simp [Node.at?] at hBelow

/- A real directory is located at the place of its names. -/
theorem location_of_locate_real
    (hReal : fs.IsReal d)
    {place : Place}
    (hPlace : fs.locate ending d = .ok place) :
    place.location = d.parts := by
  rcases hReal.directory with ⟨entries, hDirectory⟩
  have hFound := lookUp_of_locate hPlace
  unfold lookUp at hFound
  split at hFound
  · simp at hFound
  · rw [start_eq_nil fs hReal.anchor] at hFound
    have hSteps :
        ∃ follow,
          walk fs.root ending follow [] fs.root
              (d.parts.map Step.ofString) =
            .ok place :=
      ⟨_, hFound⟩
    rcases hSteps with ⟨follow, hWalk⟩
    rw [← List.append_nil (d.parts.map Step.ofString),
      walk_directory hDirectory hReal.named] at hWalk
    split at hWalk
    · rw [← Except.ok.inj hWalk]
      rfl
    · simp at hWalk

/- A directory that is reached by its names has no link. -/
theorem IsReal.straight
    (hReal : fs.IsReal d)
    (hRoot : d.anchor = .root) :
    fs.Straight d := by
  rcases hReal.directory with ⟨entries, hDirectory⟩
  refine ⟨hRoot, hReal.named, ?_⟩
  rintro above ⟨below, hParts⟩ target hLink
  rw [← hParts] at hDirectory
  rcases directory_of_append hDirectory with ⟨outer, hOuter⟩
  rw [hLink] at hOuter
  cases hOuter

theorem IsReal.resolve_eq
    (hReal : fs.IsReal d)
    (hRoot : d.anchor = .root)
    {real : Path}
    (hResolve : fs.resolve d = .ok real) :
    real = d :=
  (hReal.straight hRoot).resolve_eq hResolve

/- The directories above a real one are real. -/
theorem IsReal.of_mem_ancestry
    (hReal : fs.IsReal d)
    {above : Path}
    (hMember : above ∈ d.ancestry) :
    fs.IsReal above := by
  rcases Path.mem_ancestry_iff.mp hMember with ⟨hAnchor, hPrefix⟩
  rcases hPrefix with ⟨below, hParts⟩
  rcases hReal.directory with ⟨entries, hDirectory⟩
  rw [← hParts] at hDirectory
  refine ⟨hAnchor ▸ hReal.anchor,
    directory_of_append hDirectory, fun name hName => ?_⟩
  apply hReal.named name
  rw [← hParts]
  exact List.mem_append_left below hName

theorem IsReal.parent
    (hReal : fs.IsReal d) :
    fs.IsReal d.parent :=
  hReal.of_mem_ancestry
    (Path.mem_ancestry_of_parent (Path.mem_ancestry_self _))

/- A directory of a proper tree is reached by its names. -/
theorem isReal_of_proper
    (hProper : fs.root.Proper)
    (hAnchor : d.anchor ≠ .working)
    {entries : Node.Entries}
    (hDirectory :
      fs.root.at? d.parts = some (.directory entries)) :
    fs.IsReal d := by
  refine ⟨hAnchor, ⟨entries, hDirectory⟩, fun name hName => ?_⟩
  rcases List.append_of_mem hName with ⟨above, below, hParts⟩
  rw [hParts, ← List.singleton_append, ← List.append_assoc]
    at hDirectory
  rcases directory_of_append hDirectory with ⟨outer, hOuter⟩
  exact hProper.named above name outer hOuter

------------------------------------------------------------
-- Later Trees
------------------------------------------------------------

theorem IsReal.of_grows
    (hReal : fs.IsReal d)
    (hGrows : fs.root.Grows fs'.root) :
    fs'.IsReal d := by
  rcases hReal.directory with ⟨entries, hDirectory⟩
  exact ⟨hReal.anchor, hGrows.directory hDirectory, hReal.named⟩

theorem exists?_eq_true_iff
    {p : Path} :
    fs.exists? p = .ok true ↔
      ∃ loc node, fs.locate .target p = .ok ⟨loc, some node⟩ := by
  unfold exists? follow?
  constructor
  · intro hThere
    split at hThere
    · next place hPlace =>
        rcases place with ⟨loc, node?⟩
        cases node? with
        | none => simp [Except.map] at hThere
        | some node => exact ⟨loc, node, hPlace⟩
    · simp [Except.map] at hThere
    · simp [Except.map] at hThere
  · rintro ⟨loc, node, hPlace⟩
    rw [hPlace]
    rfl

/- What exists goes on existing in a tree that grows. -/
theorem exists?_of_begins
    {p : Path}
    (hBegins : fs.Begins p)
    (hGrows : fs.root.Grows fs'.root)
    (hStart : fs'.start p = fs.start p)
    (hThere : fs.exists? p = .ok true) :
    fs'.exists? p = .ok true := by
  rcases exists?_eq_true_iff.mp hThere with ⟨loc, node, hPlace⟩
  rcases locate_of_begins hGrows (Or.inl rfl) hBegins hStart
      hPlace with
    ⟨hStands, hPlace'⟩
  rcases hGrows.kept loc node hStands.node.symm with
    ⟨node', hNode', _⟩
  dsimp only at hPlace'
  rw [hNode'] at hPlace'
  exact exists?_eq_true_iff.mpr ⟨loc, node', hPlace'⟩

theorem exists?_of_grows
    {p : Path}
    (hAnchor : p.anchor ≠ .working)
    (hGrows : fs.root.Grows fs'.root)
    (hThere : fs.exists? p = .ok true) :
    fs'.exists? p = .ok true :=
  exists?_of_begins (begins_of_anchor fs hAnchor) hGrows
    (start_congr fs fs' hAnchor) hThere

/-
  What exists in a tree exists in one that tracks it, unless
  it is missing there.
-/
theorem exists?_of_tracks
    {p : Path}
    (hAnchor : p.anchor ≠ .working)
    (hTracks : fs.root.Tracks fs'.root)
    (hThere : fs.exists? p = .ok true) :
    fs'.exists? p = .ok true ∨
      ∃ loc node,
        fs.root.at? loc = some node ∧
          fs'.locate .target p = .ok ⟨loc, none⟩ := by
  rcases exists?_eq_true_iff.mp hThere with ⟨loc, node, hPlace⟩
  rcases locate_of_tracks hTracks (Or.inl rfl) hAnchor hPlace with
    ⟨hStands, hPlace'⟩
  cases hNode : fs'.root.at? loc with
  | some node' =>
      dsimp only at hPlace'
      rw [hNode] at hPlace'
      exact Or.inl
        (exists?_eq_true_iff.mpr ⟨loc, node', hPlace'⟩)
  | none =>
      dsimp only at hPlace'
      rw [hNode] at hPlace'
      exact Or.inr ⟨loc, node, hStands.node.symm, hPlace'⟩

/- What is read stays, if the same is seen at its place. -/
theorem read_congr
    {p : Path}
    (hAnchor : p.anchor ≠ .working)
    (hGrows : fs.root.Grows fs'.root)
    {loc : Location}
    {node : Node}
    (hPlace : fs.locate .target p = .ok ⟨loc, some node⟩)
    (hSeen : fs'.root.seen? loc = fs.root.seen? loc) :
    fs'.read p = fs.read p := by
  rcases locate_of_grows hGrows (Or.inl rfl) hAnchor hPlace with
    ⟨hStands, hPlace'⟩
  have hNode : fs.root.at? loc = some node := hStands.node.symm
  unfold read
  rw [hPlace, hPlace']
  have hLeaf : fs'.root.seen? loc = some node.leaf := by
    rw [hSeen]
    unfold Node.seen?
    rw [hNode]
    rfl
  cases node with
  | file content =>
      dsimp only
      rw [Node.seen?_eq_file_iff.mp hLeaf]
  | link target =>
      dsimp only
      rw [Node.seen?_eq_link_iff.mp hLeaf]
  | directory entries =>
      rcases Node.seen?_eq_directory_iff.mp hLeaf with
        ⟨entries', hEntries⟩
      dsimp only
      rw [hEntries]
      rfl

end FileSystem

end BiomeMigration
