import BiomeMigration.Proofs.Files.Touch

/-
  The opening of a file that is there. A path that leads to
  a file is opened for writing at its place: the one look-up
  refuses a link to a name with a slash behind it, and the
  other one finds a directory there or nothing. What is
  written to the file is what is read from it, and a second
  text takes the place of the first.

  Main declarations:
    * `FileSystem.ends_inside_of_here`
    * `FileSystem.walkLinks_newFile`
    * `FileSystem.LeadsTo.opens`
    * `FileSystem.HasWorking`
    * `FileSystem.leadsTo_setFile`
    * `FileSystem.setFile_setFile`
-/

------------------------------------------------------------
-- Putting Two Files
------------------------------------------------------------

namespace BiomeMigration

namespace Node

theorem set_set
    (entries : Entries)
    (name : String)
    (first second : Node) :
    set (set entries name first) name second =
      set entries name second := by
  induction entries with
  | nil => simp [set]
  | cons e rest ih =>
      rcases e with ⟨n, old⟩
      by_cases hName : n = name
      · simp [set, hName]
      · simp [set, hName, ih]

/- What is put at a place takes the place of what was there. -/
theorem put_put
    (root first second : Node)
    (loc : Location) :
    (root.put first loc).put second loc =
      root.put second loc := by
  induction loc generalizing root with
  | nil => rfl
  | cons name rest ih =>
      simp only [put, find?_set, if_true, Option.getD_some,
        set_set, ih]

end Node

------------------------------------------------------------
-- Slashes
------------------------------------------------------------

namespace FileSystem

variable {root : Node} {ending : Ending}
variable {loc : Location} {content : Bytes} {place : Place}

/- A place is that of a directory. -/
def Place.IsInside (place : Place) : Prop :=
  ∃ entries, place.node? = some (.directory entries)

/- Steps that end with a step on the spot lead inside. -/
theorem walk_inside
    {follow :
      Location → String → List Step → Except Problem Place}
    (hFollow :
      ∀ {loc target rest place},
        follow loc target (rest ++ [.here]) = .ok place →
          place.IsInside)
    {node : Node}
    {steps : List Step}
    (hWalk :
      walk root ending follow loc node (steps ++ [.here]) =
        .ok place) :
    place.IsInside := by
  induction steps generalizing loc node with
  | nil =>
      cases node with
      | file content => simp [walk] at hWalk
      | link target => simp [walk] at hWalk
      | directory entries =>
          rcases Except.ok.inj hWalk with rfl
          exact ⟨entries, rfl⟩
  | cons step rest ih =>
      cases node with
      | file content => simp [walk] at hWalk
      | link target => simp [walk] at hWalk
      | directory entries =>
          cases step with
          | here => exact ih hWalk
          | up => exact ih hWalk
          | down name =>
              rw [List.cons_append, walk] at hWalk
              dsimp only at hWalk
              split at hWalk
              · cases hWalk
              · split at hWalk
                · simp at hWalk
                · rw [if_neg (by simp)] at hWalk
                  exact hFollow hWalk
                · exact ih hWalk

theorem ends_inside_of_here
    {links : Nat}
    {node : Node}
    {steps : List Step}
    (hWalk :
      walkLinks root ending links loc node (steps ++ [.here]) =
        .ok place) :
    place.IsInside := by
  induction links generalizing loc node steps place with
  | zero =>
      apply walk_inside _ hWalk
      rintro _ _ _ _ ⟨⟩
  | succ links ih =>
      apply walk_inside _ hWalk
      intro _ target rest _ hFollow
      dsimp only at hFollow
      split at hFollow
      · rw [if_neg (by simp), ← List.append_assoc] at hFollow
        exact ih hFollow
      · rw [← List.append_assoc] at hFollow
        exact ih hFollow

/- A slash at the end of a target is a step on the spot. -/
theorem targetSteps_of_slashed
    {target : String}
    {steps : List Step}
    (hSlashed : slashedSteps? target = some steps) :
    ∃ front, targetSteps target = front ++ [.here] := by
  unfold slashedSteps? at hSlashed
  dsimp only at hSlashed
  split at hSlashed
  · next hLast =>
      rcases List.getLast?_eq_some_iff.mp hLast with
        ⟨front, hFront⟩
      refine ⟨front.map Step.ofString, ?_⟩
      rw [targetSteps, hFront, List.map_append]
      rfl
  · cases hSlashed

------------------------------------------------------------
-- Files
------------------------------------------------------------

/- A look-up has found the file of a place. -/
def Found
    (loc : Location)
    (content : Bytes)
    (found : Except Problem Place) : Prop :=
  found = .ok ⟨loc, some (.file content)⟩

theorem walk_newFile
    {follow follow' :
      Location → String → List Step → Except Problem Place}
    (hFollow :
      ∀ above target rest,
        Found loc content (follow above target rest) →
          Found loc content (follow' above target rest))
    {above : Location}
    {node : Node}
    {steps : List Step}
    (hFound :
      Found loc content
        (walk root .target follow above node steps)) :
    Found loc content
      (walk root .newFile follow' above node steps) := by
  induction steps generalizing above node with
  | nil => exact hFound
  | cons step rest ih =>
      cases node with
      | file content => cases hFound
      | link target => cases hFound
      | directory entries =>
          cases step with
          | here => exact ih hFound
          | up => exact ih hFound
          | down name =>
              rw [walk] at hFound ⊢
              dsimp only at hFound ⊢
              split at hFound
              · cases hFound
              · next hShort =>
                  rw [if_neg hShort]
                  split at hFound
                  · split at hFound
                    · cases hFound
                    · cases hFound
                  · rw [if_neg (by simp)] at hFound ⊢
                    exact hFollow _ _ _ hFound
                  · exact ih hFound

/- A file that a path leads to is there for writing. -/
theorem walkLinks_newFile
    {links : Nat}
    {above : Location}
    {node : Node}
    {steps : List Step}
    (hFound :
      Found loc content
        (walkLinks root .target links above node steps)) :
    Found loc content
      (walkLinks root .newFile links above node steps) := by
  induction links generalizing above node steps with
  | zero =>
      apply walk_newFile _ hFound
      rintro _ _ _ ⟨⟩
  | succ links ih =>
      apply walk_newFile _ hFound
      intro _ target rest hLink
      cases hSlashed : slashedSteps? target with
      | none =>
          simp only [hSlashed] at hLink ⊢
          exact ih hLink
      | some inner =>
          simp only [hSlashed] at hLink ⊢
          rw [if_neg (by simp)] at hLink
          cases rest with
          | cons step rest =>
              rw [if_neg (by simp)]
              exact ih hLink
          | nil =>
              -- Behind the slash is a directory, no file.
              rcases targetSteps_of_slashed hSlashed with
                ⟨front, hFront⟩
              rw [List.append_nil, hFront] at hLink
              rcases ends_inside_of_here hLink with
                ⟨entries, hInside⟩
              cases hInside

------------------------------------------------------------
-- Paths
------------------------------------------------------------

variable {fs : FileSystem} {p : Path} {old : Bytes}

theorem LeadsTo.opens
    (hLeads : fs.LeadsTo p loc content) :
    fs.openForWriting p = .ok (loc, content) := by
  have hPlace :
      fs.locate .newFile p = .ok ⟨loc, some (.file content)⟩ := by
    unfold LeadsTo locate at hLeads
    unfold locate
    split at hLeads
    · cases hLeads
    · next hNul =>
        rw [if_neg hNul]
        have hLookUp := mapError_eq_ok_iff.mp hLeads
        unfold lookUp at hLookUp
        apply mapError_eq_ok_iff.mpr
        unfold lookUp
        split at hLookUp
        · cases hLookUp
        · next hShort =>
            rw [if_neg hShort]
            exact walkLinks_newFile hLookUp
  unfold FileSystem.openForWriting
  rw [hPlace]
  rfl

theorem write_of_opens
    (hOpen : fs.openForWriting p = .ok (loc, old))
    (new : Bytes) :
    fs.write p new = .ok (fs.setFile loc new) := by
  unfold write
  rw [hOpen]
  rfl

/- The working directory is a directory of the tree. -/
def HasWorking (fs : FileSystem) : Prop :=
  ∃ entries, fs.root.at? fs.working = some (.directory entries)

theorem HasWorking.begins
    (hWorking : fs.HasWorking)
    (p : Path) :
    fs.Begins p := by
  unfold Begins start
  split
  · rcases hWorking with ⟨entries, hDirectory⟩
    exact ⟨_, hDirectory⟩
  · exact ⟨fs.root, rfl⟩

/- What is written to a path that can be opened is there. -/
theorem leadsTo_setFile
    (hBegins : fs.Begins p)
    (hOpen : fs.openForWriting p = .ok (loc, old))
    (new : Bytes) :
    (fs.setFile loc new).LeadsTo p loc new := by
  rcases rewrites_of_begins hBegins (write_of_opens hOpen new)
    with ⟨place, hPlace, hRewrites⟩
  rcases locate_of_openForWriting hOpen with ⟨node?, hPlace'⟩
  rw [hPlace] at hPlace'
  rcases Except.ok.inj hPlace' with rfl
  exact hRewrites.leads

theorem begins_setFile
    (hBegins : fs.Begins p)
    (hOpen : fs.openForWriting p = .ok (loc, old))
    (new : Bytes) :
    (fs.setFile loc new).Begins p := by
  rcases rewrites_of_begins hBegins (write_of_opens hOpen new)
    with ⟨_, _, hRewrites⟩
  exact hBegins.of_grows hRewrites.grows rfl

theorem setFile_setFile
    (fs : FileSystem)
    (loc : Location)
    (first second : Bytes) :
    (fs.setFile loc first).setFile loc second =
      fs.setFile loc second := by
  unfold setFile
  rw [Node.put_put]

end FileSystem

end BiomeMigration
