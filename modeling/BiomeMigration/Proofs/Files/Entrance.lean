import BiomeMigration.Proofs.Files.Entries
import BiomeMigration.Proofs.Files.Opening

/-
  Look-ups of the entries of a directory that a path leads
  to in any way, through links and steps up as well. The
  look-up of an entry takes the same way, and ends at the
  place of the entry unless a link is there to be followed.

  Main declarations:
    * `FileSystem.walkLinks_entrance`
    * `FileSystem.Enters`
    * `FileSystem.exists_enters`
    * `FileSystem.Enters.locate_child`
-/

namespace BiomeMigration

/- A name can be asked for in any directory. -/
structure Path.IsUsualName (name : String) : Prop where
  entry : IsEntryName name
  short : name.utf8ByteSize ≤ FileSystem.nameLimit
  plain : name.toList.contains '\x00' = false

namespace FileSystem

------------------------------------------------------------
-- One More Step
------------------------------------------------------------

variable {root : Node} {ending : Ending} {above : Location}
variable {entries : Node.Entries} {name : String}

/-
  Steps that lead into a directory lead to an entry of it
  with one step more, if that is so for the links on the way.
-/
theorem walk_entrance
    {follow follow' :
      Location → String → List Step → Except Problem Place}
    {found : Place}
    (hFollow :
      ∀ loc target rest,
        follow loc target rest =
            .ok ⟨above, some (.directory entries)⟩ →
          follow' loc target (rest ++ [.down name]) = .ok found)
    (hLast :
      walk root ending follow' above (.directory entries)
          [.down name] =
        .ok found)
    {loc : Location}
    {node : Node}
    {steps : List Step}
    (hWalk :
      walk root .target follow loc node steps =
        .ok ⟨above, some (.directory entries)⟩) :
    walk root ending follow' loc node (steps ++ [.down name]) =
      .ok found := by
  induction steps generalizing loc node with
  | nil =>
      rcases Except.ok.inj hWalk with ⟨⟩
      exact hLast
  | cons step rest ih =>
      cases node with
      | file content => cases hWalk
      | link target => cases hWalk
      | directory inner =>
          cases step with
          | here => exact ih hWalk
          | up => exact ih hWalk
          | down part =>
              rw [List.cons_append]
              rw [walk] at hWalk ⊢
              dsimp only at hWalk ⊢
              split at hWalk
              · cases hWalk
              · next hShort =>
                  rw [if_neg hShort]
                  split at hWalk
                  · split at hWalk
                    · cases hWalk
                    · cases hWalk
                  · rw [if_neg (by simp)] at hWalk ⊢
                    exact hFollow _ _ _ hWalk
                  · exact ih hWalk

theorem walkLinks_entrance
    (hAbove : root.at? above = some (.directory entries))
    (hShort : name.utf8ByteSize ≤ nameLimit)
    (hNoLink :
      ∀ target,
        root.at? (above ++ [name]) = some (.link target) →
          ending = .link)
    {links : Nat}
    {loc : Location}
    {node : Node}
    {steps : List Step}
    (hWalk :
      walkLinks root .target links loc node steps =
        .ok ⟨above, some (.directory entries)⟩) :
    walkLinks root ending links loc node
        (steps ++ [.down name]) =
      .ok ⟨above ++ [name], root.at? (above ++ [name])⟩ := by
  have hLast :
      ∀ follow,
        walk root ending follow above (.directory entries)
            [.down name] =
          .ok ⟨above ++ [name], root.at? (above ++ [name])⟩ := by
    intro follow
    rw [walk_down follow hAbove, if_neg (Nat.not_lt.mpr hShort)]
    cases hEntry : root.at? (above ++ [name]) with
    | none => rfl
    | some child =>
        cases child with
        | file content => rfl
        | directory inner => rfl
        | link target =>
            rw [hNoLink target hEntry]
            rfl
  induction links generalizing loc node steps with
  | zero =>
      apply walk_entrance _ (hLast _) hWalk
      rintro _ _ _ ⟨⟩
  | succ links ih =>
      apply walk_entrance _ (hLast _) hWalk
      intro _ target rest hLink
      -- A step follows the link, so that its slash is no end.
      cases hSlashed : slashedSteps? target with
      | none =>
          simp only [hSlashed, ← List.append_assoc] at hLink ⊢
          exact ih hLink
      | some inner =>
          simp only [hSlashed, ← List.append_assoc] at hLink ⊢
          rw [if_neg (by simp)] at hLink ⊢
          exact ih hLink

------------------------------------------------------------
-- Paths into Directories
------------------------------------------------------------

/- A path leads to the directory at a place. -/
def Enters
    (fs : FileSystem)
    (p : Path)
    (above : Location) : Prop :=
  ∃ entries,
    fs.locate .target p =
        .ok ⟨above, some (.directory entries)⟩ ∧
      fs.root.at? above = some (.directory entries)

variable {fs : FileSystem} {p : Path}

theorem exists_enters
    (hBegins : fs.Begins p)
    (hDirectory : fs.isDirectory? p = .ok true) :
    ∃ above, fs.Enters p above := by
  unfold isDirectory? follow? at hDirectory
  cases hPlace : fs.locate .target p with
  | error fault =>
      rw [hPlace] at hDirectory
      cases fault with
      | refused problem path =>
          cases problem <;> cases hDirectory
      | _ => cases hDirectory
  | ok place =>
      rcases place with ⟨above, node?⟩
      have hStands :=
        (locate_of_begins (Node.Grows.refl fs.root) (Or.inl rfl)
          hBegins rfl hPlace).1
      rw [hPlace] at hDirectory
      cases node? with
      | none => cases hDirectory
      | some node =>
          cases node with
          | directory entries =>
              exact ⟨above, entries, hPlace, hStands.node.symm⟩
          | file content => cases hDirectory
          | link target => cases hDirectory

/- A path that is too long leads nowhere. -/
theorem locate_of_long
    (hNul : p.hasNul = false)
    (hLong : pathLimit < p.text.utf8ByteSize) :
    fs.locate ending p = .error (.refused .nameTooLong p.text) := by
  unfold locate lookUp
  rw [if_neg (by simp [hNul]), if_pos hLong]
  rfl

/-
  The path of an entry leads to its place, unless it is too
  long or a link there is to be followed.
-/
theorem Enters.locate_child
    (hEnters : fs.Enters p above)
    (hName : Path.IsUsualName name)
    (hText : (p.child name).text.utf8ByteSize ≤ pathLimit)
    (hNoLink :
      ∀ target,
        fs.root.at? (above ++ [name]) = some (.link target) →
          ending = .link) :
    fs.locate ending (p.child name) =
      .ok ⟨above ++ [name], fs.root.at? (above ++ [name])⟩ := by
  rcases hEnters with ⟨entries, hPlace, hAbove⟩
  rw [Path.child_eq hName.entry] at hText ⊢
  unfold locate at hPlace ⊢
  split at hPlace
  · cases hPlace
  · next hNul =>
      have hNul' :
          ¬ (⟨p.anchor, p.parts ++ [name]⟩ : Path).hasNul := by
        unfold Path.hasNul at hNul ⊢
        rw [List.any_append, List.any_cons, List.any_nil,
          hName.plain]
        simpa using hNul
      rw [if_neg hNul']
      apply mapError_eq_ok_iff.mpr
      have hLookUp := mapError_eq_ok_iff.mp hPlace
      unfold lookUp at hLookUp ⊢
      split at hLookUp
      · cases hLookUp
      · rw [if_neg (Nat.not_lt.mpr hText), List.map_append,
          List.map_singleton, hName.entry.2]
        exact walkLinks_entrance hAbove hName.short hNoLink
          hLookUp

end FileSystem

end BiomeMigration
