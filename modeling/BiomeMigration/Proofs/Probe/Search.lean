import BiomeMigration.Proofs.Files.Entries

/-
  What a search for one name in some directories comes to: the
  nearest directory that holds it, none, or a refusal.

  Main declarations:
    * `Path.ancestry_eq`
    * `FileSystem.Holds`
    * `Probe.Nearest`
    * `Probe.nearest_cases`
    * `Probe.find_of_straight`
-/

------------------------------------------------------------
-- Ancestry
------------------------------------------------------------

namespace BiomeMigration

namespace Path

theorem ancestryOf_cons
    (anchor : Anchor)
    (part : String)
    (parts : List String) :
    ancestryOf anchor (part :: parts) =
      ⟨anchor, part :: parts⟩
        :: ancestryOf anchor (part :: parts).dropLast := by
  induction parts generalizing part with
  | nil => rfl
  | cons next parts ih =>
      rw [ancestryOf, ih next]
      rfl

/- Above a path are the paths from its parent on. -/
theorem ancestry_eq (p : Path) :
    p.ancestry =
      p :: if p.parts = [] then [] else p.parent.ancestry := by
  rcases p with ⟨anchor, parts⟩
  cases parts with
  | nil => rfl
  | cons part parts => exact ancestryOf_cons anchor part parts

end Path

------------------------------------------------------------
-- Search
------------------------------------------------------------

/- A name leads to a node in a directory. -/
def FileSystem.Holds
    (fs : FileSystem)
    (d : Path)
    (name : String) : Prop :=
  fs.exists? (d.child name) = .ok true

namespace Probe

variable {fs fs' : FileSystem} {name : String} {d : Path}
variable {directories : List Path}

/- The first of some directories that holds a name. -/
def Nearest
    (fs : FileSystem)
    (name : String)
    (directories : List Path)
    (d : Path) : Prop :=
  ∃ nearer farther,
    directories = nearer ++ d :: farther ∧
      fs.Holds d name ∧ ∀ e ∈ nearer, ¬ fs.Holds e name

theorem not_nearest_nil : ¬ Nearest fs name [] d := by
  rintro ⟨nearer, farther, hSplit, _⟩
  simp at hSplit

theorem nearest_cons_iff
    {e : Path} :
    Nearest fs name (d :: directories) e ↔
      fs.Holds d name ∧ e = d ∨
        ¬ fs.Holds d name ∧ Nearest fs name directories e := by
  constructor
  · rintro ⟨nearer, farther, hSplit, hHolds, hNearer⟩
    cases nearer with
    | nil =>
        rcases List.cons.inj hSplit with ⟨rfl, rfl⟩
        exact Or.inl ⟨hHolds, rfl⟩
    | cons first nearer =>
        rcases List.cons.inj hSplit with ⟨rfl, rfl⟩
        exact Or.inr ⟨hNearer d (by simp), nearer, farther, rfl,
          hHolds, fun f hf => hNearer f (by simp [hf])⟩
  · rintro (⟨hHolds, rfl⟩ |
      ⟨hNot, nearer, farther, rfl, hHolds, hNearer⟩)
    · exact ⟨[], directories, rfl, hHolds, by simp⟩
    · refine ⟨d :: nearer, farther, rfl, hHolds, ?_⟩
      intro f hf
      rcases List.mem_cons.mp hf with rfl | hIn
      · exact hNot
      · exact hNearer f hIn

/- There is one nearest directory at most. -/
theorem Nearest.unique
    {e : Path}
    (hNearest : Nearest fs name directories d)
    (hOther : Nearest fs name directories e) :
    d = e := by
  induction directories with
  | nil => exact (not_nearest_nil hNearest).elim
  | cons first directories ih =>
      rcases nearest_cons_iff.mp hNearest with
        ⟨hHolds, rfl⟩ | ⟨hNot, hLater⟩
      · rcases nearest_cons_iff.mp hOther with
          ⟨_, rfl⟩ | ⟨hNot, _⟩
        · rfl
        · exact (hNot hHolds).elim
      · rcases nearest_cons_iff.mp hOther with
          ⟨hHolds, _⟩ | ⟨_, hLater'⟩
        · exact (hNot hHolds).elim
        · exact ih hLater hLater'

theorem inDirectory_singleton
    (fs : FileSystem)
    (d : Path)
    (name : String) :
    inDirectory fs d [name] =
      (fs.exists? (d.child name)).map fun there =>
        if there then some ⟨d, d.child name, name⟩ else none := by
  unfold inDirectory inDirectory
  dsimp only
  cases fs.exists? (d.child name) with
  | error fault => rfl
  | ok there =>
      cases there with
      | false => rfl
      | true => rfl

/- A search comes to the nearest directory or is refused. -/
theorem nearest_cases
    (fs : FileSystem)
    (name : String)
    (directories : List Path) :
    (∃ d ∈ directories, ∃ fault,
        fs.exists? (d.child name) = .error fault ∧
          nearest fs [name] directories = .error fault) ∨
      (∃ d,
        Nearest fs name directories d ∧
          nearest fs [name] directories =
            .ok (some ⟨d, d.child name, name⟩)) ∨
      (∀ d ∈ directories, ¬ fs.Holds d name) ∧
        nearest fs [name] directories = .ok none := by
  induction directories with
  | nil => exact Or.inr (Or.inr ⟨by simp, rfl⟩)
  | cons d directories ih =>
      rw [nearest, inDirectory_singleton]
      cases hThere : fs.exists? (d.child name) with
      | error fault =>
          exact Or.inl ⟨d, by simp, fault, hThere, rfl⟩
      | ok there =>
          cases there with
          | true =>
              refine Or.inr (Or.inl ⟨d, ?_, rfl⟩)
              exact nearest_cons_iff.mpr (Or.inl ⟨hThere, rfl⟩)
          | false =>
              have hNot : ¬ fs.Holds d name := by
                unfold FileSystem.Holds
                rw [hThere]
                simp
              rcases ih with
                ⟨e, he, fault, hFault, hSearch⟩ |
                  ⟨e, hNearest, hSearch⟩ | ⟨hNone, hSearch⟩
              · exact Or.inl
                  ⟨e, by simp [he], fault, hFault, hSearch⟩
              · refine Or.inr (Or.inl ⟨e, ?_, hSearch⟩)
                exact nearest_cons_iff.mpr
                  (Or.inr ⟨hNot, hNearest⟩)
              · refine Or.inr (Or.inr ⟨?_, hSearch⟩)
                intro e he
                rcases List.mem_cons.mp he with rfl | hIn
                · exact hNot
                · exact hNone e hIn

/- A search depends on what exists only. -/
theorem nearest_congr
    (hSame :
      ∀ d ∈ directories,
        fs'.exists? (d.child name) =
          fs.exists? (d.child name)) :
    nearest fs' [name] directories =
      nearest fs [name] directories := by
  induction directories with
  | nil => rfl
  | cons d directories ih =>
      rw [nearest, nearest, inDirectory_singleton,
        inDirectory_singleton, hSame d (by simp),
        ih fun e he => hSame e (by simp [he])]

/- A search goes up from what its start stands for. -/
theorem find_of_resolve
    {p : Path}
    (hResolve : fs.resolve p = .ok d)
    (names : List String) :
    find fs p names = nearest fs names d.ancestry := by
  unfold find
  rw [hResolve]
  rfl

/- A straight path stands for itself. -/
theorem find_of_straight
    (hStraight : fs.Straight d)
    (hNul : d.hasNul = false)
    (names : List String) :
    find fs d names = nearest fs names d.ancestry := by
  apply find_of_resolve
  rw [hStraight.resolve, hNul]
  rfl

end Probe

end BiomeMigration
