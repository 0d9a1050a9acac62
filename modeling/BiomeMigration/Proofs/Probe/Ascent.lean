import BiomeMigration.Proofs.Probe.Conduct

/-
  What a search for some names comes to, from a directory up
  to the root directory: the first name in order that the
  nearest directory with any of them holds, nothing, or the
  first look-up that is refused.

  Main declarations:
    * `Path.above`
    * `Probe.Reaches`
    * `Probe.nearest_ancestry_cases`
    * `Probe.find_ascends`
-/

------------------------------------------------------------
-- Steps Up
------------------------------------------------------------

namespace BiomeMigration

/-
  The directory some steps above a path. The root directory
  is above itself.
-/
def Path.above : Path → Nat → Path
  | p, 0 => p
  | p, k + 1 => p.parent.above k

theorem Path.above_of_top
    {p : Path}
    (hTop : p.parts = [])
    (k : Nat) :
    p.above k = p := by
  have hParent : p.parent = p := by
    unfold parent
    rw [hTop, List.dropLast_nil, ← hTop]
  induction k with
  | zero => rfl
  | succ k ih => rw [above, hParent, ih]

------------------------------------------------------------
-- Look-Ups
------------------------------------------------------------

/-
  A name leads to no node in a directory, and the look-up is
  not refused.
-/
def FileSystem.Lacks
    (fs : FileSystem)
    (d : Path)
    (name : String) : Prop :=
  fs.exists? (d.child name) = .ok false

namespace FileSystem

variable {fs : FileSystem} {p d : Path} {name : String}

theorem Holds.not_lacks
    (hHolds : fs.Holds d name) :
    ¬ fs.Lacks d name := by
  intro hLacks
  cases hHolds.symm.trans hLacks

theorem not_lacks_of_error
    {fault : PathFault}
    (hFault : fs.exists? (d.child name) = .error fault) :
    ¬ fs.Lacks d name := by
  intro hLacks
  cases hFault.symm.trans hLacks

/- A look-up is only refused for the length of a name. -/
theorem refusal_of_exists?
    {fault : PathFault}
    (hFault : fs.exists? p = .error fault) :
    ∃ path, fault = .refused .nameTooLong path := by
  cases hFollow : fs.follow? p with
  | ok node? =>
      unfold exists? at hFault
      rw [hFollow] at hFault
      cases hFault
  | error fault' =>
      unfold exists? at hFault
      rw [hFollow] at hFault
      rcases Except.error.inj hFault with rfl
      unfold follow? at hFollow
      split at hFollow
      · cases hFollow
      · next path _ => exact ⟨path, (Except.error.inj hFollow).symm⟩
      · cases hFollow

end FileSystem

namespace Probe

variable {fs : FileSystem} {p d start : Path}
variable {names : List String} {name name' : String}
variable {k k' : Nat}

/-
  A directory is asked for a name: it lacks all names that
  come before it in order.
-/
def AskedFor
    (fs : FileSystem)
    (d : Path)
    (names : List String)
    (name : String) : Prop :=
  ∃ earlier later,
    names = earlier ++ name :: later ∧
      ∀ e ∈ earlier, fs.Lacks d e

/-
  A search reaches a name some steps above its start: the
  directory there is asked for it, and all nearer directories
  lack all names.
-/
def Reaches
    (fs : FileSystem)
    (start : Path)
    (names : List String)
    (k : Nat)
    (name : String) : Prop :=
  AskedFor fs (start.above k) names name ∧
    ∀ j < k, ∀ n ∈ names, fs.Lacks (start.above j) n

theorem AskedFor.mem
    (hAsked : AskedFor fs d names name) :
    name ∈ names := by
  rcases hAsked with ⟨earlier, later, rfl, _⟩
  simp

theorem AskedFor.cons
    {first : String}
    (hFirst : fs.Lacks d first)
    (hAsked : AskedFor fs d names name) :
    AskedFor fs d (first :: names) name := by
  rcases hAsked with ⟨earlier, later, rfl, hEarlier⟩
  exact ⟨first :: earlier, later, rfl,
    List.forall_mem_cons.mpr ⟨hFirst, hEarlier⟩⟩

/- There is one name that a directory does not lack first. -/
theorem AskedFor.unique
    (hAsked : AskedFor fs d names name)
    (hAsked' : AskedFor fs d names name')
    (hStop : ¬ fs.Lacks d name)
    (hStop' : ¬ fs.Lacks d name') :
    name = name' := by
  rcases hAsked with ⟨earlier, later, rfl, hEarlier⟩
  rcases hAsked' with ⟨earlier', later', hSplit, hEarlier'⟩
  rcases List.append_eq_append_iff.mp hSplit with
    ⟨between, hBefore, hAfter⟩ | ⟨between, hBefore, hAfter⟩
  · cases between with
    | nil => exact (List.cons.inj hAfter).1
    | cons n between =>
        rcases List.cons.inj hAfter with ⟨rfl, _⟩
        exact (hStop (hEarlier' name (by simp [hBefore]))).elim
  · cases between with
    | nil => exact (List.cons.inj hAfter).1.symm
    | cons n between =>
        rcases List.cons.inj hAfter with ⟨rfl, _⟩
        exact (hStop' (hEarlier name' (by simp [hBefore]))).elim

/- There is one place where a search stops. -/
theorem Reaches.unique
    (hReaches : Reaches fs start names k name)
    (hReaches' : Reaches fs start names k' name')
    (hStop : ¬ fs.Lacks (start.above k) name)
    (hStop' : ¬ fs.Lacks (start.above k') name') :
    k = k' ∧ name = name' := by
  rcases Nat.lt_trichotomy k k' with hNearer | rfl | hFarther
  · exact (hStop (hReaches'.2 k hNearer name
      hReaches.1.mem)).elim
  · exact ⟨rfl, hReaches.1.unique hReaches'.1 hStop hStop'⟩
  · exact (hStop' (hReaches.2 k' hFarther name'
      hReaches'.1.mem)).elim

------------------------------------------------------------
-- Searches
------------------------------------------------------------

/-
  In one directory, a search comes to a name that it holds,
  to a look-up that is refused, or to the end of the names.
-/
theorem inDirectory_cases
    (fs : FileSystem)
    (d : Path)
    (names : List String) :
    (∃ name,
        AskedFor fs d names name ∧ fs.Holds d name ∧
          inDirectory fs d names =
            .ok (some ⟨d, d.child name, name⟩)) ∨
      (∃ name fault,
        AskedFor fs d names name ∧
          fs.exists? (d.child name) = .error fault ∧
          inDirectory fs d names = .error fault) ∨
      (∀ n ∈ names, fs.Lacks d n) ∧
        inDirectory fs d names = .ok none := by
  induction names with
  | nil => exact Or.inr (Or.inr ⟨by simp, rfl⟩)
  | cons name names ih =>
      have hHere : AskedFor fs d (name :: names) name :=
        ⟨[], names, rfl, by simp⟩
      rw [inDirectory]
      cases hThere : fs.exists? (d.child name) with
      | error fault =>
          exact Or.inr (Or.inl ⟨name, fault, hHere, hThere, rfl⟩)
      | ok there =>
          cases there with
          | true => exact Or.inl ⟨name, hHere, hThere, rfl⟩
          | false =>
              rcases ih with
                ⟨later, hAsked, hHolds, hResult⟩ |
                  ⟨later, fault, hAsked, hFault, hResult⟩ |
                    ⟨hNone, hResult⟩
              · exact Or.inl
                  ⟨later, hAsked.cons hThere, hHolds, hResult⟩
              · exact Or.inr (Or.inl
                  ⟨later, fault, hAsked.cons hThere, hFault,
                    hResult⟩)
              · exact Or.inr (Or.inr
                  ⟨List.forall_mem_cons.mpr ⟨hThere, hNone⟩,
                    hResult⟩)

/- A search starts where it is. -/
theorem AskedFor.reaches
    (hAsked : AskedFor fs start names name) :
    Reaches fs start names 0 name :=
  ⟨hAsked, fun j hj => (Nat.not_lt_zero j hj).elim⟩

/- A search that goes on from the parent is one step ahead. -/
theorem Reaches.of_parent
    (hHere : ∀ n ∈ names, fs.Lacks start n)
    (hReaches : Reaches fs start.parent names k name) :
    Reaches fs start names (k + 1) name := by
  refine ⟨hReaches.1, fun j hj n hn => ?_⟩
  cases j with
  | zero => exact hHere n hn
  | succ j => exact hReaches.2 j (Nat.lt_of_succ_lt_succ hj) n hn

/-
  From a directory up, a search stops at a name that is held,
  or at a look-up that is refused, or all directories lack
  all names. The induction is on the steps to the root, where
  the search ends.
-/
theorem nearest_ancestry_cases
    (fs : FileSystem)
    (names : List String)
    (start : Path) :
    (∃ k name,
        Reaches fs start names k name ∧
          fs.Holds (start.above k) name ∧
          nearest fs names start.ancestry =
            .ok (some ⟨start.above k,
              (start.above k).child name, name⟩)) ∨
      (∃ k name fault,
        Reaches fs start names k name ∧
          fs.exists? ((start.above k).child name) =
            .error fault ∧
          nearest fs names start.ancestry = .error fault) ∨
      (∀ k, ∀ n ∈ names, fs.Lacks (start.above k) n) ∧
        nearest fs names start.ancestry = .ok none := by
  induction hSteps : start.parts.length generalizing start with
  | zero =>
      have hTop : start.parts = [] :=
        List.eq_nil_of_length_eq_zero hSteps
      rw [Path.ancestry_eq, if_pos hTop, nearest]
      rcases inDirectory_cases fs start names with
        ⟨name, hAsked, hHolds, hResult⟩ |
          ⟨name, fault, hAsked, hFault, hResult⟩ |
            ⟨hNone, hResult⟩
      · exact Or.inl ⟨0, name, hAsked.reaches, hHolds,
          by rw [hResult]; rfl⟩
      · exact Or.inr (Or.inl ⟨0, name, fault, hAsked.reaches,
          hFault, by rw [hResult]; rfl⟩)
      · refine Or.inr (Or.inr ⟨fun k => ?_, by rw [hResult]; rfl⟩)
        rw [Path.above_of_top hTop]
        exact hNone
  | succ steps ih =>
      have hBelow : start.parts ≠ [] := by
        intro hNil
        rw [hNil] at hSteps
        cases hSteps
      have hParent : start.parent.parts.length = steps := by
        unfold Path.parent
        rw [List.length_dropLast, hSteps, Nat.add_sub_cancel]
      rw [Path.ancestry_eq, if_neg hBelow, nearest]
      rcases inDirectory_cases fs start names with
        ⟨name, hAsked, hHolds, hResult⟩ |
          ⟨name, fault, hAsked, hFault, hResult⟩ |
            ⟨hNone, hResult⟩
      · exact Or.inl ⟨0, name, hAsked.reaches, hHolds,
          by rw [hResult]; rfl⟩
      · exact Or.inr (Or.inl ⟨0, name, fault, hAsked.reaches,
          hFault, by rw [hResult]; rfl⟩)
      · rw [hResult]
        rcases ih start.parent hParent with
          ⟨k, name, hReaches, hHolds, hLater⟩ |
            ⟨k, name, fault, hReaches, hFault, hLater⟩ |
              ⟨hAll, hLater⟩
        · exact Or.inl ⟨k + 1, name, hReaches.of_parent hNone,
            hHolds, hLater⟩
        · exact Or.inr (Or.inl ⟨k + 1, name, fault,
            hReaches.of_parent hNone, hFault, hLater⟩)
        · refine Or.inr (Or.inr ⟨fun k => ?_, hLater⟩)
          cases k with
          | zero => exact hNone
          | succ k => exact hAll k

/-
  A search from a directory ends. It comes to a name exactly
  if the nearest directory, up to the root, that does not
  lack all names holds this one and lacks those before it; to
  nothing exactly if all these directories lack all names;
  and to a fault exactly if the first look-up that does not
  find a name missing is refused, for too long a name.
-/
theorem find_ascends
    (hResolve : fs.resolve p = .ok start)
    (names : List String) :
    (∀ found,
      find fs p names = .ok (some found) ↔
        ∃ k name,
          found =
              ⟨start.above k, (start.above k).child name,
                name⟩ ∧
            Reaches fs start names k name ∧
            fs.Holds (start.above k) name) ∧
      (find fs p names = .ok none ↔
        ∀ k, ∀ n ∈ names, fs.Lacks (start.above k) n) ∧
      ∀ fault,
        find fs p names = .error fault ↔
          ∃ k name path,
            fault = .refused .nameTooLong path ∧
              Reaches fs start names k name ∧
              fs.exists? ((start.above k).child name) =
                .error fault := by
  rw [find_of_resolve hResolve]
  rcases nearest_ancestry_cases fs names start with
    ⟨k, name, hReaches, hHolds, hResult⟩ |
      ⟨k, name, fault, hReaches, hFault, hResult⟩ |
        ⟨hNone, hResult⟩
  · rw [hResult]
    refine ⟨fun found => ⟨fun hSame => ?_, ?_⟩,
      ⟨nofun, fun hNone => ?_⟩, fun fault => ⟨nofun, ?_⟩⟩
    · rcases Except.ok.inj hSame with ⟨⟩
      exact ⟨k, name, rfl, hReaches, hHolds⟩
    · rintro ⟨k', name', rfl, hReaches', hHolds'⟩
      rcases hReaches.unique hReaches' hHolds.not_lacks
          hHolds'.not_lacks with
        ⟨rfl, rfl⟩
      rfl
    · exact (hHolds.not_lacks
        (hNone k name hReaches.1.mem)).elim
    · rintro ⟨k', name', path, rfl, hReaches', hFault⟩
      rcases hReaches.unique hReaches' hHolds.not_lacks
          (FileSystem.not_lacks_of_error hFault) with
        ⟨rfl, rfl⟩
      cases hHolds.symm.trans hFault
  · rw [hResult]
    have hStop := FileSystem.not_lacks_of_error hFault
    refine ⟨fun found => ⟨nofun, ?_⟩,
      ⟨nofun, fun hNone => ?_⟩, fun other =>
        ⟨fun hSame => ?_, ?_⟩⟩
    · rintro ⟨k', name', rfl, hReaches', hHolds⟩
      rcases hReaches.unique hReaches' hStop
          hHolds.not_lacks with
        ⟨rfl, rfl⟩
      cases hHolds.symm.trans hFault
    · exact (hStop (hNone k name hReaches.1.mem)).elim
    · rcases Except.error.inj hSame with rfl
      rcases FileSystem.refusal_of_exists? hFault with
        ⟨path, hPath⟩
      exact ⟨k, name, path, hPath, hReaches, hFault⟩
    · rintro ⟨k', name', path, _, hReaches', hFault'⟩
      rcases hReaches.unique hReaches' hStop
          (FileSystem.not_lacks_of_error hFault') with
        ⟨rfl, rfl⟩
      rcases Except.error.inj (hFault.symm.trans hFault') with rfl
      rfl
  · rw [hResult]
    refine ⟨fun found => ⟨nofun, ?_⟩,
      ⟨fun _ => hNone, fun _ => rfl⟩, fun fault => ⟨nofun, ?_⟩⟩
    · rintro ⟨k, name, _, hReaches, hHolds⟩
      exact (hHolds.not_lacks
        (hNone k name hReaches.1.mem)).elim
    · rintro ⟨k, name, _, _, hReaches, hFault⟩
      exact (FileSystem.not_lacks_of_error hFault
        (hNone k name hReaches.1.mem)).elim

/-
  A directory below one with a file, which is below the root
  directory with another file.
-/
def layeredFiles : FileSystem where
  root :=
    .directory
      [("b.json", .file []),
        ("web",
          .directory
            [("a.json", .file []), ("src", .directory [])])]
  working := []
  home := .top
  homes := []
  opened := []

/- The path of the innermost directory. -/
def sourcePath : Path :=
  ⟨.root, ["web", "src"]⟩

theorem resolve_sourcePath :
    layeredFiles.resolve sourcePath = .ok sourcePath := by
  have hStraight : layeredFiles.Straight sourcePath :=
    FileSystem.IsReal.straight
      ⟨by decide, ⟨_, rfl⟩, by decide⟩ rfl
  rw [hStraight.resolve]
  rfl

/- The nearer directory wins over the earlier name. -/
theorem find_sourcePath :
    layeredFiles.resolve sourcePath = .ok sourcePath ∧
      find layeredFiles sourcePath ["b.json", "a.json"] =
        .ok (some ⟨webPath, webPath.child "a.json", "a.json"⟩) := by
  refine ⟨resolve_sourcePath, ?_⟩
  apply ((find_ascends resolve_sourcePath _).1 _).mpr
  refine ⟨1, "a.json", rfl, ⟨⟨["b.json"], [], rfl, ?_⟩, ?_⟩, rfl⟩
  · intro e he
    rw [List.mem_singleton.mp he]
    rfl
  · intro j hj n hn
    rw [Nat.lt_one_iff.mp hj]
    simp only [List.mem_cons, List.not_mem_nil, or_false] at hn
    rcases hn with rfl | rfl
    · rfl
    · rfl

/-
  Not each search for short names that no directory holds
  comes to nothing: one may lead to a link with a name that
  is too long.
-/
theorem not_always_ascends :
    ¬ ∀ (fs : FileSystem) (p start : Path) (names : List String),
      fs.resolve p = .ok start →
        (∀ n ∈ names, n.utf8ByteSize ≤ FileSystem.nameLimit) →
          (find fs p names = .ok none ↔
            ∀ k, ∀ n ∈ names, ¬ fs.Holds (start.above k) n) := by
  intro hAll
  have hNone :=
    (hAll longWorld.files .top .top ["pnpm-lock.yaml"] rfl
      (by decide)).mpr
  rw [find_longWorld] at hNone
  have hTop : Path.top.parts = [] := rfl
  have hMissing :
      ∀ k, ∀ n ∈ ["pnpm-lock.yaml"],
        ¬ longWorld.files.Holds (Path.top.above k) n := by
    intro k n hn hHolds
    rw [Path.above_of_top hTop, List.mem_singleton.mp hn] at hHolds
    unfold FileSystem.Holds at hHolds
    rw [exists?_longWorld] at hHolds
    cases hHolds
  cases hNone hMissing

end Probe

end BiomeMigration
