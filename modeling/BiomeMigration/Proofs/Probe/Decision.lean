import BiomeMigration.Proofs.Migration.Detection
import BiomeMigration.Proofs.Probe.Search

/-
  Which package manager is that of a project: the one that a
  manifest declares, in the project or next above it, or else
  the one of the first lockfile, or npm.

  Main declarations:
    * `Probe.Declares`
    * `Probe.Decides`
    * `Probe.Decides.unique`
    * `Probe.Alike.decides_iff`
-/

------------------------------------------------------------
-- Declarations
------------------------------------------------------------

namespace BiomeMigration

theorem Manager.named?_eq_some_iff
    {name : String}
    {m : Manager} :
    named? name = some m ↔ name = m.id := by
  constructor
  · intro hNamed
    have hId := List.find?_some hNamed
    exact (beq_iff_eq.mp hId).symm
  · rintro rfl
    exact named?_id m

/- The beginning of a field is the name of a manager. -/
theorem Manager.ofField_eq_some_iff
    {v : Json}
    {m : Manager} :
    ofField v = some m ↔
      ∃ t,
        v = .string t ∧
          Blank.trim (t.shown.toList.takeWhile (· != '@')) =
            m.id.toList := by
  constructor
  · intro hField
    cases v with
    | string t =>
        refine ⟨t, rfl, ?_⟩
        have hName := named?_eq_some_iff.mp hField
        rw [← hName, String.toList_ofList]
    | _ => cases hField
  · rintro ⟨t, rfl, hName⟩
    unfold ofField
    dsimp only
    rw [hName, String.ofList_toList]
    exact named?_id m

namespace Probe

variable {fs fs' : FileSystem} {d p : Path}
variable {m m' : Manager}

/-
  A manifest declares a manager: it holds a JSON object, and
  the string in its field begins with the manager's name, up
  to the first `@` and without blanks around it.
-/
def Declares
    (fs : FileSystem)
    (p : Path)
    (m : Manager) : Prop :=
  ∃ bytes members t,
    fs.read p = .ok bytes ∧
      Json.ofBytes fs.depths.json bytes =
        .ok (.object members) ∧
      Members.get? members (Text.ofString "packageManager") =
        some (.string t) ∧
      Blank.trim (t.shown.toList.takeWhile (· != '@')) =
        m.id.toList

theorem declaredBy_eq_some_iff
    {value : Json} :
    declaredBy value = some m ↔
      ∃ members t,
        value = .object members ∧
          Members.get? members
              (Text.ofString "packageManager") =
            some (.string t) ∧
          Blank.trim (t.shown.toList.takeWhile (· != '@')) =
            m.id.toList := by
  cases value with
  | object members =>
      unfold declaredBy
      rw [Option.bind_eq_some_iff]
      constructor
      · rintro ⟨field, hField, hManager⟩
        rcases Manager.ofField_eq_some_iff.mp hManager with
          ⟨t, rfl, hName⟩
        exact ⟨members, t, rfl, hField, hName⟩
      · rintro ⟨members, t, hSame, hField, hName⟩
        rcases hSame with ⟨⟩
        exact ⟨.string t, hField,
          Manager.ofField_eq_some_iff.mpr ⟨t, rfl, hName⟩⟩
  | _ => simp [declaredBy]

theorem declaredIn_eq_some_iff :
    declaredIn (fs.readJson p) = some m ↔ Declares fs p m := by
  constructor
  · intro hDeclared
    cases hJson : fs.readJson p with
    | error cause =>
        rw [hJson] at hDeclared
        cases hDeclared
    | ok value =>
        rw [hJson] at hDeclared
        rcases declaredBy_eq_some_iff.mp hDeclared with
          ⟨members, t, rfl, hField, hName⟩
        rcases bind_eq_ok_iff.mp hJson with
          ⟨bytes, hRead, hBytes⟩
        exact ⟨bytes, members, t, mapError_eq_ok_iff.mp hRead,
          hBytes, hField, hName⟩
  · rintro ⟨bytes, members, t, hRead, hBytes, hField, hName⟩
    have hJson : fs.readJson p = .ok (.object members) :=
      bind_eq_ok_iff.mpr
        ⟨bytes, mapError_eq_ok_iff.mpr hRead, hBytes⟩
    rw [hJson]
    exact declaredBy_eq_some_iff.mpr
      ⟨members, t, rfl, hField, hName⟩

/- A manifest declares one manager at most. -/
theorem Declares.unique
    (hDeclares : Declares fs p m)
    (hOther : Declares fs p m') :
    m = m' := by
  rw [← declaredIn_eq_some_iff] at hDeclares hOther
  rw [hDeclares] at hOther
  exact Option.some.inj hOther

theorem Declares.congr
    (hDepths : fs'.depths = fs.depths)
    (hReads :
      ∀ bytes, fs'.read p = .ok bytes ↔ fs.read p = .ok bytes) :
    Declares fs' p m ↔ Declares fs p m := by
  unfold Declares
  simp only [hReads, hDepths]

/- The nearest manifest above a project declares a manager. -/
def DeclaredAbove
    (fs : FileSystem)
    (d : Path)
    (m : Manager) : Prop :=
  ∃ e,
    Nearest fs Manifest.fileName d.ancestry.tail e ∧
      Declares fs (e.child Manifest.fileName) m

theorem DeclaredAbove.unique
    (hDeclared : DeclaredAbove fs d m)
    (hOther : DeclaredAbove fs d m') :
    m = m' := by
  rcases hDeclared with ⟨e, hNearest, hDeclares⟩
  rcases hOther with ⟨e', hNearest', hDeclares'⟩
  rcases hNearest.unique hNearest' with rfl
  exact hDeclares.unique hDeclares'

------------------------------------------------------------
-- Lockfiles
------------------------------------------------------------

/- A name leads to a node in a project or above it. -/
def InReach
    (fs : FileSystem)
    (d : Path)
    (name : String) : Prop :=
  ∃ e ∈ d.ancestry, fs.Holds e name

/- The first of some managers whose lockfile is in reach. -/
def LockedAmong
    (fs : FileSystem)
    (d : Path)
    (candidates : List (Manager × String))
    (m : Manager) : Prop :=
  ∃ earlier name later,
    candidates = earlier ++ (m, name) :: later ∧
      InReach fs d name ∧
      ∀ candidate ∈ earlier, ¬ InReach fs d candidate.2

theorem not_lockedAmong_nil : ¬ LockedAmong fs d [] m := by
  rintro ⟨earlier, name, later, hSplit, _⟩
  simp at hSplit

theorem lockedAmong_cons_iff
    {manager : Manager}
    {name : String}
    {candidates : List (Manager × String)} :
    LockedAmong fs d ((manager, name) :: candidates) m ↔
      InReach fs d name ∧ m = manager ∨
        ¬ InReach fs d name ∧ LockedAmong fs d candidates m := by
  constructor
  · rintro ⟨earlier, name', later, hSplit, hReach, hEarlier⟩
    cases earlier with
    | nil =>
        rcases List.cons.inj hSplit with ⟨hHead, _⟩
        rcases Prod.mk.inj hHead with ⟨rfl, rfl⟩
        exact Or.inl ⟨hReach, rfl⟩
    | cons first earlier =>
        rcases List.cons.inj hSplit with ⟨rfl, rfl⟩
        exact Or.inr ⟨hEarlier (manager, name) (by simp),
          earlier, name', later, rfl, hReach,
          fun c hc => hEarlier c (by simp [hc])⟩
  · rintro (⟨hReach, rfl⟩ |
      ⟨hNot, earlier, name', later, rfl, hReach, hEarlier⟩)
    · exact ⟨[], name, candidates, rfl, hReach, by simp⟩
    · refine ⟨(manager, name) :: earlier, name', later, rfl,
        hReach, ?_⟩
      intro c hc
      rcases List.mem_cons.mp hc with rfl | hIn
      · exact hNot
      · exact hEarlier c hIn

theorem LockedAmong.unique
    {candidates : List (Manager × String)}
    (hLocked : LockedAmong fs d candidates m)
    (hOther : LockedAmong fs d candidates m') :
    m = m' := by
  induction candidates with
  | nil => exact (not_lockedAmong_nil hLocked).elim
  | cons candidate candidates ih =>
      rcases candidate with ⟨manager, name⟩
      rcases lockedAmong_cons_iff.mp hLocked with
        ⟨hReach, rfl⟩ | ⟨hNot, hLater⟩
      · rcases lockedAmong_cons_iff.mp hOther with
          ⟨_, rfl⟩ | ⟨hNot, _⟩
        · rfl
        · exact (hNot hReach).elim
      · rcases lockedAmong_cons_iff.mp hOther with
          ⟨hReach, _⟩ | ⟨_, hLater'⟩
        · exact (hNot hReach).elim
        · exact ih hLater hLater'

------------------------------------------------------------
-- The Decision
------------------------------------------------------------

/- What the first rule says, or else the second one. -/
def OrElse
    (first second : Manager → Prop)
    (m : Manager) : Prop :=
  first m ∨ (∀ other, ¬ first other) ∧ second m

/-
  A manager is that of a project: its manifest declares it;
  else the nearest manifest above does; else its lockfile is
  the first one in reach; else it is npm.
-/
def Decides
    (fs : FileSystem)
    (d : Path) : Manager → Prop :=
  OrElse (Declares fs (d.child Manifest.fileName))
    (OrElse (DeclaredAbove fs d)
      (OrElse (LockedAmong fs d lockfiles) (· = .npm)))

/- Rules that name one manager at most do so in turn. -/
theorem OrElse.unique
    {first second : Manager → Prop}
    (hFirst : ∀ m m', first m → first m' → m = m')
    (hSecond : ∀ m m', second m → second m' → m = m')
    (hHere : OrElse first second m)
    (hOther : OrElse first second m') :
    m = m' := by
  rcases hHere with hHere | ⟨hNone, hHere⟩
  · rcases hOther with hOther | ⟨hNone, _⟩
    · exact hFirst m m' hHere hOther
    · exact (hNone m hHere).elim
  · rcases hOther with hOther | ⟨_, hOther⟩
    · exact (hNone m' hOther).elim
    · exact hSecond m m' hHere hOther

theorem OrElse.congr
    {first second first' second' : Manager → Prop}
    (hFirst : ∀ m, first' m ↔ first m)
    (hSecond : ∀ m, second' m ↔ second m) :
    OrElse first' second' m ↔ OrElse first second m := by
  unfold OrElse
  simp only [hFirst, hSecond]

/- A project has one manager. -/
theorem Decides.unique
    (hDecides : Decides fs d m)
    (hOther : Decides fs d m') :
    m = m' := by
  apply OrElse.unique _ _ hDecides hOther
  · exact fun _ _ => Declares.unique
  · intro n n' hHere hThere
    apply OrElse.unique _ _ hHere hThere
    · exact fun _ _ => DeclaredAbove.unique
    · intro k k' hLast hLast'
      apply OrElse.unique _ _ hLast hLast'
      · exact fun _ _ => LockedAmong.unique
      · rintro _ _ rfl rfl
        rfl

/-
  Two projects whose manifests declare the same, as do those
  above them, and that have the same lockfiles in reach.
-/
structure Alike
    (fs : FileSystem)
    (d : Path)
    (fs' : FileSystem)
    (d' : Path) : Prop where
  own :
    ∀ m,
      Declares fs' (d'.child Manifest.fileName) m ↔
        Declares fs (d.child Manifest.fileName) m
  above : ∀ m, DeclaredAbove fs' d' m ↔ DeclaredAbove fs d m
  locks :
    ∀ candidate ∈ lockfiles,
      InReach fs' d' candidate.2 ↔ InReach fs d candidate.2

theorem lockedAmong_congr
    {d' : Path}
    {candidates : List (Manager × String)}
    (hSame :
      ∀ candidate ∈ candidates,
        InReach fs' d' candidate.2 ↔ InReach fs d candidate.2) :
    LockedAmong fs' d' candidates m ↔
      LockedAmong fs d candidates m := by
  induction candidates with
  | nil =>
      exact ⟨fun h => (not_lockedAmong_nil h).elim,
        fun h => (not_lockedAmong_nil h).elim⟩
  | cons candidate candidates ih =>
      rcases candidate with ⟨manager, name⟩
      rw [lockedAmong_cons_iff, lockedAmong_cons_iff,
        hSame (manager, name) (by simp),
        ih fun c hc => hSame c (by simp [hc])]

theorem Alike.decides_iff
    {d' : Path}
    (hAlike : Alike fs d fs' d') :
    Decides fs' d' m ↔ Decides fs d m := by
  apply OrElse.congr hAlike.own
  intro n
  apply OrElse.congr hAlike.above
  intro k
  apply OrElse.congr
  · exact fun _ => lockedAmong_congr hAlike.locks
  · exact fun _ => Iff.rfl

end Probe

end BiomeMigration
