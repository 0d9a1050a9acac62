import BiomeMigration.Proofs.Probe.Conduct
import BiomeMigration.Proofs.Session.Remarks

/-
  Which lockfile decides on the package manager of a project
  that no manifest declares one for: the first one in order
  that is in reach, and the nearest one only if none comes
  before it in order.

  Main declarations:
    * `Probe.Undeclared`
    * `Probe.NearestLocked`
    * `Probe.Prefers`
    * `Probe.prefers_of_lockedAmong`
    * `Probe.detect_prefers`
-/

------------------------------------------------------------
-- The Nearest Lockfile
------------------------------------------------------------

namespace BiomeMigration

open Session

namespace Probe

variable {fs : FileSystem} {root real start d p : Path}
variable {candidates : List (Manager × String)} {m : Manager}
variable {w w' v : World}

/- A directory holds a lockfile of one of some managers. -/
def HoldsLock
    (fs : FileSystem)
    (candidates : List (Manager × String))
    (d : Path) : Prop :=
  ∃ candidate ∈ candidates, fs.Holds d candidate.2

/- The first of some directories that holds a lockfile. -/
def NearestLocked
    (fs : FileSystem)
    (candidates : List (Manager × String))
    (directories : List Path)
    (d : Path)
    (farther : List Path) : Prop :=
  ∃ nearer,
    directories = nearer ++ d :: farther ∧
      HoldsLock fs candidates d ∧
      ∀ e ∈ nearer, ¬ HoldsLock fs candidates e

/- The first of some managers with a lockfile in a directory. -/
def FirstIn
    (fs : FileSystem)
    (candidates : List (Manager × String))
    (d : Path)
    (m : Manager) : Prop :=
  ∃ earlier name later,
    candidates = earlier ++ (m, name) :: later ∧
      fs.Holds d name ∧
      ∀ candidate ∈ earlier, ¬ fs.Holds d candidate.2

/-
  A manager comes before another one in order, and has its
  lockfile not in a directory, but in one farther up.
-/
def Outranks
    (fs : FileSystem)
    (candidates : List (Manager × String))
    (d : Path)
    (farther : List Path)
    (m n : Manager) : Prop :=
  ∃ name name',
    [(m, name), (n, name')].Sublist candidates ∧
      ¬ fs.Holds d name ∧ ∃ e ∈ farther, fs.Holds e name

/-
  The manager that lockfiles decide on: the first one in
  order with a lockfile in reach. This is the first one in
  the nearest directory with a lockfile, unless it outranks
  that one from farther up.
-/
def Prefers
    (fs : FileSystem)
    (candidates : List (Manager × String))
    (start : Path)
    (m : Manager) : Prop :=
  LockedAmong fs start candidates m ∧
    ∃ d farther n,
      NearestLocked fs candidates start.ancestry d farther ∧
        FirstIn fs candidates d n ∧
        (m = n ∨ Outranks fs candidates d farther m n)

/- Of the members with a property, one is the first. -/
theorem exists_first
    {α : Type}
    {P : α → Prop}
    {xs : List α}
    (hSome : ∃ x ∈ xs, P x) :
    ∃ before x after,
      xs = before ++ x :: after ∧ P x ∧ ∀ y ∈ before, ¬ P y := by
  classical
  have hFound : (xs.find? (P ·)).isSome = true := by
    simpa using hSome
  rcases Option.isSome_iff_exists.mp hFound with ⟨x, hFirst⟩
  rcases List.find?_eq_some_iff_append.mp hFirst with
    ⟨hHere, before, after, hSplit, hNone⟩
  exact ⟨before, x, after, hSplit, by simpa using hHere,
    by simpa using hNone⟩

/- One manager is the first in order with a lockfile in reach. -/
theorem exists_lockedAmong
    (hLock : ∃ d ∈ start.ancestry, HoldsLock fs candidates d) :
    ∃ m, LockedAmong fs start candidates m := by
  rcases hLock with ⟨d, hMember, candidate, hCandidate, hHolds⟩
  have hReach : ∃ c ∈ candidates, InReach fs start c.2 :=
    ⟨candidate, hCandidate, d, hMember, hHolds⟩
  rcases exists_first hReach with
    ⟨earlier, ⟨m, name⟩, later, hSplit, hHere, hEarlier⟩
  exact ⟨m, earlier, name, later, hSplit, hHere, hEarlier⟩

/- Of two members of a list, one comes first. -/
theorem eq_or_before
    {α : Type}
    {xs before after before' after' : List α}
    {x y : α}
    (hSplit : xs = before ++ x :: after)
    (hSplit' : xs = before' ++ y :: after') :
    x = y ∨ y ∈ before ∨ x ∈ before' ∧ [x, y].Sublist xs := by
  rcases List.append_eq_append_iff.mp (hSplit.symm.trans hSplit')
    with ⟨between, hBefore, hAfter⟩ | ⟨between, hBefore, hAfter⟩
  · cases between with
    | nil => exact Or.inl (List.cons.inj hAfter).1
    | cons z between =>
        rcases List.cons.inj hAfter with ⟨rfl, hRest⟩
        refine Or.inr (Or.inr ⟨by rw [hBefore]; simp, ?_⟩)
        rw [hSplit, hRest]
        apply List.sublist_append_of_sublist_right
        apply List.Sublist.cons_cons
        apply List.singleton_sublist.mpr
        simp
  · cases between with
    | nil => exact Or.inl (List.cons.inj hAfter).1.symm
    | cons z between =>
        rcases List.cons.inj hAfter with ⟨rfl, hRest⟩
        exact Or.inr (Or.inl (by rw [hBefore]; simp))

/-
  The first manager in order is that of the nearest lockfile,
  or outranks it.
-/
theorem prefers_of_lockedAmong
    (hLocked : LockedAmong fs start candidates m) :
    Prefers fs candidates start m := by
  refine ⟨hLocked, ?_⟩
  rcases hLocked with
    ⟨earlier, name, later, hSplit, ⟨f, hf, hHolds⟩, hEarlier⟩
  have hMember : (m, name) ∈ candidates := by
    rw [hSplit]
    simp
  have hLocks : ∃ e ∈ start.ancestry, HoldsLock fs candidates e :=
    ⟨f, hf, (m, name), hMember, hHolds⟩
  rcases exists_first hLocks with
    ⟨nearer, d, farther, hNear, hLock, hNearer⟩
  rcases exists_first hLock with
    ⟨earlier', ⟨n, name'⟩, later', hSplit', hHolds', hEarlier'⟩
  refine ⟨d, farther, n, ⟨nearer, hNear, hLock, hNearer⟩,
    ⟨earlier', name', later', hSplit', hHolds', hEarlier'⟩, ?_⟩
  rcases eq_or_before hSplit hSplit' with
    hSame | hBefore | ⟨hBefore, hOrder⟩
  · exact Or.inl (Prod.mk.inj hSame).1
  · have hReach : InReach fs start name' :=
      ⟨d, by rw [hNear]; simp, hHolds'⟩
    exact (hEarlier (n, name') hBefore hReach).elim
  · have hAbsent : ¬ fs.Holds d name :=
      hEarlier' (m, name) hBefore
    refine Or.inr ⟨name, name', hOrder, hAbsent, f, ?_, hHolds⟩
    rw [hNear] at hf
    rcases List.mem_append.mp hf with hNearer' | hRest
    · exact (hNearer f hNearer' ⟨(m, name), hMember, hHolds⟩).elim
    · rcases List.mem_cons.mp hRest with rfl | hFarther
      · exact (hAbsent hHolds).elim
      · exact hFarther

------------------------------------------------------------
-- Manifests Without an Answer
------------------------------------------------------------

/-
  The manifests that are consulted: that of a project, and
  the nearest one above it.
-/
inductive Consulted
    (fs : FileSystem)
    (real : Path) : Path → Prop
  | own : Consulted fs real (real.child Manifest.fileName)
  | above {up e : Path} :
      real.parts ≠ [] →
        fs.resolve real.parent = .ok up →
          Nearest fs Manifest.fileName up.ancestry e →
            Consulted fs real (e.child Manifest.fileName)

/-
  A project by its real path, with the directory from which
  lockfiles are searched for: the real path again, unless
  links lead in a circle. No manifest that is consulted
  declares a manager.
-/
structure Undeclared
    (fs : FileSystem)
    (root real start : Path) : Prop where
  resolved : fs.resolve root = .ok real
  settled : fs.resolve real = .ok start
  silent : ∀ p m, Consulted fs real p → ¬ Declares fs p m

/-
  Why there may be no manager: a look-up is refused, or a
  manifest that is consulted is nested too deep, in the files
  as the failure leaves them.
-/
inductive Obstructs
    (fs fs' : FileSystem)
    (real start : Path) : Failure → Prop
  | own {fault : PathFault} :
      fs.exists? (real.child Manifest.fileName) =
          .error fault →
        Obstructs fs fs' real start (.path fault)
  | above {fault : PathFault} :
      real.parts ≠ [] →
        find fs real.parent [Manifest.fileName] =
            .error fault →
          Obstructs fs fs' real start (.path fault)
  | lockfile {fault : PathFault} :
      Refuses fs start fault →
        Obstructs fs fs' real start (.path fault)
  | nesting {p : Path} {container : Json.Container} :
      Consulted fs real p →
        ¬ Shallow fs' p →
          Obstructs fs fs' real start (.nesting container)

theorem Consulted.anchor
    (hConsulted : Consulted fs real p)
    (hResolved : fs.resolve root = .ok real) :
    p.anchor ≠ .working := by
  cases hConsulted with
  | own =>
      exact child_anchor_of_searched
        (FileSystem.resolve_anchor hResolved)
        fileName_mem_searched
  | above _ hUp hNearest =>
      rcases hNearest with ⟨nearer, farther, hSplit, _⟩
      apply child_anchor_of_searched _ fileName_mem_searched
      rw [(Path.mem_ancestry_iff.mp
        (by rw [hSplit]; simp : _ ∈ _)).1]
      exact FileSystem.resolve_anchor hUp

/- Remarks make no manifest declare a manager. -/
theorem Declares.of_remarked
    (hRemarked : Remarked w v)
    (hAnchor : p.anchor ≠ .working)
    (hDeclares : Declares v.files p m) :
    Declares w.files p m := by
  rcases hDeclares with ⟨bytes, members, t, hRead, hObject, hRest⟩
  rw [hRemarked.traced.touches.depths] at hObject
  exact ⟨bytes, members, t,
    hRemarked.read_of_object hAnchor hRead hObject, hObject,
    hRest⟩

/- Remarks do not change what a search finds. -/
theorem find_of_remarked
    (hRemarked : Remarked w v)
    (q : Path)
    {name : String}
    (hName : name ∈ searched) :
    find v.files q [name] = find w.files q [name] := by
  unfold find
  rw [hRemarked.resolve_eq]
  cases hResolve : w.files.resolve q with
  | error fault => rfl
  | ok up =>
      apply nearest_congr
      intro e he
      apply hRemarked.traced.exists?_eq
      apply child_anchor_of_searched _ hName
      rw [(Path.mem_ancestry_iff.mp he).1]
      exact FileSystem.resolve_anchor hResolve

/-
  A question without an answer: nothing but remarks is made
  about it, or it fails.
-/
def Abstains
    (before : World)
    (failing : FileSystem → Failure → Prop)
    (x : Session (Option Manager))
    (w : World) : Prop :=
  ∃ result w',
    Ends x w result w' ∧
      ((result = .ok none ∧ Remarked before w') ∨
        ∃ failure,
          result = .error failure ∧ failing w'.files failure)

/- A manager is chosen by a rule, or the search fails. -/
def Settles
    (failing : FileSystem → Failure → Prop)
    (x : Session Manager)
    (rule : Manager → Prop)
    (w : World) : Prop :=
  ∃ result w',
    Ends x w result w' ∧
      ((∃ m, result = .ok m ∧ rule m) ∨
        ∃ failure,
          result = .error failure ∧ failing w'.files failure)

variable {before : World}
variable {failing : FileSystem → Failure → Prop}
variable {x : Session (Option Manager)} {y : Session Manager}
variable {rule : Manager → Prop}

/- After a question without an answer, the next one decides. -/
theorem Abstains.orElse
    (hFirst : Abstains before failing x w)
    (hSecond :
      ∀ v, Remarked before v → Settles failing y rule v) :
    Settles failing
      (do
        match ← x with
        | some manager => return manager
        | none => y)
      rule w := by
  rcases hFirst with
    ⟨result, v, hEnds, ⟨rfl, hRemarked⟩ | ⟨failure, rfl, hFailing⟩⟩
  · rcases hSecond v hRemarked with ⟨result, w', hLast, hEnd⟩
    exact ⟨result, w', hEnds.bind hLast, hEnd⟩
  · exact ⟨_, v, hEnds.bind_error _,
      Or.inr ⟨failure, rfl, hFailing⟩⟩

theorem abstains_none
    (hRemarked : Remarked before w) :
    Abstains before failing (pure none) w :=
  ⟨_, w, ends_pure_iff.mpr ⟨rfl, rfl⟩, Or.inl ⟨rfl, hRemarked⟩⟩

/- A look-up that is refused is the failure. -/
theorem abstains_of_refused
    {α : Type}
    {look : FileSystem → Except PathFault α}
    {fault : PathFault}
    (hLook : look w.files = .error fault)
    (hFailing : failing w.files (.path fault))
    (f : α → Session (Option Manager)) :
    Abstains before failing (ofFiles look >>= f) w :=
  ⟨_, w, (ends_ofFiles_of_error hLook).bind_error f,
    Or.inr ⟨_, rfl, hFailing⟩⟩

/- A look-up that succeeds is followed by the rest. -/
theorem Abstains.of_look
    {α : Type}
    {look : FileSystem → Except PathFault α}
    {a : α}
    (hLook : look w.files = .ok a)
    {f : α → Session (Option Manager)}
    (hRest : Abstains before failing (f a) w) :
    Abstains before failing (ofFiles look >>= f) w := by
  rcases hRest with ⟨result, w', hEnds, hEnd⟩
  exact ⟨result, w', (ends_ofFiles_of_ok hLook).bind hEnds, hEnd⟩

/- A manifest is only remarked on if it is unreadable. -/
theorem isRemark_unreadable (p : Path) (cause : Unreadable) :
    Record.IsRemark
      ⟨.debug, Record.sourceOf "probe",
        s!"Ignoring unreadable manifest {p.text}: {cause.message}",
        none, none⟩ :=
  ⟨rfl, rfl, rfl, by
    rw [Text.plain_ofString]
    exact Json.leavesOpen_string _ cause.leavesOpen_message⟩

/-
  A manifest that declares nothing is passed over, and a
  remark made if it is unreadable. It may be nested too deep.
-/
theorem ends_declared_of_silent
    (hSilent : ∀ m, ¬ Declares v.files p m) :
    (∃ v', Ends (declared p) v (.ok none) v' ∧ Remarked v v') ∨
      ∃ container,
        Ends (declared p) v (.error (.nesting container)) v ∧
          ¬ Shallow v.files p := by
  have hNone : declaredIn (v.files.readJson p) = none := by
    apply Option.eq_none_iff_forall_ne_some.mpr
    exact fun m hSome =>
      hSilent m (declaredIn_eq_some_iff.mp hSome)
  unfold declared
  cases hJson : v.files.readJson p with
  | ok value =>
      rw [hJson] at hNone
      refine Or.inl ⟨v, (ends_files v).bind ?_, Remarked.refl v⟩
      rw [hJson]
      exact ends_pure_iff.mpr ⟨congrArg _ hNone.symm, rfl⟩
  | error cause =>
      cases hNesting : cause.nesting? with
      | some container =>
          refine Or.inr ⟨container, (ends_files v).bind ?_, ?_⟩
          · rw [hJson]
            dsimp only
            rw [hNesting]
            exact ends_throw_iff.mpr ⟨rfl, rfl⟩
          · intro hShallow
            rw [hShallow.nesting?_eq_none hJson] at hNesting
            cases hNesting
      | none =>
          refine Or.inl ⟨_, (ends_files v).bind ?_,
            remarked_recorded (isRemark_unreadable p cause) v⟩
          rw [hJson]
          dsimp only
          rw [hNesting]
          exact (ends_log _ _ _ v).bind
            (ends_pure_iff.mpr ⟨rfl, rfl⟩)

/- A manifest that is consulted gives no answer. -/
theorem abstains_declaredAt
    (hUndeclared : Undeclared w.files root real start)
    (hConsulted : Consulted w.files real p)
    (hRemarked : Remarked w v) :
    Abstains w (Obstructs w.files · real start) (declaredAt p)
      v := by
  have hAnchor := hConsulted.anchor hUndeclared.resolved
  have hSilent : ∀ m, ¬ Declares v.files p m := fun m hDeclares =>
    hUndeclared.silent p m hConsulted
      (hDeclares.of_remarked hRemarked hAnchor)
  unfold declaredAt
  rcases ends_declared_of_silent hSilent with
    ⟨v', hEnds, hLater⟩ | ⟨container, hEnds, hDeep⟩
  · exact ⟨_, v', hEnds.bind (ends_pure_iff.mpr ⟨rfl, rfl⟩),
      Or.inl ⟨rfl, hRemarked.trans hLater⟩⟩
  · exact ⟨_, v, hEnds.bind_error _,
      Or.inr ⟨_, rfl, .nesting hConsulted hDeep⟩⟩

theorem abstains_local?
    (hUndeclared : Undeclared w.files root real start) :
    Abstains w (Obstructs w.files · real start) (local? real)
      w := by
  unfold local?
  cases hThere :
      w.files.exists? (real.child Manifest.fileName) with
  | error fault =>
      exact abstains_of_refused hThere (.own hThere) _
  | ok there =>
      apply Abstains.of_look hThere
      cases there with
      | true =>
          exact abstains_declaredAt hUndeclared .own
            (Remarked.refl w)
      | false => exact abstains_none (Remarked.refl w)

theorem abstains_above?
    (hUndeclared : Undeclared w.files root real start)
    (hRemarked : Remarked w v) :
    Abstains w (Obstructs w.files · real start) (above? real)
      v := by
  unfold above?
  by_cases hTop : real.parts = []
  · rw [if_pos (by simp [hTop])]
    exact abstains_none hRemarked
  · rw [if_neg (by simpa using hTop)]
    have hFind :=
      find_of_remarked hRemarked real.parent
        fileName_mem_searched
    cases hLook :
        find w.files real.parent [Manifest.fileName] with
    | error fault =>
        exact abstains_of_refused (hFind.trans hLook)
          (.above hTop hLook) _
    | ok found? =>
        apply Abstains.of_look (hFind.trans hLook)
        rcases bind_eq_ok_iff.mp hLook with ⟨up, hUp, hNear⟩
        rcases nearest_cases w.files Manifest.fileName
            up.ancestry with
          ⟨_, _, fault, _, hSearch⟩ | ⟨e, hNearest, hSearch⟩ |
            ⟨_, hSearch⟩
        · rw [hSearch] at hNear
          cases hNear
        · rw [hSearch] at hNear
          rcases Except.ok.inj hNear with rfl
          exact abstains_declaredAt hUndeclared
            (.above hTop hUp hNearest) hRemarked
        · rw [hSearch] at hNear
          rcases Except.ok.inj hNear with rfl
          exact abstains_none hRemarked

------------------------------------------------------------
-- The Decision of the Lockfiles
------------------------------------------------------------

theorem settles_locked?
    (hUndeclared : Undeclared w.files root real start)
    (hLock :
      ∃ d ∈ start.ancestry, HoldsLock w.files lockfiles d)
    (hRemarked : Remarked w v) :
    Settles (Obstructs w.files · real start)
      (do return (← locked? real lockfiles).getD .npm)
      (Prefers w.files lockfiles start) v := by
  have hFind :
      ∀ candidate ∈ lockfiles,
        find v.files real [candidate.2] =
          nearest w.files [candidate.2] start.ancestry := by
    intro candidate hMember
    rw [find_of_remarked hRemarked real
      (searched_of_mem_lockfiles hMember)]
    unfold find
    rw [hUndeclared.settled]
    rfl
  have hTells :=
    tells_locked? (fun _ => searched_of_mem_lockfiles) hFind
      hRemarked.traced
  rcases hTells.getD .npm with
    ⟨result, w', hEnds, ⟨m, rfl, hRule⟩ | ⟨fault, rfl, hRefuses⟩⟩
  · refine ⟨_, w', hEnds, Or.inl ⟨m, rfl, ?_⟩⟩
    rcases hRule with hLocked | ⟨hNone, _⟩
    · exact prefers_of_lockedAmong hLocked
    · rcases exists_lockedAmong hLock with ⟨n, hLocked⟩
      exact (hNone n hLocked).elim
  · exact ⟨_, w', hEnds, Or.inr ⟨_, rfl, .lockfile hRefuses⟩⟩

/-
  Without a declaration, and with a lockfile in reach, the
  search gives the first manager in order that has one in
  reach: the first one in the nearest directory with a
  lockfile, unless another outranks it from farther up. It
  fails only if something obstructs it.
-/
theorem detect_prefers
    (hUndeclared : Undeclared w.files root real start)
    (hLock :
      ∃ d ∈ start.ancestry, HoldsLock w.files lockfiles d) :
    ∃ result w',
      Ends (detect root) w result w' ∧
        ((∃ m,
            result = .ok m ∧
              Prefers w.files lockfiles start m) ∨
          ∃ failure,
            result = .error failure ∧
              Obstructs w.files w'.files real start failure) := by
  have hResolve :
      Ends (ofFiles (·.resolve root)) w (.ok real) w :=
    ends_ofFiles_of_ok hUndeclared.resolved
  have hRest :=
    (abstains_local? hUndeclared).orElse fun _ hLocal =>
      (abstains_above? hUndeclared hLocal).orElse fun _ hAbove =>
        settles_locked? hUndeclared hLock hAbove
  rcases hRest with ⟨result, w', hEnds, hEnd⟩
  exact ⟨result, w', hResolve.bind hEnds, hEnd⟩

/-
  A project in a directory with the lockfile of yarn, under
  one with the lockfile of pnpm. No manifest declares any.
-/
def outrankedWorld : World :=
  .initial
    { root :=
        .directory
          [("pnpm-lock.yaml", .file []),
            ("web",
              .directory
                [(Manifest.fileName,
                    .file (Utf8.encode "\x7b\x7d".toList)),
                  ("yarn.lock", .file [])])]
      working := []
      home := .top
      homes := []
      opened := [] }
    []

theorem undeclared_outrankedWorld :
    Undeclared outrankedWorld.files webPath webPath webPath := by
  have hStraight : outrankedWorld.files.Straight webPath :=
    FileSystem.IsReal.straight
      ⟨by decide, ⟨_, rfl⟩, by decide⟩ rfl
  have hResolve :
      outrankedWorld.files.resolve webPath = .ok webPath := by
    rw [hStraight.resolve]
    rfl
  refine ⟨hResolve, hResolve, fun p m hConsulted hDeclares => ?_⟩
  cases hConsulted with
  | own =>
      have hNone :
          declaredIn
              (outrankedWorld.files.readJson
                (webPath.child Manifest.fileName)) =
            none := by
        decide
      rw [declaredIn_eq_some_iff.mpr hDeclares] at hNone
      cases hNone
  | @above up e _ hUp hNearest =>
      have hTop : up = .top := hStraight.parent.resolve_eq hUp
      rcases hNearest with ⟨nearer, farther, hSplit, hHolds, _⟩
      have hMember : e ∈ [Path.top] := by
        rw [hTop] at hSplit
        change [Path.top] = _ at hSplit
        rw [hSplit]
        simp
      rw [List.mem_singleton.mp hMember] at hHolds
      have hAbsent :
          outrankedWorld.files.exists?
              (Path.top.child Manifest.fileName) =
            .ok false :=
        rfl
      unfold FileSystem.Holds at hHolds
      rw [hAbsent] at hHolds
      cases hHolds

theorem holdsLock_webPath :
    HoldsLock outrankedWorld.files lockfiles webPath :=
  ⟨(.yarn, "yarn.lock"), by decide, rfl⟩

/- The lockfile in the project is outranked. -/
theorem prefers_outrankedWorld :
    Undeclared outrankedWorld.files webPath webPath webPath ∧
      (∃ d ∈ webPath.ancestry,
        HoldsLock outrankedWorld.files lockfiles d) ∧
      ∃ w',
        Runs (detect webPath) outrankedWorld .pnpm w' ∧
          Prefers outrankedWorld.files lockfiles webPath
            .pnpm := by
  have hLock :
      ∃ d ∈ webPath.ancestry,
        HoldsLock outrankedWorld.files lockfiles d :=
    ⟨webPath, Path.mem_ancestry_self _, holdsLock_webPath⟩
  have hRuns :
      Runs (detect webPath) outrankedWorld .pnpm _ :=
    runs_of_toOption (by decide +kernel)
  rcases detect_prefers undeclared_outrankedWorld hLock with
    ⟨result, w', hEnds, hEnd⟩
  rcases (runs_iff_ends.mp hRuns).unique hEnds with ⟨rfl, _⟩
  refine ⟨undeclared_outrankedWorld, hLock, _, hRuns, ?_⟩
  rcases hEnd with ⟨m, hResult, hPrefers⟩ | ⟨_, hResult, _⟩
  · rcases Except.ok.inj hResult with rfl
    exact hPrefers
  · cases hResult

/- The nearest lockfile does not always decide. -/
theorem not_always_nearest :
    ¬ ∀ (root real start : Path) (w w' : World) (m : Manager),
      Undeclared w.files root real start →
        (∃ d ∈ start.ancestry, HoldsLock w.files lockfiles d) →
          Runs (detect root) w m w' →
            ∃ d farther,
              NearestLocked w.files lockfiles start.ancestry d
                  farther ∧
                FirstIn w.files lockfiles d m := by
  intro hAll
  have hRuns :
      Runs (detect webPath) outrankedWorld .pnpm _ :=
    runs_of_toOption (by decide +kernel)
  rcases hAll webPath webPath webPath outrankedWorld _ .pnpm
      undeclared_outrankedWorld
      ⟨webPath, Path.mem_ancestry_self _, holdsLock_webPath⟩
      hRuns with
    ⟨d, farther, ⟨nearer, hSplit, _, hNearer⟩, hFirst⟩
  have hHere : d = webPath := by
    change [webPath, .top] = _ at hSplit
    cases nearer with
    | nil => exact (List.cons.inj hSplit).1.symm
    | cons e nearer =>
        rcases List.cons.inj hSplit with ⟨rfl, _⟩
        exact (hNearer webPath (by simp) holdsLock_webPath).elim
  rw [hHere] at hFirst
  rcases hFirst with ⟨earlier, name, later, hOrder, hHolds, _⟩
  have hName : name = "pnpm-lock.yaml" := by
    have hMember : (Manager.pnpm, name) ∈ lockfiles := by
      rw [hOrder]
      simp
    have hOnly :
        ∀ candidate ∈ lockfiles, candidate.1 = .pnpm →
          candidate.2 = "pnpm-lock.yaml" := by
      decide
    exact hOnly _ hMember rfl
  have hAbsent :
      outrankedWorld.files.exists?
          (webPath.child "pnpm-lock.yaml") =
        .ok false :=
    rfl
  unfold FileSystem.Holds at hHolds
  rw [hName, hAbsent] at hHolds
  cases hHolds

end Probe

end BiomeMigration
