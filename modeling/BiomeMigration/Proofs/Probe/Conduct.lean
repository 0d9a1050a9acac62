import BiomeMigration.Proofs.Probe.Decision
import BiomeMigration.Proofs.Session.Records

/-
  The search for the package manager of a project finds the
  one that is decided on, unless a look-up is refused. What is
  logged on the way does not change it.

  Main declarations:
    * `Probe.Tells`
    * `Probe.Chooses`
    * `Probe.Charted`
    * `Probe.Searchable`
    * `Probe.chooses_of_charted`
    * `Probe.detect_decides`
-/

------------------------------------------------------------
-- Manifests on the Way
------------------------------------------------------------

namespace BiomeMigration

open Session

namespace Probe

variable {fs : FileSystem} {root real d p : Path}
variable {m : Manager} {w w' v : World}

/- The value in a file, if any, is not nested too deep. -/
def Shallow (fs : FileSystem) (p : Path) : Prop :=
  ∀ bytes, fs.read p = .ok bytes →
    ∀ text container,
      Json.ofBytes fs.depths.json bytes ≠
        .error (.json text (.tooDeep container))

theorem Shallow.nesting?_eq_none
    (hShallow : Shallow fs p)
    {cause : Unreadable}
    (hJson : fs.readJson p = .error cause) :
    cause.nesting? = none := by
  cases hRead : fs.read p with
  | error fault =>
      have hFile : fs.readJson p = .error (.file fault) := by
        unfold FileSystem.readJson
        rw [hRead]
        rfl
      rw [hFile] at hJson
      rw [← Except.error.inj hJson]
      rfl
  | ok bytes =>
      have hBytes :
          fs.readJson p = Json.ofBytes fs.depths.json bytes := by
        unfold FileSystem.readJson
        rw [hRead]
        rfl
      rw [hBytes] at hJson
      cases cause with
      | file fault => rfl
      | encoding fault => rfl
      | json text fault =>
          cases fault with
          | tooDeep container =>
              exact (hShallow bytes hRead text container
                hJson).elim
          | _ => rfl

theorem notes_declared
    (hShallow : Shallow w.files p) :
    Notes (declared p) w (declaredIn (w.files.readJson p)) := by
  unfold declared
  apply (notes_files w).bind
  intro v _
  cases hJson : w.files.readJson p with
  | ok value => exact notes_pure _ v
  | error cause =>
      dsimp only
      rw [hShallow.nesting?_eq_none hJson]
      exact notes_log_pure _ _ _ v

theorem notes_declaredAt
    (hShallow : Shallow w.files p) :
    Notes (declaredAt p) w
      (declaredIn (w.files.readJson p)) := by
  unfold declaredAt
  apply (notes_declared hShallow).bind
  intro v _
  cases declaredIn (w.files.readJson p) with
  | some manager => exact notes_log_pure _ _ _ v
  | none => exact notes_pure _ v

------------------------------------------------------------
-- Questions in Turn
------------------------------------------------------------

/- The look-up of a searched name is refused. -/
def Refuses
    (fs : FileSystem)
    (d : Path)
    (fault : PathFault) : Prop :=
  ∃ e ∈ d.ancestry, ∃ name ∈ searched,
    fs.exists? (e.child name) = .error fault

/-
  In a world that has only been logged in, a question for a
  manager is answered by a rule, and only logged about. Or a
  look-up is refused, and that is the failure.
-/
def Tells
    (start : World)
    (d : Path)
    (x : Session (Option Manager))
    (rule : Manager → Prop)
    (w : World) : Prop :=
  ∃ result w',
    Ends x w result w' ∧
      ((∃ manager?,
          result = .ok manager? ∧ Traced start w' ∧
            ∀ m, manager? = some m ↔ rule m) ∨
        ∃ fault,
          result = .error (.path fault) ∧
            Refuses start.files d fault)

/- A manager is chosen by a rule, or a look-up is refused. -/
def Chooses
    (start : World)
    (d : Path)
    (x : Session Manager)
    (rule : Manager → Prop)
    (w : World) : Prop :=
  ∃ result w',
    Ends x w result w' ∧
      ((∃ m, result = .ok m ∧ rule m) ∨
        ∃ fault,
          result = .error (.path fault) ∧
            Refuses start.files d fault)

variable {start : World} {first second : Manager → Prop}
variable {x : Session (Option Manager)} {y : Session Manager}

/- A second question is asked if the first has no answer. -/
theorem Tells.orElse
    (hFirst : Tells start d x first w)
    (hSecond :
      (∀ m, ¬ first m) →
        ∀ v, Traced start v → Chooses start d y second v) :
    Chooses start d
      (do
        match ← x with
        | some manager => return manager
        | none => y)
      (OrElse first second) w := by
  rcases hFirst with
    ⟨result, v, hEnds, ⟨manager?, rfl, hTraced, hTells⟩ |
      ⟨fault, rfl, hRefuses⟩⟩
  · cases manager? with
    | some manager =>
        exact ⟨_, v,
          hEnds.bind (ends_pure_iff.mpr ⟨rfl, rfl⟩),
          Or.inl ⟨manager, rfl, Or.inl ((hTells manager).mp rfl)⟩⟩
    | none =>
        have hNone : ∀ other, ¬ first other := by
          intro other hOther
          cases (hTells other).mpr hOther
        rcases hSecond hNone v hTraced with
          ⟨result, w', hLast, ⟨m, rfl, hRule⟩ | hRefused⟩
        · exact ⟨_, w', hEnds.bind hLast,
            Or.inl ⟨m, rfl, Or.inr ⟨hNone, hRule⟩⟩⟩
        · exact ⟨_, w', hEnds.bind hLast, Or.inr hRefused⟩
  · exact ⟨_, v, hEnds.bind_error _,
      Or.inr ⟨fault, rfl, hRefuses⟩⟩

theorem Tells.getD
    (hFirst : Tells start d x first w)
    (usual : Manager) :
    Chooses start d
      (do return (← x).getD usual)
      (OrElse first (· = usual)) w := by
  rcases hFirst with
    ⟨result, v, hEnds, ⟨manager?, rfl, _, hTells⟩ |
      ⟨fault, rfl, hRefuses⟩⟩
  · refine ⟨_, v, hEnds.bind (ends_pure_iff.mpr ⟨rfl, rfl⟩),
      Or.inl ⟨_, rfl, ?_⟩⟩
    cases manager? with
    | some manager => exact Or.inl ((hTells manager).mp rfl)
    | none =>
        refine Or.inr ⟨fun other hOther => ?_, rfl⟩
        cases (hTells other).mpr hOther
  · exact ⟨_, v, hEnds.bind_error _,
      Or.inr ⟨fault, rfl, hRefuses⟩⟩

/- A look-up that is refused is the failure. -/
theorem tells_of_refused
    {α : Type}
    {look : FileSystem → Except PathFault α}
    {fault : PathFault}
    (hLook : look w.files = .error fault)
    (hRefuses : Refuses start.files d fault)
    (f : α → Session (Option Manager))
    (rule : Manager → Prop) :
    Tells start d (ofFiles look >>= f) rule w :=
  ⟨_, w, (ends_ofFiles_of_error hLook).bind_error f,
    Or.inr ⟨fault, rfl, hRefuses⟩⟩

/- A look-up that succeeds is followed by the rest. -/
theorem Tells.of_look
    {α : Type}
    {look : FileSystem → Except PathFault α}
    {a : α}
    (hLook : look w.files = .ok a)
    {f : α → Session (Option Manager)}
    {rule : Manager → Prop}
    (hRest : Tells start d (f a) rule w) :
    Tells start d (ofFiles look >>= f) rule w := by
  rcases hRest with ⟨result, w', hEnds, hEnd⟩
  exact ⟨result, w', (ends_ofFiles_of_ok hLook).bind hEnds, hEnd⟩

theorem Tells.of_notes
    {manager? : Option Manager}
    {rule : Manager → Prop}
    (hTraced : Traced start w)
    (hNotes : Notes x w manager?)
    (hRule : ∀ m, manager? = some m ↔ rule m) :
    Tells start d x rule w := by
  rcases hNotes with ⟨w', hEnds, hLogged⟩
  exact ⟨_, w', hEnds,
    Or.inl ⟨manager?, rfl, hTraced.trans hLogged, hRule⟩⟩

theorem tells_none
    {rule : Manager → Prop}
    (hTraced : Traced start w)
    (hNone : ∀ m, ¬ rule m) :
    Tells start d (pure none) rule w := by
  apply Tells.of_notes hTraced (notes_pure none w)
  intro m
  constructor
  · rintro ⟨⟩
  · exact fun hRule => (hNone m hRule).elim

------------------------------------------------------------
-- The Steps of the Search
------------------------------------------------------------

/-
  The surroundings of a project are charted: links lead in no
  circle, and no manifest above the project is a log file for
  debug records.
-/
structure Charted
    (root real : Path)
    (w : World) : Prop where
  resolved : w.files.resolve root = .ok real
  working : w.files.Straight ⟨.root, w.files.working⟩
  unlooped : w.files.Unlooped root
  noNul : real.hasNul = false
  unlogged :
    ∀ d ∈ real.ancestry.tail, ∀ loc content,
      w.files.LeadsTo (d.child Manifest.fileName) loc content →
        ¬ w.logger.Receives .debug w.files loc

/-
  The surroundings of a project can be searched: links lead
  in no circle, no manifest is nested too deep, and none above
  the project is a log file for debug records.
-/
structure Searchable
    (root real : Path)
    (w : World) : Prop where
  resolved : w.files.resolve root = .ok real
  working : w.files.Straight ⟨.root, w.files.working⟩
  unlooped : w.files.Unlooped root
  noNul : real.hasNul = false
  shallow :
    ∀ d ∈ real.ancestry,
      Shallow w.files (d.child Manifest.fileName)
  unlogged :
    ∀ d ∈ real.ancestry.tail, ∀ loc content,
      w.files.LeadsTo (d.child Manifest.fileName) loc content →
        ¬ w.logger.Receives .debug w.files loc

theorem Searchable.charted
    (hSearch : Searchable root real w) :
    Charted root real w where
  resolved := hSearch.resolved
  working := hSearch.working
  unlooped := hSearch.unlooped
  noNul := hSearch.noNul
  unlogged := hSearch.unlogged

theorem Charted.straight
    (hCharted : Charted root real w) :
    w.files.Straight real :=
  FileSystem.straight_of_resolve hCharted.working
    hCharted.unlooped hCharted.resolved

theorem Charted.child_anchor
    (hCharted : Charted root real w)
    (hMember : d ∈ real.ancestry)
    {name : String}
    (hName : name ∈ searched) :
    (d.child name).anchor ≠ .working := by
  apply child_anchor_of_searched _ hName
  rw [(Path.mem_ancestry_iff.mp hMember).1,
    hCharted.straight.anchor]
  simp

theorem Charted.exists?_eq
    (hCharted : Charted root real w)
    (hTraced : Traced w v)
    (hMember : d ∈ real.ancestry)
    {name : String}
    (hName : name ∈ searched) :
    v.files.exists? (d.child name) =
      w.files.exists? (d.child name) :=
  hTraced.exists?_eq (hCharted.child_anchor hMember hName)

theorem fileName_mem_searched : Manifest.fileName ∈ searched := by
  simp [searched]

/- A manifest that is not there declares nothing. -/
theorem Declares.holds
    (hDeclares : Declares fs (d.child Manifest.fileName) m) :
    fs.Holds d Manifest.fileName := by
  rcases hDeclares with ⟨bytes, _, _, hRead, _⟩
  rcases FileSystem.read_eq_ok_iff.mp hRead with ⟨loc, hLeads⟩
  exact FileSystem.exists?_of_leadsTo hLeads

theorem tells_local?
    (hShallow :
      Shallow w.files (real.child Manifest.fileName)) :
    Tells w real (local? real)
      (Declares w.files (real.child Manifest.fileName)) w := by
  have hSelf := Path.mem_ancestry_self real
  unfold local?
  cases hThere :
      w.files.exists? (real.child Manifest.fileName) with
  | error fault =>
      exact tells_of_refused hThere
        ⟨real, hSelf, _, fileName_mem_searched, hThere⟩ _ _
  | ok there =>
      apply Tells.of_look hThere
      cases there with
      | true =>
          exact Tells.of_notes (Traced.refl w)
            (notes_declaredAt hShallow)
            fun _ => declaredIn_eq_some_iff
      | false =>
          apply tells_none (Traced.refl w)
          intro m hDeclares
          have hHolds := hDeclares.holds
          unfold FileSystem.Holds at hHolds
          rw [hThere] at hHolds
          cases hHolds

theorem Charted.noNul_parent
    (hCharted : Charted root real w) :
    real.parent.hasNul = false := by
  have hNul := hCharted.noNul
  unfold Path.hasNul at hNul ⊢
  rw [List.any_eq_false] at hNul ⊢
  exact fun name hName =>
    hNul name ((List.dropLast_prefix _).subset hName)

/- A search in a world that has been logged in is the same. -/
theorem Charted.find_eq
    (hCharted : Charted root real w)
    (hTraced : Traced w v)
    (hStraight : w.files.Straight d)
    (hNul : d.hasNul = false)
    (hAbove : ∀ e ∈ d.ancestry, e ∈ real.ancestry)
    {name : String}
    (hName : name ∈ searched) :
    find v.files d [name] =
      nearest w.files [name] d.ancestry := by
  have hLater := hStraight.of_grows hTraced.touches.grows
  rw [find_of_straight hLater hNul]
  exact nearest_congr fun e he =>
    hCharted.exists?_eq hTraced (hAbove e he) hName

theorem Charted.reads_iff
    (hCharted : Charted root real w)
    (hTraced : Traced w v)
    (hMember : d ∈ real.ancestry.tail)
    (bytes : Bytes) :
    v.files.read (d.child Manifest.fileName) = .ok bytes ↔
      w.files.read (d.child Manifest.fileName) = .ok bytes :=
  hTraced.read_iff
    (hCharted.child_anchor (List.mem_of_mem_tail hMember)
      fileName_mem_searched)
    (hCharted.unlogged d hMember)

theorem Nearest.mem
    {directories : List Path}
    {name : String}
    (hNearest : Nearest fs name directories d) :
    d ∈ directories := by
  rcases hNearest with ⟨nearer, farther, hSplit, _⟩
  rw [hSplit]
  simp

theorem ancestry_tail
    (hTop : real.parts ≠ []) :
    real.ancestry.tail = real.parent.ancestry := by
  rw [Path.ancestry_eq, if_neg hTop]
  rfl

/- The search above a project goes up from its parent. -/
theorem Charted.find_parent
    (hCharted : Charted root real w)
    (hTraced : Traced w v) :
    find v.files real.parent [Manifest.fileName] =
      nearest w.files [Manifest.fileName] real.parent.ancestry :=
  hCharted.find_eq hTraced hCharted.straight.parent
    hCharted.noNul_parent (fun _ => Path.mem_ancestry_of_parent)
    fileName_mem_searched

theorem tells_above?
    (hCharted : Charted root real w)
    (hTraced : Traced w v)
    (hDepth :
      ∀ e,
        Nearest w.files Manifest.fileName real.ancestry.tail e →
          Shallow w.files (e.child Manifest.fileName)) :
    Tells w real (above? real) (DeclaredAbove w.files real)
      v := by
  unfold above?
  by_cases hTop : real.parts = []
  · rw [if_pos (by simp [hTop])]
    apply tells_none hTraced
    rintro m ⟨e, hNearest, _⟩
    rw [Path.ancestry_eq, if_pos hTop] at hNearest
    exact not_nearest_nil hNearest
  · rw [if_neg (by simpa using hTop)]
    have hTail := ancestry_tail hTop
    have hFind := hCharted.find_parent hTraced
    rcases nearest_cases w.files Manifest.fileName
        real.parent.ancestry with
      ⟨e, he, fault, hFault, hLook⟩ |
        ⟨e, hNearest, hLook⟩ | ⟨hNone, hLook⟩
    · exact tells_of_refused (hFind.trans hLook)
        ⟨e, Path.mem_ancestry_of_parent he, _,
          fileName_mem_searched, hFault⟩ _ _
    · apply Tells.of_look (hFind.trans hLook)
      rw [← hTail] at hNearest
      have hReads := hCharted.reads_iff hTraced hNearest.mem
      have hDepths := hTraced.touches.depths
      have hShallow :
          Shallow v.files (e.child Manifest.fileName) := by
        intro bytes hRead
        rw [hDepths]
        exact hDepth e hNearest bytes ((hReads bytes).mp hRead)
      apply Tells.of_notes hTraced (notes_declaredAt hShallow)
      intro m
      rw [declaredIn_eq_some_iff, Declares.congr hDepths hReads]
      constructor
      · intro hDeclares
        exact ⟨e, hNearest, hDeclares⟩
      · rintro ⟨e', hNearest', hDeclares⟩
        rcases hNearest.unique hNearest' with rfl
        exact hDeclares
    · apply Tells.of_look (hFind.trans hLook)
      apply tells_none hTraced
      rintro m ⟨e, hNearest, _⟩
      have hMember := hNearest.mem
      rcases hNearest with ⟨_, _, _, hHolds, _⟩
      rw [hTail] at hMember
      exact hNone e hMember hHolds

/- Lockfiles are searched for in a directory and above it. -/
theorem tells_locked?
    {candidates : List (Manager × String)}
    (hNames :
      ∀ candidate ∈ candidates, candidate.2 ∈ searched)
    (hFind :
      ∀ candidate ∈ candidates,
        find v.files root [candidate.2] =
          nearest w.files [candidate.2] d.ancestry)
    (hTraced : Traced w v) :
    Tells w d (locked? root candidates)
      (LockedAmong w.files d candidates) v := by
  induction candidates with
  | nil =>
      exact tells_none hTraced fun _ => not_lockedAmong_nil
  | cons candidate candidates ih =>
      rcases candidate with ⟨manager, name⟩
      have hName : name ∈ searched :=
        hNames (manager, name) (by simp)
      have hHere := hFind (manager, name) (by simp)
      unfold locked?
      rcases nearest_cases w.files name d.ancestry with
        ⟨e, he, fault, hFault, hLook⟩ |
          ⟨e, hNearest, hLook⟩ | ⟨hNone, hLook⟩
      · exact tells_of_refused (hHere.trans hLook)
          ⟨e, he, name, hName, hFault⟩ _ _
      · apply Tells.of_look (hHere.trans hLook)
        apply Tells.of_notes hTraced
          (notes_log_pure _ _ (some manager) v)
        have hReach : InReach w.files d name := by
          rcases hNearest with ⟨nearer, farther, hSplit, hHolds, _⟩
          exact ⟨e, by rw [hSplit]; simp, hHolds⟩
        intro m
        rw [lockedAmong_cons_iff]
        simp [hReach, eq_comm]
      · apply Tells.of_look (hHere.trans hLook)
        have hReach : ¬ InReach w.files d name := by
          rintro ⟨e, he, hHolds⟩
          exact hNone e he hHolds
        have hSame :
            LockedAmong w.files d
                ((manager, name) :: candidates) =
              LockedAmong w.files d candidates := by
          funext m
          apply propext
          rw [lockedAmong_cons_iff]
          simp [hReach]
        rw [hSame]
        exact ih (fun c hc => hNames c (by simp [hc]))
          fun c hc => hFind c (by simp [hc])

/- The lockfiles are among the names that are searched for. -/
theorem searched_of_mem_lockfiles
    {candidate : Manager × String}
    (hMember : candidate ∈ lockfiles) :
    candidate.2 ∈ searched :=
  List.mem_cons_of_mem _ (List.mem_map_of_mem hMember)

------------------------------------------------------------
-- The Search
------------------------------------------------------------

theorem tells_lockfiles
    (hCharted : Charted root real w)
    (hTraced : Traced w v) :
    Tells w real (locked? real lockfiles)
      (LockedAmong w.files real lockfiles) v := by
  apply tells_locked? (fun _ => searched_of_mem_lockfiles) _
    hTraced
  intro candidate hMember
  exact hCharted.find_eq hTraced hCharted.straight
    hCharted.noNul (fun _ he => he)
    (searched_of_mem_lockfiles hMember)

/-
  A manager is found unless a manifest that is consulted is
  nested too deep: the own one, or the nearest one above if
  the own one declares nothing.
-/
theorem chooses_of_charted
    (hCharted : Charted root real w)
    (hOwn : Shallow w.files (real.child Manifest.fileName))
    (hAbove :
      (∀ m, ¬ Declares w.files (real.child Manifest.fileName) m) →
        ∀ e,
          Nearest w.files Manifest.fileName real.ancestry.tail
              e →
            Shallow w.files (e.child Manifest.fileName)) :
    Chooses w real (detect root) (Decides w.files real) w := by
  have hResolve :
      Ends (ofFiles (·.resolve root)) w (.ok real) w :=
    ends_ofFiles_of_ok hCharted.resolved
  have hRest :=
    (tells_local? hOwn).orElse fun hNone _ hLocal =>
      (tells_above? hCharted hLocal (hAbove hNone)).orElse
        fun _ _ hTraced =>
          (tells_lockfiles hCharted hTraced).getD .npm
  rcases hRest with ⟨result, w', hEnds, hEnd⟩
  exact ⟨result, w', hResolve.bind hEnds, hEnd⟩

theorem chooses_detect
    (hSearch : Searchable root real w) :
    Chooses w real (detect root) (Decides w.files real) w := by
  apply chooses_of_charted hSearch.charted
  · exact hSearch.shallow real (Path.mem_ancestry_self real)
  · intro _ e hNearest
    exact hSearch.shallow e (List.mem_of_mem_tail hNearest.mem)

/- A manager that is found is that of the project. -/
theorem decides_of_runs
    (hSearch : Searchable root real w)
    (hRuns : Runs (detect root) w m w') :
    Decides w.files real m := by
  rcases chooses_detect hSearch with
    ⟨result, v, hEnds, hEnd⟩
  rcases (runs_iff_ends.mp hRuns).unique hEnds with ⟨hResult, _⟩
  rcases hEnd with ⟨n, rfl, hDecides⟩ | ⟨fault, rfl, _⟩
  · rcases Except.ok.inj hResult with rfl
    exact hDecides
  · cases hResult

/-
  The search for a package manager gives the one of the
  project, unless a look-up on the way is refused. Two
  projects that are alike have the same one.
-/
theorem detect_decides
    (hSearch : Searchable root real w) :
    (∃ result w',
      Ends (detect root) w result w' ∧
        ((∃ m, result = .ok m ∧ Decides w.files real m) ∨
          ∃ fault,
            result = .error (.path fault) ∧
              Refuses w.files real fault)) ∧
      ∀ root' real' v, Searchable root' real' v →
        Alike w.files real v.files real' →
          ∀ m m' w' v',
            Runs (detect root) w m w' →
              Runs (detect root') v m' v' → m' = m := by
  refine ⟨chooses_detect hSearch, ?_⟩
  intro root' real' v hSearch' hAlike m m' w' v' hRuns hRuns'
  have hChosen := decides_of_runs hSearch hRuns
  have hChosen' := decides_of_runs hSearch' hRuns'
  exact (hAlike.decides_iff.mp hChosen').unique hChosen

/- A directory in the root directory. -/
def webPath : Path :=
  ⟨.root, ["web"]⟩

/- The text of a manifest that declares pnpm. -/
def pnpmText : String :=
  "\x7b\"packageManager\": \"pnpm@9\"\x7d"

/-
  A project in a directory. The manifest above it declares
  pnpm; the project has a manifest and the lockfile of yarn.
-/
def webFiles (text : String) : FileSystem where
  root :=
    .directory
      [(Manifest.fileName, .file (Utf8.encode pnpmText.toList)),
        ("web",
          .directory
            [(Manifest.fileName,
                .file (Utf8.encode text.toList)),
              ("yarn.lock", .file [])])]
  working := []
  home := .top
  homes := []
  opened := [[Manifest.fileName]]

theorem straight_webPath (text : String) :
    (webFiles text).Straight webPath :=
  FileSystem.IsReal.straight
    ⟨by decide, ⟨_, rfl⟩, by decide⟩ rfl

theorem straight_top (text : String) :
    (webFiles text).Straight .top :=
  (straight_webPath text).of_above rfl List.nil_prefix

theorem resolve_webPath (text : String) :
    (webFiles text).resolve webPath = .ok webPath := by
  rw [(straight_webPath text).resolve]
  rfl

/- No manifest in a directory or above it is nested too deep. -/
def shallowAbove (fs : FileSystem) (d : Path) : Bool :=
  d.ancestry.all fun e =>
    match fs.read (e.child Manifest.fileName) with
    | .ok bytes =>
        match Json.ofBytes fs.depths.json bytes with
        | .error (.json _ (.tooDeep _)) => false
        | _ => true
    | .error _ => true

theorem shallow_of_shallowAbove
    (hAbove : shallowAbove fs d = true) :
    ∀ e ∈ d.ancestry,
      Shallow fs (e.child Manifest.fileName) := by
  intro e he bytes hRead text container hBytes
  have hHere := List.all_eq_true.mp hAbove e he
  rw [hRead] at hHere
  dsimp only at hHere
  rw [hBytes] at hHere
  cases hHere

/- The project without a declaration of its own, and no log. -/
def quietWorld : World :=
  .initial (webFiles "\x7b\x7d") []

theorem searchable_quietWorld :
    Searchable webPath webPath quietWorld where
  resolved := resolve_webPath _
  working := straight_top _
  unlooped := ⟨webPath, rfl⟩
  noNul := by decide
  shallow := shallow_of_shallowAbove (by decide)
  unlogged := by
    rintro _ _ _ _ _ ⟨hPasses, _⟩
    cases hPasses

/- The manifest above the project decides. -/
theorem decides_quietWorld :
    Searchable webPath webPath quietWorld ∧
      ∃ w',
        Runs (detect webPath) quietWorld .pnpm w' ∧
          Decides quietWorld.files webPath .pnpm ∧
          ∀ root' real' v, Searchable root' real' v →
            Alike quietWorld.files webPath v.files real' →
              ∀ m' v', Runs (detect root') v m' v' →
                m' = .pnpm := by
  have hRuns :
      Runs (detect webPath) quietWorld .pnpm _ :=
    runs_of_toOption (by decide +kernel)
  rcases detect_decides searchable_quietWorld with
    ⟨⟨result, w', hEnds, hEnd⟩, hSame⟩
  rcases (runs_iff_ends.mp hRuns).unique hEnds with ⟨rfl, _⟩
  refine ⟨searchable_quietWorld, _, hRuns, ?_, ?_⟩
  · rcases hEnd with ⟨n, hResult, hDecides⟩ | ⟨fault, hResult, _⟩
    · rcases Except.ok.inj hResult with rfl
      exact hDecides
    · cases hResult
  · intro root' real' v hSearch' hAlike m' v' hRuns'
    exact hSame root' real' v hSearch' hAlike _ m' _ v' hRuns
      hRuns'

/- A lockfile that is a link with too long a target. -/
def longWorld : World :=
  .initial
    { root :=
        .directory
          [("pnpm-lock.yaml",
            .link (String.ofList (List.replicate 256 'a')))]
      working := []
      home := .top
      homes := []
      opened := [] }
    []

theorem isLongName_replicate :
    FileSystem.IsLongName
      (String.ofList (List.replicate 256 'a')) where
  plain := by
    rw [String.toList_ofList]
    intro hMember
    exact absurd (List.eq_of_mem_replicate hMember) (by decide)
  long := by decide +kernel

theorem exists?_longWorld :
    longWorld.files.exists? (Path.top.child "pnpm-lock.yaml") =
      .error (.refused .nameTooLong "/pnpm-lock.yaml") := by
  have hReal : longWorld.files.IsReal .top :=
    ⟨by decide, ⟨_, rfl⟩, nofun⟩
  exact FileSystem.exists?_longLink hReal (by decide)
    rfl rfl isLongName_replicate

theorem find_longWorld :
    find longWorld.files .top ["pnpm-lock.yaml"] =
      .error (.refused .nameTooLong "/pnpm-lock.yaml") := by
  have hStart : longWorld.files.resolve .top = .ok .top := rfl
  have hTop : Path.top.parts = [] := rfl
  rw [find_of_resolve hStart, Path.ancestry_eq, if_pos hTop,
    nearest, inDirectory, exists?_longWorld]
  rfl

/- The search for its lockfile is refused. -/
theorem ends_detect_longWorld :
    Ends (detect .top) longWorld
      (.error (.path (.refused .nameTooLong "/pnpm-lock.yaml")))
      longWorld := by
  have hResolve :
      Ends (ofFiles (·.resolve .top)) longWorld (.ok .top)
        longWorld :=
    ends_ofFiles_of_ok rfl
  have hMissing :
      longWorld.files.exists? (Path.top.child Manifest.fileName) =
        .ok false := by
    decide
  have hLocal : Ends (local? .top) longWorld (.ok none) longWorld :=
    (ends_ofFiles_of_ok hMissing).bind
      (ends_pure_iff.mpr ⟨rfl, rfl⟩)
  have hAbove : Ends (above? .top) longWorld (.ok none) longWorld :=
    ends_pure_iff.mpr ⟨rfl, rfl⟩
  have hFind :
      Ends (ofFiles (find · .top ["pnpm-lock.yaml"])) longWorld
        (.error (.path (.refused .nameTooLong "/pnpm-lock.yaml")))
        longWorld :=
    ends_ofFiles_of_error find_longWorld
  have hFirst :
      ∃ others, lockfiles = (.pnpm, "pnpm-lock.yaml") :: others :=
    ⟨_, rfl⟩
  rcases hFirst with ⟨others, hList⟩
  unfold detect
  apply hResolve.bind
  apply hLocal.bind
  apply hAbove.bind
  rw [hList, locked?]
  exact (hFind.bind_error _).bind_error _

/-
  The project with an unreadable manifest. The manifest above
  it is a log file, which the record of that spoils.
-/
def spoiltWorld : World where
  files := webFiles "\x7b"
  logger := (Logger.plain true).add (.file [Manifest.fileName])
  lines := []
  journal := []

theorem decides_pnpm_spoiltWorld :
    Decides spoiltWorld.files webPath .pnpm := by
  have hOwn :
      declaredIn
          (spoiltWorld.files.readJson
            (webPath.child Manifest.fileName)) =
        none := by
    decide
  have hAbove :
      declaredIn
          (spoiltWorld.files.readJson
            (Path.top.child Manifest.fileName)) =
        some .pnpm := by
    decide
  refine Or.inr ⟨fun other hOther => ?_, Or.inl ?_⟩
  · rw [← declaredIn_eq_some_iff, hOwn] at hOther
    cases hOther
  · exact ⟨.top, ⟨[], [], rfl, rfl, by simp⟩,
      declaredIn_eq_some_iff.mp hAbove⟩

/-
  Not each search finds a manager: a look-up may be refused.
  And one that is found need not be that of the project as
  it was: a log file may have been changed on the way.
-/
theorem not_always_decided :
    (¬ ∀ (root real : Path) (w : World),
      w.files.resolve root = .ok real →
        (∀ d ∈ real.ancestry,
          Shallow w.files (d.child Manifest.fileName)) →
          ∃ m w', Runs (detect root) w m w') ∧
      ¬ ∀ (root real : Path) (w w' : World) (m : Manager),
        w.files.resolve root = .ok real →
          (∀ d ∈ real.ancestry,
            Shallow w.files (d.child Manifest.fileName)) →
            Runs (detect root) w m w' →
              Decides w.files real m := by
  constructor
  · intro hAll
    rcases hAll .top .top longWorld rfl
        (shallow_of_shallowAbove (by decide +kernel)) with
      ⟨m, w', hRuns⟩
    cases ((runs_iff_ends.mp hRuns).unique
      ends_detect_longWorld).1
  · intro hAll
    have hRuns : Runs (detect webPath) spoiltWorld .yarn _ :=
      runs_of_toOption (by decide +kernel)
    have hDecides :=
      hAll webPath webPath spoiltWorld _ .yarn
        (resolve_webPath _)
        (shallow_of_shallowAbove (by decide +kernel)) hRuns
    cases hDecides.unique decides_pnpm_spoiltWorld

end Probe

end BiomeMigration
