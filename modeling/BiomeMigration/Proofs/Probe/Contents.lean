import BiomeMigration.Proofs.Json.Tokens
import BiomeMigration.Proofs.Probe.Conduct
import BiomeMigration.Proofs.Text.Decoding

/-
  What becomes of each content of a manifest: where it is
  read for a migration, and where it is consulted for the
  package manager. Bytes that are nested too deep end both;
  all others are taken as a manifest or are expected failures
  of the one, and declare a manager or nothing for the other.

  Main declarations:
    * `Manifest.Usable`
    * `Manifest.Unusable`
    * `Manifest.Overdeep`
    * `Probe.Blocks`
    * `Probe.contents_handled`
-/

------------------------------------------------------------
-- Brackets
------------------------------------------------------------

namespace BiomeMigration

namespace Json

/- Brackets that open arrays inside each other. -/
def brackets (n : Nat) : List Char :=
  List.replicate n '['

theorem scanFrom_brackets (pos n : Nat) :
    scanFrom pos 0 (brackets (n + 1)) =
      (pos, .openArray) :: scanFrom (pos + 1) 0 (brackets n) :=
  (shows_punctuation rfl (brackets n)).scanFrom_eq pos

theorem next_openArray
    (room : Nat)
    (stack : List Frame)
    (pos : Nat) :
    (Stage.items stack).next room pos .openArray =
      if room ≤ stack.length + 1 then
        .error (.tooDeep .array)
      else .ok (.items (.array [] :: stack)) :=
  rfl

/- Brackets are read until one opens inside too many others. -/
theorem read_brackets
    {room size n : Nat}
    {stack : List Frame}
    (pos : Nat)
    (hDeep : room ≤ stack.length + (n + 1)) :
    read room size (.items stack)
        (scanFrom pos 0 (brackets (n + 1))) =
      .error (.tooDeep .array) := by
  induction n generalizing stack pos with
  | zero =>
      rw [scanFrom_brackets, read, next_openArray,
        if_pos (by simpa using hDeep)]
  | succ n ih =>
      rw [scanFrom_brackets, read, next_openArray]
      by_cases hHere : room ≤ stack.length + 1
      · rw [if_pos hHere]
      · rw [if_neg hHere]
        exact ih (pos + 1) (by rw [List.length_cons]; omega)

/- More brackets than there is room for are nested too deep. -/
theorem parse_brackets
    {room n : Nat}
    (hRoom : 1 ≤ room)
    (hDeep : room < n) :
    parse room (brackets n) = .error (.tooDeep .array) := by
  have hSome : ∃ k, n = k + 1 + 1 := ⟨n - 2, by omega⟩
  rcases hSome with ⟨k, rfl⟩
  have hScan :
      parse room (brackets (k + 1 + 1)) =
        read room (brackets (k + 1 + 1)).length (.value [])
          (scanFrom 0 0 (brackets (k + 1 + 1))) :=
    rfl
  have hFirst :
      (Stage.value []).next room 0 .openArray =
        .ok (.items []) :=
    if_neg (by rw [List.length_nil]; omega)
  rw [hScan, scanFrom_brackets, read, hFirst]
  apply read_brackets 1
  rw [List.length_nil]
  omega

end Json

------------------------------------------------------------
-- Contents
------------------------------------------------------------

/-
  Bytes are the UTF-8 form of a text, and reading the text as
  JSON, its line breaks written as line feeds, has a result.
-/
def Json.ReadsAs
    (room : Nat)
    (bytes : Bytes)
    (result : Except Json.Fault Json) : Prop :=
  ∃ cs,
    Utf8.encode cs = bytes ∧
      Json.parse room (LineBreak.unify cs) = result

/- The JSON value in a file is that of its bytes. -/
theorem FileSystem.readJson_eq
    {fs : FileSystem}
    {p : Path}
    {bytes : Bytes}
    (hRead : fs.read p = .ok bytes) :
    fs.readJson p = Json.ofBytes fs.depths.json bytes := by
  unfold readJson
  rw [hRead]
  rfl

namespace Manifest

variable {room : Nat} {bytes : Bytes} {m : Manifest}
variable {cs : List Char} {container : Json.Container}

/- Bytes hold a JSON object. -/
def Usable
    (room : Nat)
    (bytes : Bytes)
    (m : Manifest) : Prop :=
  Json.ReadsAs room bytes (.ok (.object m))

/- Bytes hold a JSON text that nests a container too deep. -/
def Overdeep
    (room : Nat)
    (bytes : Bytes)
    (container : Json.Container) : Prop :=
  Json.ReadsAs room bytes (.error (.tooDeep container))

/-
  Bytes hold no manifest, for another reason than depth: they
  are not UTF-8, not JSON, or no object.
-/
inductive Unusable (room : Nat) (bytes : Bytes) : Prop where
  | encoding (hBytes : ∀ cs, Utf8.encode cs ≠ bytes)
  | text
      {fault : Json.Fault}
      (hReads : Json.ReadsAs room bytes (.error fault))
      (hFault : ∀ container, fault ≠ .tooDeep container)
  | root
      {v : Json}
      (hReads : Json.ReadsAs room bytes (.ok v))
      (hRoot : ∀ m, v ≠ .object m)

/- What reading some bytes comes to. -/
theorem ofBytes_encode (room : Nat) (cs : List Char) :
    Json.ofBytes room (Utf8.encode cs) =
      (Json.parse room (LineBreak.unify cs)).mapError
        (.json (LineBreak.unify cs)) := by
  unfold Json.ofBytes
  rw [Utf8.decode_encode]
  rfl

/- Bytes that are no UTF-8 are not read. -/
theorem ofBytes_of_not_encoded
    (hBytes : ∀ cs, Utf8.encode cs ≠ bytes) :
    ∃ fault,
      Json.ofBytes room bytes = .error (.encoding fault) := by
  cases hDecode : Utf8.decode bytes with
  | ok cs => exact (hBytes cs (Utf8.encode_of_decode hDecode)).elim
  | error fault =>
      refine ⟨fault, ?_⟩
      unfold Json.ofBytes
      rw [hDecode]
      rfl

/- A text is nested too deep by one container. -/
theorem Overdeep.unique
    {other : Json.Container}
    (hDeep : Overdeep room bytes container)
    (hOther : Overdeep room bytes other) :
    container = other := by
  rcases hDeep with ⟨cs, rfl, hParse⟩
  rcases hOther with ⟨cs', hSame, hParse'⟩
  rcases Utf8.encode_inj.mp hSame with rfl
  rw [hParse] at hParse'
  cases hParse'
  rfl

/- Bytes are of one of three kinds. -/
theorem exists_kind (room : Nat) (bytes : Bytes) :
    (∃ m, Usable room bytes m) ∨ Unusable room bytes ∨
      ∃ container, Overdeep room bytes container := by
  by_cases hBytes : ∃ cs, Utf8.encode cs = bytes
  · rcases hBytes with ⟨cs, hBytes⟩
    cases hParse : Json.parse room (LineBreak.unify cs) with
    | ok v =>
        have hReads : Json.ReadsAs room bytes (.ok v) :=
          ⟨cs, hBytes, hParse⟩
        cases v with
        | object m => exact Or.inl ⟨m, hReads⟩
        | _ => exact Or.inr (Or.inl (.root hReads nofun))
    | error fault =>
        have hReads : Json.ReadsAs room bytes (.error fault) :=
          ⟨cs, hBytes, hParse⟩
        cases fault with
        | tooDeep container =>
            exact Or.inr (Or.inr ⟨container, hReads⟩)
        | _ => exact Or.inr (Or.inl (.text hReads nofun))
  · exact Or.inr (Or.inl
      (.encoding fun cs hSame => hBytes ⟨cs, hSame⟩))

------------------------------------------------------------
-- Reading a Manifest
------------------------------------------------------------

variable {fs : FileSystem} {root : Path}

/- A manifest that is there is read from its bytes. -/
theorem read_of_content
    (hRead : fs.read (root.child fileName) = .ok bytes) :
    read fs root =
      ((Json.ofBytes fs.depths.json bytes).mapError
        failureOf).bind ofJson := by
  rcases FileSystem.read_eq_ok_iff.mp hRead with ⟨loc, hLeads⟩
  unfold read
  dsimp only
  rw [FileSystem.exists?_of_leadsTo hLeads,
    FileSystem.readJson_eq hRead]
  rfl

theorem Usable.read_eq
    (hUsable : Usable fs.depths.json bytes m)
    (hRead : fs.read (root.child fileName) = .ok bytes) :
    read fs root = .ok m := by
  rcases hUsable with ⟨cs, rfl, hParse⟩
  rw [read_of_content hRead, ofBytes_encode, hParse]
  rfl

theorem Overdeep.read_eq
    (hDeep : Overdeep fs.depths.json bytes container)
    (hRead : fs.read (root.child fileName) = .ok bytes) :
    read fs root = .error (.nesting container) := by
  rcases hDeep with ⟨cs, rfl, hParse⟩
  rw [read_of_content hRead, ofBytes_encode, hParse]
  rfl

/- Only depth makes a failure of another kind. -/
theorem failureOf_json
    (text : List Char)
    {fault : Json.Fault}
    (hFault : ∀ container, fault ≠ .tooDeep container) :
    failureOf (.json text fault) =
      .manifest (fault.message text) := by
  cases fault with
  | tooDeep container => exact (hFault container rfl).elim
  | _ => rfl

theorem Unusable.read_eq
    (hUnusable : Unusable fs.depths.json bytes)
    (hRead : fs.read (root.child fileName) = .ok bytes) :
    ∃ failure,
      read fs root = .error failure ∧
        failure.kind = "ManifestError" := by
  rw [read_of_content hRead]
  cases hUnusable with
  | encoding hBytes =>
      rcases ofBytes_of_not_encoded hBytes with ⟨fault, hOf⟩
      rw [hOf]
      exact ⟨.manifest fault.message, rfl, rfl⟩
  | @text fault hReads hFault =>
      rcases hReads with ⟨cs, rfl, hParse⟩
      rw [ofBytes_encode, hParse]
      refine ⟨.manifest (fault.message (LineBreak.unify cs)), ?_,
        rfl⟩
      show Except.error (failureOf _) = _
      rw [failureOf_json _ hFault]
  | @root v hReads hRoot =>
      rcases hReads with ⟨cs, rfl, hParse⟩
      rw [ofBytes_encode, hParse]
      refine ⟨.manifestRoot, ?_, rfl⟩
      cases v with
      | object m => exact (hRoot m rfl).elim
      | _ => rfl

theorem kind_nesting_ne (container : Json.Container) :
    (Failure.nesting container).kind ≠ "ManifestError" := by
  show "RecursionError" ≠ "ManifestError"
  decide

/- The result of reading tells of which kind the bytes are. -/
theorem read_iffs
    (hRead : fs.read (root.child fileName) = .ok bytes) :
    (∀ m,
        read fs root = .ok m ↔ Usable fs.depths.json bytes m) ∧
      ((∃ failure,
          read fs root = .error failure ∧
            failure.kind = "ManifestError") ↔
        Unusable fs.depths.json bytes) ∧
      ∀ container,
        read fs root = .error (.nesting container) ↔
          Overdeep fs.depths.json bytes container := by
  rcases exists_kind fs.depths.json bytes with
    ⟨m, hUsable⟩ | hUnusable | ⟨container, hDeep⟩
  · have hResult := hUsable.read_eq hRead
    refine ⟨fun n => ⟨fun hOther => ?_, (·.read_eq hRead)⟩,
      ⟨fun hOther => ?_, (·.read_eq hRead)⟩,
      fun other => ⟨fun hOther => ?_, (·.read_eq hRead)⟩⟩
    · rw [hResult] at hOther
      rw [← Except.ok.inj hOther]
      exact hUsable
    · rcases hOther with ⟨failure, hOther, _⟩
      rw [hResult] at hOther
      cases hOther
    · rw [hResult] at hOther
      cases hOther
  · rcases hUnusable.read_eq hRead with ⟨cause, hResult, hKind⟩
    refine ⟨fun n => ⟨fun hOther => ?_, (·.read_eq hRead)⟩,
      ⟨fun _ => hUnusable, (·.read_eq hRead)⟩,
      fun other => ⟨fun hOther => ?_, (·.read_eq hRead)⟩⟩
    · rw [hResult] at hOther
      cases hOther
    · rw [hResult] at hOther
      rw [Except.error.inj hOther] at hKind
      exact (kind_nesting_ne _ hKind).elim
  · have hResult := hDeep.read_eq hRead
    refine ⟨fun n => ⟨fun hOther => ?_, (·.read_eq hRead)⟩,
      ⟨fun hOther => ?_, (·.read_eq hRead)⟩,
      fun other => ⟨fun hOther => ?_, (·.read_eq hRead)⟩⟩
    · rw [hResult] at hOther
      cases hOther
    · rcases hOther with ⟨failure, hOther, hKind⟩
      rw [hResult] at hOther
      rw [← Except.error.inj hOther] at hKind
      exact (kind_nesting_ne _ hKind).elim
    · rw [hResult] at hOther
      cases hOther
      exact hDeep

end Manifest

------------------------------------------------------------
-- Consulting a Manifest
------------------------------------------------------------

open Session

namespace Probe

open Manifest

variable {fs : FileSystem} {root real p d : Path}
variable {bytes : Bytes} {container : Json.Container}
variable {m : Manager} {w v w' : World}

/- Only an object declares a manager. -/
theorem not_declares_of_unusable
    (hRead : fs.read p = .ok bytes)
    (hUnusable : Unusable fs.depths.json bytes) :
    ¬ Declares fs p m := by
  rintro ⟨bytes', members, _, hRead', hObject, _⟩
  rw [hRead] at hRead'
  rcases Except.ok.inj hRead' with rfl
  cases hUnusable with
  | encoding hBytes =>
      rcases ofBytes_of_not_encoded hBytes with ⟨fault, hOf⟩
      rw [hOf] at hObject
      cases hObject
  | text hReads _ =>
      rcases hReads with ⟨cs, rfl, hParse⟩
      rw [ofBytes_encode, hParse] at hObject
      cases hObject
  | root hReads hRoot =>
      rcases hReads with ⟨cs, rfl, hParse⟩
      rw [ofBytes_encode, hParse] at hObject
      exact hRoot members (Except.ok.inj hObject)

/- A manifest that is nested too deep. -/
def OverdeepAt
    (fs : FileSystem)
    (p : Path)
    (container : Json.Container) : Prop :=
  ∃ bytes,
    fs.read p = .ok bytes ∧
      Overdeep fs.depths.json bytes container

/- What is not shallow is nested too deep. -/
theorem shallow_of_not_overdeep
    (hDeep : ∀ container, ¬ OverdeepAt fs p container) :
    Shallow fs p := by
  intro bytes hRead text container hBytes
  rcases exists_kind fs.depths.json bytes with
    ⟨m, cs, rfl, hParse⟩ | hUnusable | ⟨other, hOther⟩
  · rw [ofBytes_encode, hParse] at hBytes
    cases hBytes
  · cases hUnusable with
    | encoding hNone =>
        rcases ofBytes_of_not_encoded hNone with ⟨fault, hOf⟩
        rw [hOf] at hBytes
        cases hBytes
    | text hReads hFault =>
        rcases hReads with ⟨cs, rfl, hParse⟩
        rw [ofBytes_encode, hParse] at hBytes
        cases hBytes
        exact hFault container rfl
    | root hReads _ =>
        rcases hReads with ⟨cs, rfl, hParse⟩
        rw [ofBytes_encode, hParse] at hBytes
        cases hBytes
  · exact hDeep other ⟨bytes, hRead, hOther⟩

/- Consulting a manifest that is nested too deep fails. -/
theorem ends_declaredAt_of_overdeep
    (hDeep : OverdeepAt w.files p container) :
    Ends (declaredAt p) w (.error (.nesting container)) w := by
  rcases hDeep with ⟨bytes, hRead, cs, rfl, hParse⟩
  have hJson :
      w.files.readJson p =
        .error (.json (LineBreak.unify cs) (.tooDeep container)) := by
    rw [FileSystem.readJson_eq hRead, ofBytes_encode, hParse]
    rfl
  have hDeclared :
      Ends (declared p) w (.error (.nesting container)) w := by
    unfold declared
    apply (ends_files w).bind
    rw [hJson]
    exact ends_throw_iff.mpr ⟨rfl, rfl⟩
  unfold declaredAt
  exact hDeclared.bind_error _

/-
  A manifest that is consulted is nested too deep: the own
  one of a project, or else, if that declares nothing, the
  nearest one above it.
-/
inductive Blocks
    (fs : FileSystem)
    (real : Path)
    (container : Json.Container) : Prop where
  | own
      (hDeep :
        OverdeepAt fs (real.child fileName) container)
  | above
      {e : Path}
      (hOwn :
        ∀ other, ¬ OverdeepAt fs (real.child fileName) other)
      (hNone : ∀ m, ¬ Declares fs (real.child fileName) m)
      (hNearest : Nearest fs fileName real.ancestry.tail e)
      (hDeep : OverdeepAt fs (e.child fileName) container)

theorem OverdeepAt.unique
    {other : Json.Container}
    (hDeep : OverdeepAt fs p container)
    (hOther : OverdeepAt fs p other) :
    container = other := by
  rcases hDeep with ⟨bytes, hRead, hDeep⟩
  rcases hOther with ⟨bytes', hRead', hOther⟩
  rw [hRead] at hRead'
  rcases Except.ok.inj hRead' with rfl
  exact hDeep.unique hOther

theorem Blocks.unique
    {other : Json.Container}
    (hBlocks : Blocks fs real container)
    (hOther : Blocks fs real other) :
    container = other := by
  cases hBlocks with
  | own hDeep =>
      cases hOther with
      | own hDeep' => exact hDeep.unique hDeep'
      | above hOwn => exact (hOwn container hDeep).elim
  | above hOwn _ hNearest hDeep =>
      cases hOther with
      | own hDeep' => exact (hOwn other hDeep').elim
      | above _ _ hNearest' hDeep' =>
          rcases hNearest.unique hNearest' with rfl
          exact hDeep.unique hDeep'

theorem ends_local?_of_overdeep
    (hDeep :
      OverdeepAt w.files (real.child fileName) container) :
    Ends (local? real) w (.error (.nesting container)) w := by
  have hThere :
      w.files.exists? (real.child fileName) = .ok true := by
    rcases hDeep with ⟨bytes, hRead, _⟩
    rcases FileSystem.read_eq_ok_iff.mp hRead with ⟨loc, hLeads⟩
    exact FileSystem.exists?_of_leadsTo hLeads
  unfold local?
  apply (ends_ofFiles_of_ok (a := true) hThere).bind
  exact ends_declaredAt_of_overdeep hDeep

/-
  The search above a project comes to a manifest that is
  nested too deep, unless a look-up before it is refused.
-/
theorem ends_above?_of_overdeep
    (hCharted : Charted root real w)
    (hTraced : Traced w v)
    (hNearest :
      Nearest w.files fileName real.ancestry.tail d)
    (hDeep : OverdeepAt w.files (d.child fileName) container) :
    ∃ failure,
      Ends (above? real) v (.error failure) v ∧
        (failure = .nesting container ∨
          ∃ fault,
            failure = .path fault ∧
              Refuses w.files real fault) := by
  have hTop : real.parts ≠ [] := by
    intro hNil
    rw [Path.ancestry_eq, if_pos hNil] at hNearest
    exact not_nearest_nil hNearest
  have hFind := hCharted.find_parent hTraced
  have hReads := hCharted.reads_iff hTraced hNearest.mem
  have hLater : OverdeepAt v.files (d.child fileName) container := by
    rcases hDeep with ⟨bytes, hRead, hBytes⟩
    rw [← hTraced.touches.depths] at hBytes
    exact ⟨bytes, (hReads bytes).mpr hRead, hBytes⟩
  rw [ancestry_tail hTop] at hNearest
  unfold above?
  rw [if_neg (by simpa using hTop)]
  rcases nearest_cases w.files fileName real.parent.ancestry with
    ⟨e, he, fault, hFault, hLook⟩ | ⟨e, hHere, hLook⟩ |
      ⟨hNone, _⟩
  · refine ⟨.path fault, ?_, Or.inr ⟨fault, rfl, e,
      Path.mem_ancestry_of_parent he, fileName,
      fileName_mem_searched, hFault⟩⟩
    exact (ends_ofFiles_of_error (hFind.trans hLook)).bind_error _
  · rcases hHere.unique hNearest with rfl
    refine ⟨.nesting container, ?_, Or.inl rfl⟩
    apply (ends_ofFiles_of_ok (hFind.trans hLook)).bind
    exact ends_declaredAt_of_overdeep hLater
  · rcases hNearest with ⟨nearer, farther, hSplit, hHolds, _⟩
    exact (hNone d (by rw [hSplit]; simp) hHolds).elim

/- A search that is blocked fails. -/
theorem ends_of_blocks
    (hCharted : Charted root real w)
    (hBlocks : Blocks w.files real container) :
    ∃ failure w',
      Ends (detect root) w (.error failure) w' ∧
        (failure = .nesting container ∨
          ∃ fault,
            failure = .path fault ∧
              Refuses w.files real fault) := by
  have hResolve :
      Ends (ofFiles (·.resolve root)) w (.ok real) w :=
    ends_ofFiles_of_ok hCharted.resolved
  cases hBlocks with
  | own hDeep =>
      exact ⟨.nesting container, w,
        hResolve.bind
          ((ends_local?_of_overdeep hDeep).bind_error _),
        Or.inl rfl⟩
  | @above e hOwn hNone hNearest hDeep =>
      rcases tells_local? (shallow_of_not_overdeep hOwn) with
        ⟨_, v, hLocal, ⟨manager?, rfl, hTraced, hTells⟩ |
          ⟨fault, rfl, hRefuses⟩⟩
      · cases manager? with
        | some m => exact (hNone m ((hTells m).mp rfl)).elim
        | none =>
            rcases ends_above?_of_overdeep hCharted hTraced
                hNearest hDeep with
              ⟨failure, hAbove, hFailure⟩
            exact ⟨failure, v,
              hResolve.bind (hLocal.bind (hAbove.bind_error _)),
              hFailure⟩
      · exact ⟨.path fault, v,
          hResolve.bind (hLocal.bind_error _),
          Or.inr ⟨fault, rfl, hRefuses⟩⟩

/- A search that is not blocked finds the manager. -/
theorem chooses_of_not_blocks
    (hCharted : Charted root real w)
    (hFree : ∀ container, ¬ Blocks w.files real container) :
    Chooses w real (detect root) (Decides w.files real) w := by
  have hOwn :
      ∀ container,
        ¬ OverdeepAt w.files (real.child fileName) container :=
    fun container hDeep => hFree container (.own hDeep)
  apply chooses_of_charted hCharted
  · exact shallow_of_not_overdeep hOwn
  · intro hNone e hNearest
    apply shallow_of_not_overdeep
    exact fun container hDeep =>
      hFree container (.above hOwn hNone hNearest hDeep)

/-
  Each content of a manifest is handled, but for one that is
  nested too deep. Where a manifest is read, the result is
  the object in its bytes, an expected failure if they hold
  none, and a failure of another kind if they are nested too
  deep. Where the package manager is searched for, a manifest
  without an object declares nothing; the one of the project
  is found unless a manifest that is consulted is nested too
  deep, or a look-up is refused.
-/
theorem contents_handled (root : Path) (w : World) :
    (∀ bytes, w.files.read (root.child fileName) = .ok bytes →
        ((∃ m, Usable w.files.depths.json bytes m) ∨
          Unusable w.files.depths.json bytes ∨
          ∃ container,
            Overdeep w.files.depths.json bytes container) ∧
        (∀ m,
          Manifest.read w.files root = .ok m ↔
            Usable w.files.depths.json bytes m) ∧
        ((∃ failure,
            Manifest.read w.files root = .error failure ∧
              failure.kind = "ManifestError") ↔
          Unusable w.files.depths.json bytes) ∧
        ∀ container,
          Manifest.read w.files root =
              .error (.nesting container) ↔
            Overdeep w.files.depths.json bytes container) ∧
      ∀ real, Charted root real w →
        (∀ p bytes m,
          w.files.read p = .ok bytes →
            Unusable w.files.depths.json bytes →
              ¬ Declares w.files p m) ∧
        ∃ result w',
          Ends (detect root) w result w' ∧
            ((∃ m,
                result = .ok m ∧ Decides w.files real m ∧
                  ∀ container,
                    ¬ Blocks w.files real container) ∨
              (∃ container,
                result = .error (.nesting container) ∧
                  Blocks w.files real container) ∨
              ∃ fault,
                result = .error (.path fault) ∧
                  Refuses w.files real fault) := by
  refine ⟨fun bytes hRead =>
    ⟨exists_kind _ bytes, read_iffs hRead⟩, ?_⟩
  intro real hCharted
  refine ⟨fun p bytes m => not_declares_of_unusable, ?_⟩
  by_cases hBlocks : ∃ container, Blocks w.files real container
  · rcases hBlocks with ⟨container, hBlocks⟩
    rcases ends_of_blocks hCharted hBlocks with
      ⟨failure, w', hEnds, rfl | ⟨fault, rfl, hRefuses⟩⟩
    · exact ⟨_, w', hEnds,
        Or.inr (Or.inl ⟨container, rfl, hBlocks⟩)⟩
    · exact ⟨_, w', hEnds,
        Or.inr (Or.inr ⟨fault, rfl, hRefuses⟩)⟩
  · have hFree : ∀ container, ¬ Blocks w.files real container :=
      fun container hHere => hBlocks ⟨container, hHere⟩
    rcases chooses_of_not_blocks hCharted hFree with
      ⟨result, w', hEnds, ⟨m, rfl, hDecides⟩ | hRefused⟩
    · exact ⟨_, w', hEnds, Or.inl ⟨m, rfl, hDecides, hFree⟩⟩
    · exact ⟨_, w', hEnds, Or.inr (Or.inr hRefused)⟩

------------------------------------------------------------
-- Too Many Brackets
------------------------------------------------------------

/- There is room for an array. -/
theorem one_le_json (fs : FileSystem) : 1 ≤ fs.depths.json :=
  Nat.le_of_succ_le fs.depths.two_le_json

/- A project in the root directory whose manifest is brackets. -/
def bracketWorld (n : Nat) : World :=
  .initial
    { root :=
        .directory
          [(fileName, .file (Utf8.encode (Json.brackets n)))]
      working := []
      home := .top
      homes := []
      opened := [] }
    []

variable {n : Nat}

theorem read_bracketWorld (n : Nat) :
    (bracketWorld n).files.read (Path.top.child fileName) =
      .ok (Utf8.encode (Json.brackets n)) :=
  rfl

theorem overdeep_brackets
    {room : Nat}
    (hRoom : 1 ≤ room)
    (hDeep : room < n) :
    Overdeep room (Utf8.encode (Json.brackets n)) .array := by
  refine ⟨Json.brackets n, rfl, ?_⟩
  have hPlain : '\r' ∉ Json.brackets n := by
    intro hMember
    exact absurd (List.eq_of_mem_replicate hMember) (by decide)
  rw [LineBreak.unify_eq_self hPlain]
  exact Json.parse_brackets hRoom hDeep

theorem charted_bracketWorld (n : Nat) :
    Charted .top .top (bracketWorld n) where
  resolved := rfl
  working :=
    { anchor := rfl
      named := nofun
      linkless := by
        intro above hAbove target hLink
        rw [List.prefix_nil.mp hAbove] at hLink
        cases hLink }
  unlooped := ⟨.top, rfl⟩
  noNul := rfl
  unlogged := by
    intro d hd
    cases hd

/- No look-up is refused there. -/
theorem not_refuses_bracketWorld
    (n : Nat)
    (fault : PathFault) :
    ¬ Refuses (bracketWorld n).files .top fault := by
  rintro ⟨e, he, name, hName, hFault⟩
  rw [show e = .top from List.mem_singleton.mp he] at hFault
  have hNames :
      name = fileName ∨ name = "pnpm-lock.yaml" ∨
        name = "yarn.lock" ∨ name = "bun.lockb" := by
    simpa [searched, lockfiles, Manager.all, Manager.lockfile?]
      using hName
  rcases hNames with rfl | rfl | rfl | rfl
  all_goals cases hFault

theorem blocks_bracketWorld
    (hDeep : (bracketWorld n).files.depths.json < n) :
    Blocks (bracketWorld n).files .top .array :=
  .own ⟨_, read_bracketWorld n,
    overdeep_brackets (one_le_json _) hDeep⟩

theorem json_bracketWorld :
    (bracketWorld 20000).files.depths.json < 20000 := by
  show Depths.usual.json < 20000
  decide

/- Too many brackets end the reading and the search. -/
theorem handled_bracketWorld :
    (bracketWorld 20000).files.read (Path.top.child fileName) =
        .ok (Utf8.encode (Json.brackets 20000)) ∧
      Charted .top .top (bracketWorld 20000) ∧
      Manifest.read (bracketWorld 20000).files .top =
        .error (.nesting .array) ∧
      ∃ w',
        Ends (detect .top) (bracketWorld 20000)
          (.error (.nesting .array)) w' := by
  have hRead := read_bracketWorld 20000
  have hCharted := charted_bracketWorld 20000
  rcases contents_handled .top (bracketWorld 20000) with
    ⟨hReads, hFinds⟩
  rcases hReads _ hRead with ⟨_, _, _, hNesting⟩
  rcases hFinds _ hCharted with ⟨_, result, w', hEnds, hEnd⟩
  refine ⟨hRead, hCharted,
    (hNesting .array).mpr
      (overdeep_brackets (one_le_json _) json_bracketWorld), w', ?_⟩
  rcases hEnd with
    ⟨_, _, _, hFree⟩ | ⟨container, rfl, hBlocks⟩ |
      ⟨_, _, hRefuses⟩
  · exact (hFree .array (blocks_bracketWorld json_bracketWorld)).elim
  · rcases hBlocks.unique (blocks_bracketWorld json_bracketWorld) with rfl
    exact hEnds
  · exact (not_refuses_bracketWorld _ _ hRefuses).elim

/-
  Not each manifest that is there is read or an expected
  failure, and not each search finds a manager where no
  look-up is refused: a manifest may be nested too deep.
-/
theorem not_always_handled :
    (¬ ∀ (fs : FileSystem) (root : Path) (bytes : Bytes),
      fs.read (root.child fileName) = .ok bytes →
        (∃ m, Manifest.read fs root = .ok m) ∨
          ∃ failure,
            Manifest.read fs root = .error failure ∧
              failure.kind = "ManifestError") ∧
      ¬ ∀ (root real : Path) (w : World),
        Charted root real w →
          (∀ fault, ¬ Refuses w.files real fault) →
            ∃ m w', Runs (detect root) w m w' := by
  have hDeep := overdeep_brackets (one_le_json _) json_bracketWorld
  have hRead := read_bracketWorld 20000
  constructor
  · intro hAll
    have hResult := hDeep.read_eq hRead
    rcases hAll _ _ _ hRead with
      ⟨m, hOther⟩ | ⟨failure, hOther, hKind⟩
    · rw [hResult] at hOther
      cases hOther
    · rw [hResult] at hOther
      rw [← Except.error.inj hOther] at hKind
      exact kind_nesting_ne _ hKind
  · intro hAll
    rcases hAll .top .top (bracketWorld 20000)
        (charted_bracketWorld 20000)
        (not_refuses_bracketWorld 20000) with
      ⟨m, w', hRuns⟩
    rcases ends_of_blocks (charted_bracketWorld 20000)
        (blocks_bracketWorld json_bracketWorld) with
      ⟨failure, v, hEnds, _⟩
    cases ((runs_iff_ends.mp hRuns).unique hEnds).1

end Probe

end BiomeMigration
