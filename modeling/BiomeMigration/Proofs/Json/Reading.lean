import BiomeMigration.Proofs.Json.Float
import BiomeMigration.Proofs.Json.Soundness

/-
  What the reader of tokens does with a part of a text, in
  front of any other text, and what printed values are to
  it.

  Main declarations:
    * `Json.Reads`
    * `Json.Opens`
    * `Json.ReadsBack`
    * `Json.readsBack_of_all`
-/

------------------------------------------------------------
-- Parts of a Text
------------------------------------------------------------

namespace BiomeMigration

namespace Json

/-
  In front of some text, a part of a text takes the reader
  from one stage to another.
-/
def Reads
    (room : Nat)
    (stage : Stage)
    (part : List Char)
    (stage' : Stage)
    (rest : List Char) : Prop :=
  ∀ size pos,
    read room size stage (scanFrom pos 0 (part ++ rest)) =
      read room size stage' (scanFrom (pos + part.length) 0 rest)

variable {room : Nat} {stage stage' stage'' : Stage}
variable {part more rest : List Char}

theorem Reads.append
    (hFirst : Reads room stage part stage' (more ++ rest))
    (hThen : Reads room stage' more stage'' rest) :
    Reads room stage (part ++ more) stage'' rest := by
  intro size pos
  rw [List.append_assoc, hFirst, hThen, List.length_append,
    Nat.add_assoc]

theorem reads_spaces
    (hSpaces : ∀ c ∈ part, isSpace c = true) :
    Reads room stage part stage rest := by
  intro size pos
  rw [scanFrom_spaces hSpaces]

theorem reads_token
    {token : Token}
    (hShows : Shows part token rest)
    (hNext : ∀ pos, stage.next room pos token = .ok stage') :
    Reads room stage part stage' rest := by
  intro size pos
  rw [hShows.scanFrom_eq]
  simp only [read, hNext]

theorem reads_punctuation
    {c : Char}
    {token : Token}
    (hToken : punctuation? c = some token)
    (hNext : ∀ pos, stage.next room pos token = .ok stage') :
    Reads room stage [c] stage' rest :=
  reads_token (shows_punctuation hToken rest) hNext

theorem plain_newline (level : Nat) :
    Text.plain (newline level) =
      '\n' :: List.replicate (2 * level) ' ' := by
  unfold newline
  rw [Text.plain_cons]
  congr 1
  exact List.filterMap_replicate_of_some rfl

/- A line break with its indentation is passed over. -/
theorem reads_newline
    (level : Nat) :
    Reads room stage (Text.plain (newline level)) stage rest := by
  apply reads_spaces
  rw [plain_newline]
  intro c hc
  rcases List.mem_cons.mp hc with rfl | hc
  · rfl
  · rw [(List.mem_replicate.mp hc).2]
    rfl

------------------------------------------------------------
-- Starts of Values
------------------------------------------------------------

/- A stage in which a value may start inside some containers. -/
def Opens
    (stack : List Frame)
    (stage : Stage) : Prop :=
  stage = .value stack ∨
    ∃ outer, stage = .items outer ∧ stack = .array [] :: outer

variable {stack : List Frame}

theorem Opens.next_eq
    (hOpens : Opens stack stage)
    {token : Token}
    (hToken : token ≠ .closeArray)
    (pos : Nat) :
    stage.next room pos token = Stage.start room stack pos token := by
  rcases hOpens with rfl | ⟨outer, rfl, rfl⟩
  · rfl
  · exact next_items_of_ne hToken

theorem Opens.reads_scalar
    (hOpens : Opens stack stage)
    {v : Json}
    (hShows : Shows part (.scalar v) rest) :
    Reads room stage part (.after stack v) rest := by
  apply reads_token hShows
  intro pos
  rw [hOpens.next_eq (by simp)]
  rfl

theorem Opens.reads_openArray
    (hOpens : Opens stack stage)
    (hDepth : stack.length < room) :
    Reads room stage ['['] (.items stack) rest := by
  apply reads_punctuation rfl
  intro pos
  rw [hOpens.next_eq (by simp), Stage.start,
    if_neg (by omega)]

theorem Opens.reads_openObject
    (hOpens : Opens stack stage)
    (hDepth : stack.length < room) :
    Reads room stage ['{'] (.names stack) rest := by
  apply reads_punctuation rfl
  intro pos
  rw [hOpens.next_eq (by simp), Stage.start,
    if_neg (by omega)]

------------------------------------------------------------
-- Printed Values
------------------------------------------------------------

/-
  Wherever a value may start and is deep enough below the
  greatest nesting, its printed text is read as the value.
-/
def ReadsBack
    (room : Nat)
    (charset : Charset)
    (v : Json) : Prop :=
  ∀ (level : Nat) {stack : List Frame} {stage : Stage}
    {rest : List Char},
    Opens stack stage →
    stack.length + v.nesting ≤ room →
    EndsToken rest →
    Reads room stage (printAt charset level v).plain
      (.after stack v) rest

variable {charset : Charset} {level : Nat}

theorem endsToken_comma (rest : List Char) :
    EndsToken (',' :: rest) := by
  intro c hc
  left
  simpa using hc.symm

theorem endsToken_newline
    (level : Nat)
    (rest : List Char) :
    EndsToken (Text.plain (newline level) ++ rest) := by
  intro c hc
  right
  have hHead : c = '\n' := by
    simpa [newline] using hc.symm
  exact hHead

/-
  The end of a container: the items or members after the
  first, a line break, and the closing bracket.
-/
def ending
    (level : Nat)
    (others : Text)
    (bracket : Char) : List Char :=
  others.plain ++ (Text.plain (newline level) ++ [bracket])

/- Behind an item stands a comma or a line break. -/
theorem endsToken_items
    (items : List Json)
    (bracket : Char)
    (rest : List Char) :
    EndsToken
      (ending level (printItems charset (level + 1) items)
        bracket ++ rest) := by
  unfold ending
  rw [List.append_assoc, List.append_assoc]
  cases items with
  | nil => exact endsToken_newline level _
  | cons v items => exact endsToken_comma _

/- Behind a member stands a comma or a line break. -/
theorem endsToken_members
    (members : Members)
    (bracket : Char)
    (rest : List Char) :
    EndsToken
      (ending level (printMembers charset (level + 1) members)
        bracket ++ rest) := by
  unfold ending
  rw [List.append_assoc, List.append_assoc]
  cases members with
  | nil => exact endsToken_newline level _
  | cons m members => exact endsToken_comma _

/-
  The rest of an array, from behind an item on: the items
  before it are on the stack, last first.
-/
theorem reads_items
    {items : List Json}
    (hItems : ∀ v ∈ items, ReadsBack room charset v)
    (hDepth :
      ∀ v ∈ items,
        stack.length + 1 + v.nesting ≤ room)
    (done : List Json)
    (v : Json) :
    Reads room (.after (.array done :: stack) v)
      (ending level (printItems charset (level + 1) items)
        ']')
      (.after stack
        (.array ((v :: done).reverse ++ items))) rest := by
  induction items generalizing done v with
  | nil =>
      rw [List.append_nil]
      apply Reads.append (reads_newline level)
      exact reads_punctuation rfl fun _ => rfl
  | cons w items ih =>
      have hComma :
          ∀ {more},
            Reads room (.after (.array done :: stack) v) [',']
              (.value (.array (v :: done) :: stack)) more :=
        reads_punctuation rfl fun _ => rfl
      have hText :
          ending level
              (printItems charset (level + 1) (w :: items))
              ']' =
            [','] ++ (Text.plain (newline (level + 1)) ++
              ((printAt charset (level + 1) w).plain ++
                ending level
                  (printItems charset (level + 1) items)
                  ']')) := by
        simp [ending, printItems]
      have hDone :
          (v :: done).reverse ++ w :: items =
            (w :: v :: done).reverse ++ items := by
        simp
      rw [hText, hDone]
      apply Reads.append hComma
      apply Reads.append (reads_newline (level + 1))
      apply Reads.append
      · exact hItems w (by simp) (level + 1) (Or.inl rfl)
          (hDepth w (by simp))
          (endsToken_items items ']' rest)
      · exact ih (fun u hu => hItems u (by simp [hu]))
          (fun u hu => hDepth u (by simp [hu]))
          (v :: done) w

/- A printed array is read as the array. -/
theorem readsBack_array
    {items : List Json}
    (hItems : ∀ v ∈ items, ReadsBack room charset v) :
    ReadsBack room charset (.array items) := by
  intro level stack stage rest hOpens hNesting hRest
  have hDepth :
      ∀ v ∈ items,
        stack.length + 1 + v.nesting ≤ room := by
    intro v hv
    have hLe := nestingItems_le_iff.mp (Nat.le_refl _) v hv
    rw [nesting] at hNesting
    omega
  have hRoom : stack.length < room := by
    rw [nesting] at hNesting
    omega
  cases items with
  | nil =>
      have hClose :
          Reads room (.items stack) [']']
            (.after stack (.array [])) rest :=
        reads_punctuation rfl fun _ => rfl
      rw [printAt, Text.plain_ofString]
      exact (hOpens.reads_openArray hRoom).append hClose
  | cons v items =>
      have hText :
          (printAt charset level (.array (v :: items))).plain =
            ['['] ++ (Text.plain (newline (level + 1)) ++
              ((printAt charset (level + 1) v).plain ++
                ending level
                  (printItems charset (level + 1) items)
                  ']')) := by
        simp [ending, printAt]
      rw [hText]
      apply Reads.append (hOpens.reads_openArray hRoom)
      apply Reads.append (reads_newline (level + 1))
      apply Reads.append
      · exact hItems v (by simp) (level + 1)
          (Or.inr ⟨stack, rfl, rfl⟩)
          (hDepth v (by simp))
          (endsToken_items items ']' rest)
      · exact reads_items
          (fun u hu => hItems u (by simp [hu]))
          (fun u hu => hDepth u (by simp [hu])) [] v

/- A new member goes to the end of an object. -/
theorem insert_of_not_mem_keys
    {members : Members}
    {key : Text}
    (hNew : key ∉ Members.keys members)
    (v : Json) :
    Members.insert members key v = members ++ [(key, v)] := by
  induction members with
  | nil => rfl
  | cons m members ih =>
      rcases m with ⟨k, w⟩
      have hOther : ¬ (k = key) := by
        rintro rfl
        exact hNew List.mem_cons_self
      have hRest : key ∉ Members.keys members :=
        fun hMember => hNew (List.mem_cons_of_mem k hMember)
      rw [Members.insert, if_neg hOther, ih hRest,
        List.cons_append]

theorem insert_of_nodup_keys
    {done members : Members}
    {key : Text}
    {v : Json}
    (hKeys :
      (Members.keys (done ++ (key, v) :: members)).Nodup) :
    Members.insert done key v = done ++ [(key, v)] := by
  apply insert_of_not_mem_keys
  intro hMember
  unfold Members.keys at hKeys hMember
  rw [List.map_append] at hKeys
  exact (List.nodup_append.mp hKeys).2.2 key hMember key
    List.mem_cons_self rfl

/- A member up to its value. -/
theorem reads_name
    {members : Members}
    {key : Text}
    (hPlain : key.IsPlain)
    (hNext :
      ∀ pos,
        stage.next room pos (.string key) =
          .ok (.colon stack members key)) :
    Reads room stage ((quote charset key).plain ++ ": ".toList)
      (.value (.object members key :: stack)) rest := by
  have hColon :
      ∀ {more},
        Reads room (.colon stack members key) [':']
          (.value (.object members key :: stack)) more :=
    reads_punctuation rfl fun _ => rfl
  have hText : ": ".toList = [':'] ++ [' '] := rfl
  rw [hText]
  apply Reads.append
  · exact reads_token (shows_quote charset hPlain _) hNext
  · apply Reads.append hColon
    apply reads_spaces
    simp [isSpace]

/-
  The rest of an object, from behind a member on: the
  members before it are on the stack.
-/
theorem reads_members
    {members : Members}
    (hMembers :
      ∀ m ∈ members, m.1.IsPlain ∧ ReadsBack room charset m.2)
    (hDepth :
      ∀ m ∈ members,
        stack.length + 1 + m.2.nesting ≤ room)
    {done : Members}
    {key : Text}
    {v : Json}
    (hKeys :
      (Members.keys (done ++ (key, v) :: members)).Nodup) :
    Reads room (.after (.object done key :: stack) v)
      (ending level (printMembers charset (level + 1) members)
        '}')
      (.after stack (.object (done ++ (key, v) :: members)))
      rest := by
  induction members generalizing done key v with
  | nil =>
      apply Reads.append (reads_newline level)
      apply reads_punctuation rfl
      intro pos
      simp only [Stage.next, insert_of_nodup_keys hKeys]
  | cons m members ih =>
      rcases m with ⟨name, w⟩
      have hComma :
          ∀ {more},
            Reads room (.after (.object done key :: stack) v) [',']
              (.name stack (done ++ [(key, v)])) more := by
        intro more
        apply reads_punctuation rfl
        intro pos
        simp only [Stage.next, insert_of_nodup_keys hKeys]
      have hText :
          ending level
              (printMembers charset (level + 1)
                ((name, w) :: members)) '}' =
            [','] ++ (Text.plain (newline (level + 1)) ++
              (((quote charset name).plain ++ ": ".toList) ++
                ((printAt charset (level + 1) w).plain ++
                  ending level
                    (printMembers charset (level + 1) members)
                    '}'))) := by
        simp [ending, printMembers]
      have hDone :
          done ++ (key, v) :: (name, w) :: members =
            (done ++ [(key, v)]) ++ (name, w) :: members := by
        simp
      rw [hDone] at hKeys
      rw [hText, hDone]
      rcases hMembers (name, w) (by simp) with
        ⟨hPlain, hValue⟩
      apply Reads.append hComma
      apply Reads.append (reads_newline (level + 1))
      apply Reads.append
      · exact reads_name hPlain fun _ => rfl
      · apply Reads.append
        · exact hValue (level + 1) (Or.inl rfl)
            (hDepth (name, w) (by simp))
            (endsToken_members members '}' rest)
        · exact ih (fun u hu => hMembers u (by simp [hu]))
            (fun u hu => hDepth u (by simp [hu])) hKeys

/- A printed object is read as the object. -/
theorem readsBack_object
    {members : Members}
    (hMembers :
      ∀ m ∈ members, m.1.IsPlain ∧ ReadsBack room charset m.2)
    (hKeys : (Members.keys members).Nodup) :
    ReadsBack room charset (.object members) := by
  intro level stack stage rest hOpens hNesting hRest
  have hDepth :
      ∀ m ∈ members,
        stack.length + 1 + m.2.nesting ≤ room := by
    intro m hm
    have hLe := nestingMembers_le_iff.mp (Nat.le_refl _) m hm
    rw [nesting] at hNesting
    omega
  have hRoom : stack.length < room := by
    rw [nesting] at hNesting
    omega
  cases members with
  | nil =>
      have hText : "\x7b\x7d".toList = ['{'] ++ ['}'] := rfl
      rw [printAt, Text.plain_ofString, hText]
      apply Reads.append (hOpens.reads_openObject hRoom)
      exact reads_punctuation rfl fun _ => rfl
  | cons m members =>
      rcases m with ⟨key, v⟩
      have hText :
          (printAt charset level
              (.object ((key, v) :: members))).plain =
            ['{'] ++ (Text.plain (newline (level + 1)) ++
              (((quote charset key).plain ++ ": ".toList) ++
                ((printAt charset (level + 1) v).plain ++
                  ending level
                    (printMembers charset (level + 1) members)
                    '}'))) := by
        simp [ending, printAt]
      rw [hText]
      rcases hMembers (key, v) (by simp) with ⟨hPlain, hValue⟩
      apply Reads.append (hOpens.reads_openObject hRoom)
      apply Reads.append (reads_newline (level + 1))
      apply Reads.append
      · exact reads_name hPlain fun _ => rfl
      · apply Reads.append
        · exact hValue (level + 1) (Or.inl rfl)
            (hDepth (key, v) (by simp))
            (endsToken_members members '}' rest)
        · exact reads_members
            (fun u hu => hMembers u (by simp [hu]))
            (fun u hu => hDepth u (by simp [hu])) hKeys

------------------------------------------------------------
-- All Values
------------------------------------------------------------

/- A value is no number, or a number that is read back. -/
def HasSurvived : Json → Prop
  | .number x => x.Survives
  | _ => True

/- A text or a scalar is read as the value that it shows. -/
theorem readsBack_of_shows
    {v : Json}
    (hShows :
      ∀ {level rest},
        EndsToken rest →
          Shows (printAt charset level v).plain (.scalar v)
            rest) :
    ReadsBack room charset v := by
  intro level stack stage rest hOpens _ hRest
  exact hOpens.reads_scalar (hShows hRest)

/- The whole number of a printed one. -/
theorem shows_int
    {n : Int}
    (hSound : n.natAbs < 10 ^ Digit.limit)
    (hRest : EndsToken rest) :
    Shows (toString n).toList (.scalar (.int n)) rest := by
  rcases numeral?_int hSound with ⟨k, hNumeral, hToken⟩
  rw [← hToken]
  exact shows_numeral hNumeral hRest

/-
  What is printed for a sound value is read as the value,
  if it holds no surrogates and its numbers survive.
-/
theorem readsBack_of_all
    {v : Json}
    (hSound : v.All IsSound)
    (hPlain : v.All IsPlain)
    (hFloats : v.All HasSurvived) :
    ReadsBack room charset v := by
  induction v using partsInduction with
  | null =>
      apply readsBack_of_shows
      intro level rest _
      rw [printAt, Text.plain_ofString]
      exact shows_word (by simp [words]) rest
  | bool b =>
      apply readsBack_of_shows
      intro level rest _
      cases b with
      | false =>
          rw [printAt, Text.plain_ofString]
          exact shows_word (by simp [words]) rest
      | true =>
          rw [printAt, Text.plain_ofString]
          exact shows_word (by simp [words]) rest
  | int n =>
      apply readsBack_of_shows
      intro level rest hRest
      rw [printAt, Text.plain_ofString]
      exact shows_int hSound hRest
  | number x =>
      apply readsBack_of_shows
      intro level rest hRest
      rw [printAt, Text.plain_ofString]
      exact shows_number hFloats hRest
  | string t =>
      intro level stack stage rest hOpens _ _
      rw [printAt]
      apply reads_token (shows_quote charset hPlain rest)
      intro pos
      rw [hOpens.next_eq (by simp)]
      rfl
  | array items ih =>
      rw [all_array_iff] at hSound hPlain hFloats
      apply readsBack_array
      intro v hv
      exact ih v hv (hSound.2 v hv) (hPlain.2 v hv)
        (hFloats.2 v hv)
  | object members ih =>
      rw [all_object_iff] at hSound hPlain hFloats
      apply readsBack_object
      · intro m hm
        refine ⟨hPlain.1 m hm, ?_⟩
        exact ih m hm (hSound.2 m hm) (hPlain.2 m hm)
          (hFloats.2 m hm)
      · exact hSound.1

end Json

end BiomeMigration
