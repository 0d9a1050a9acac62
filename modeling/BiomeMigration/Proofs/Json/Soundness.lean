import BiomeMigration.Json.Parser
import BiomeMigration.Proofs.Json.Numeral
import BiomeMigration.Proofs.Json.Value

/-
  What is read as a value is sound: its whole numbers are
  not too long, no key comes twice in an object, and its
  containers do not nest too deep.

  Main declarations:
    * `Json.FitsAt`
    * `Json.SoundStage`
    * `Json.SoundStage.next`
    * `Json.fitsAt_of_parse`
-/

------------------------------------------------------------
-- Members
------------------------------------------------------------

namespace BiomeMigration

namespace Members

theorem mem_of_mem_insert
    {ms : Members}
    {key : Text}
    {v : Json}
    {m : Text × Json}
    (hMember : m ∈ insert ms key v) :
    m ∈ ms ∨ m.2 = v := by
  induction ms with
  | nil =>
      right
      rw [List.mem_singleton.mp hMember]
  | cons first rest ih =>
      rcases first with ⟨k, w⟩
      rw [insert] at hMember
      split at hMember
      · rcases List.mem_cons.mp hMember with rfl | hRest
        · right
          rfl
        · left
          exact List.mem_cons_of_mem _ hRest
      · rcases List.mem_cons.mp hMember with rfl | hRest
        · left
          exact List.mem_cons_self
        · rcases ih hRest with hOld | hNew
          · left
            exact List.mem_cons_of_mem _ hOld
          · right
            exact hNew

theorem nodup_keys_insert
    {ms : Members}
    (hKeys : (keys ms).Nodup)
    (key : Text)
    (v : Json) :
    (keys (insert ms key v)).Nodup := by
  rw [keys_insert]
  split
  · exact hKeys
  · next hNew =>
      rw [List.nodup_append]
      refine ⟨hKeys, by simp, ?_⟩
      intro k hk other hOther
      rcases List.mem_singleton.mp hOther with rfl
      rintro rfl
      exact hNew hk

end Members

namespace Json

------------------------------------------------------------
-- Sound Tokens
------------------------------------------------------------

/- A scalar of a token is sound and no container. -/
def SoundToken : Token → Prop
  | .scalar v => v.All IsSound ∧ v.nesting = 0
  | _ => True

theorem soundToken_word
    {word : List Char}
    {v : Json}
    (hWord : (word, v) ∈ words) :
    SoundToken (.scalar v) := by
  unfold words at hWord
  simp only [List.mem_cons, Prod.mk.injEq,
    List.not_mem_nil, or_false] at hWord
  rcases hWord with
    ⟨_, rfl⟩ | ⟨_, rfl⟩ | ⟨_, rfl⟩ | ⟨_, rfl⟩ | ⟨_, rfl⟩ |
      ⟨_, rfl⟩
  all_goals exact ⟨trivial, rfl⟩

/- The decimal of a number is rounded to one of the format. -/
theorem Numeral.isCanonical_of_token
    (n : Numeral)
    {x : Binary64}
    (hToken : n.token = .scalar (.number x)) :
    x.IsCanonical := by
  unfold token at hToken
  split at hToken
  · split at hToken
    · simp at hToken
    · simp at hToken
  · simp only [Token.scalar.injEq, Json.number.injEq] at hToken
    rw [← hToken]
    exact Binary64.isCanonical_ofDecimal _ _ _

theorem soundToken_numeral
    {cs more : List Char}
    {n : Numeral}
    (hNumeral : numeral? cs = some (n, more)) :
    SoundToken n.token := by
  rcases token_cases_of_numeral? hNumeral with
    ⟨x, hx⟩ | ⟨k, hk, hLimit⟩ | ⟨fault, hFault⟩
  · rw [hx]
    exact ⟨n.isCanonical_of_token hx, rfl⟩
  · rw [hk]
    exact ⟨hLimit, rfl⟩
  · rw [hFault]
    trivial

theorem soundToken_punctuation
    {c : Char}
    {token : Token}
    (hToken : punctuation? c = some token) :
    SoundToken token := by
  unfold punctuation? at hToken
  split at hToken
  case h_7 => simp at hToken
  all_goals
    rcases Option.some.inj hToken with rfl
    trivial

theorem soundToken_tokenAt
    (pos : Nat)
    (cs : List Char) :
    SoundToken (tokenAt pos cs).1 := by
  unfold tokenAt
  split
  · trivial
  · split
    · next hToken => exact soundToken_punctuation hToken
    · split
      · split
        · trivial
        · trivial
      · split
        · next hFound =>
            exact soundToken_word (List.mem_of_find?_eq_some hFound)
        · split
          · next hNumeral => exact soundToken_numeral hNumeral
          · trivial

theorem soundToken_of_mem_scanFrom
    {pos skip : Nat}
    {cs : List Char}
    {entry : Nat × Token}
    (hEntry : entry ∈ scanFrom pos skip cs) :
    SoundToken entry.2 := by
  induction cs generalizing pos skip with
  | nil => simp [scanFrom] at hEntry
  | cons c cs ih =>
      cases skip with
      | succ skip =>
          rw [scanFrom_succ] at hEntry
          exact ih hEntry
      | zero =>
          rw [scanFrom_zero] at hEntry
          split at hEntry
          · exact ih hEntry
          · rcases List.mem_cons.mp hEntry with rfl | hLater
            · exact soundToken_tokenAt pos (c :: cs)
            · exact ih hLater

------------------------------------------------------------
-- Sound Stages
------------------------------------------------------------

/- A value is sound and may stand inside some containers. -/
def FitsAt
    (room depth : Nat)
    (v : Json) : Prop :=
  v.All IsSound ∧ depth + v.nesting ≤ room

/- Members that may stand in an object inside containers. -/
def MembersFitAt
    (room depth : Nat)
    (members : Members) : Prop :=
  depth < room ∧
    (Members.keys members).Nodup ∧
    ∀ m ∈ members, FitsAt room (depth + 1) m.2

/- The open containers are sound and not too many. -/
def SoundStack (room : Nat) : List Frame → Prop
  | [] => True
  | .array items :: stack =>
      stack.length < room ∧
        (∀ v ∈ items, FitsAt room (stack.length + 1) v) ∧
        SoundStack room stack
  | .object members _ :: stack =>
      MembersFitAt room stack.length members ∧ SoundStack room stack

/- What has been read so far is sound. -/
def SoundStage (room : Nat) : Stage → Prop
  | .value stack => SoundStack room stack
  | .items stack =>
      stack.length < room ∧ SoundStack room stack
  | .names stack =>
      stack.length < room ∧ SoundStack room stack
  | .name stack members =>
      MembersFitAt room stack.length members ∧ SoundStack room stack
  | .colon stack members _ =>
      MembersFitAt room stack.length members ∧ SoundStack room stack
  | .after stack v => FitsAt room stack.length v ∧ SoundStack room stack

variable {room : Nat} {stack : List Frame}

theorem SoundStack.length_le
    (hStack : SoundStack room stack) :
    stack.length ≤ room := by
  cases stack with
  | nil => exact Nat.zero_le _
  | cons frame stack =>
      cases frame with
      | array items => exact hStack.1
      | object members name => exact hStack.1.1

/- A complete array fits where it was opened. -/
theorem fitsAt_array
    {depth : Nat}
    {items : List Json}
    (hDepth : depth < room)
    (hItems : ∀ v ∈ items, FitsAt room (depth + 1) v) :
    FitsAt room depth (.array items) := by
  constructor
  · rw [all_array_iff]
    exact ⟨trivial, fun v hv => (hItems v hv).1⟩
  · have hNesting :
        nestingItems items ≤ room - (depth + 1) := by
      apply nestingItems_le_iff.mpr
      intro v hv
      have hFits := (hItems v hv).2
      omega
    rw [nesting]
    omega

/- A complete object fits where it was opened. -/
theorem MembersFitAt.fitsAt_object
    {depth : Nat}
    {members : Members}
    (hMembers : MembersFitAt room depth members) :
    FitsAt room depth (.object members) := by
  rcases hMembers with ⟨hDepth, hKeys, hValues⟩
  constructor
  · rw [all_object_iff]
    exact ⟨hKeys, fun m hm => (hValues m hm).1⟩
  · have hNesting :
        nestingMembers members ≤
          room - (depth + 1) := by
      apply nestingMembers_le_iff.mpr
      intro m hm
      have hFits := (hValues m hm).2
      omega
    rw [nesting]
    omega

theorem MembersFitAt.insert
    {depth : Nat}
    {members : Members}
    (hMembers : MembersFitAt room depth members)
    (key : Text)
    {v : Json}
    (hValue : FitsAt room (depth + 1) v) :
    MembersFitAt room depth (Members.insert members key v) := by
  rcases hMembers with ⟨hDepth, hKeys, hValues⟩
  refine ⟨hDepth, Members.nodup_keys_insert hKeys key v, ?_⟩
  intro m hm
  rcases Members.mem_of_mem_insert hm with hOld | hNew
  · exact hValues m hOld
  · rw [hNew]
    exact hValue

theorem membersFitAt_nil
    {depth : Nat}
    (hDepth : depth < room) :
    MembersFitAt room depth [] :=
  ⟨hDepth, List.nodup_nil, by simp⟩

------------------------------------------------------------
-- Steps
------------------------------------------------------------

variable {stage stage' : Stage} {token : Token} {pos : Nat}

/- Behind an opening bracket a value starts, if it is no end. -/
theorem next_items_of_ne
    (hToken : token ≠ .closeArray) :
    (Stage.items stack).next room pos token =
      Stage.start room (.array [] :: stack) pos token := by
  cases token <;> first | rfl | exact (hToken rfl).elim

theorem next_names_of_ne
    (hToken : token ≠ .closeObject) :
    (Stage.names stack).next room pos token =
      Stage.named stack [] pos token := by
  cases token <;> first | rfl | exact (hToken rfl).elim

/- The start of a value keeps what was read sound. -/
theorem SoundStack.start
    (hStack : SoundStack room stack)
    (hToken : SoundToken token)
    (hStart : Stage.start room stack pos token = .ok stage') :
    SoundStage room stage' := by
  have hLength := hStack.length_le
  cases token with
  | string t =>
      rcases Except.ok.inj hStart with rfl
      exact ⟨⟨trivial, hLength⟩, hStack⟩
  | scalar v =>
      rcases Except.ok.inj hStart with rfl
      refine ⟨⟨hToken.1, ?_⟩, hStack⟩
      rw [hToken.2]
      exact hLength
  | openArray =>
      rw [Stage.start] at hStart
      split at hStart
      · simp at hStart
      · next hDepth =>
          rcases Except.ok.inj hStart with rfl
          exact ⟨Nat.lt_of_not_le hDepth, hStack⟩
  | openObject =>
      rw [Stage.start] at hStart
      split at hStart
      · simp at hStart
      · next hDepth =>
          rcases Except.ok.inj hStart with rfl
          exact ⟨Nat.lt_of_not_le hDepth, hStack⟩
  | _ => simp [Stage.start] at hStart

/- A name keeps what was read sound. -/
theorem soundStage_named
    {members : Members}
    (hMembers : MembersFitAt room stack.length members)
    (hStack : SoundStack room stack)
    (hNamed :
      Stage.named stack members pos token = .ok stage') :
    SoundStage room stage' := by
  cases token with
  | string t =>
      rcases Except.ok.inj hNamed with rfl
      exact ⟨hMembers, hStack⟩
  | flawed fault => cases fault <;> simp [Stage.named] at hNamed
  | _ => simp [Stage.named] at hNamed

/- What follows an item keeps what was read sound. -/
theorem soundStage_item
    {done : List Json}
    {v : Json}
    (hValue : FitsAt room (stack.length + 1) v)
    (hStack : SoundStack room (.array done :: stack))
    (hNext :
      (Stage.after (.array done :: stack) v).next room pos token =
        .ok stage') :
    SoundStage room stage' := by
  rcases hStack with ⟨hDepth, hDone, hOuter⟩
  have hItems :
      ∀ w ∈ v :: done, FitsAt room (stack.length + 1) w := by
    intro w hw
    rcases List.mem_cons.mp hw with rfl | hOld
    · exact hValue
    · exact hDone w hOld
  cases token with
  | closeArray =>
      rcases Except.ok.inj hNext with rfl
      refine ⟨fitsAt_array hDepth ?_, hOuter⟩
      intro w hw
      exact hItems w (List.mem_reverse.mp hw)
  | comma =>
      rcases Except.ok.inj hNext with rfl
      exact ⟨hDepth, hItems, hOuter⟩
  | _ => simp [Stage.next] at hNext

/- What follows a member keeps what was read sound. -/
theorem soundStage_member
    {members : Members}
    {key : Text}
    {v : Json}
    (hValue : FitsAt room (stack.length + 1) v)
    (hStack : SoundStack room (.object members key :: stack))
    (hNext :
      (Stage.after (.object members key :: stack) v).next room pos
          token =
        .ok stage') :
    SoundStage room stage' := by
  rcases hStack with ⟨hMembers, hOuter⟩
  have hInserted := hMembers.insert key hValue
  cases token with
  | closeObject =>
      rcases Except.ok.inj hNext with rfl
      exact ⟨hInserted.fitsAt_object, hOuter⟩
  | comma =>
      rcases Except.ok.inj hNext with rfl
      exact ⟨hInserted, hOuter⟩
  | _ => simp [Stage.next] at hNext

/- Each token keeps what was read sound. -/
theorem SoundStage.next
    (hStage : SoundStage room stage)
    (hToken : SoundToken token)
    (hNext : stage.next room pos token = .ok stage') :
    SoundStage room stage' := by
  cases stage with
  | value stack => exact hStage.start hToken hNext
  | items stack =>
      by_cases hClose : token = .closeArray
      · rw [hClose] at hNext
        rcases Except.ok.inj hNext with rfl
        exact ⟨fitsAt_array hStage.1 (by simp), hStage.2⟩
      · have hOpened : SoundStack room (.array [] :: stack) :=
          ⟨hStage.1, by simp, hStage.2⟩
        rw [next_items_of_ne hClose] at hNext
        exact hOpened.start hToken hNext
  | names stack =>
      have hMembers := membersFitAt_nil hStage.1
      by_cases hClose : token = .closeObject
      · rw [hClose] at hNext
        rcases Except.ok.inj hNext with rfl
        exact ⟨hMembers.fitsAt_object, hStage.2⟩
      · rw [next_names_of_ne hClose] at hNext
        exact soundStage_named hMembers hStage.2 hNext
  | name stack members =>
      exact soundStage_named hStage.1 hStage.2 hNext
  | colon stack members name =>
      cases token <;> simp [Stage.next] at hNext
      rcases hNext with rfl
      exact hStage
  | after stack v =>
      rcases hStage with ⟨hValue, hStack⟩
      cases stack with
      | nil => cases token <;> simp [Stage.next] at hNext
      | cons frame stack =>
          cases frame with
          | array done =>
              exact soundStage_item hValue hStack hNext
          | object members name =>
              exact soundStage_member hValue hStack hNext

------------------------------------------------------------
-- Whole Texts
------------------------------------------------------------

theorem SoundStage.finish
    {v : Json}
    (hStage : SoundStage room stage)
    (hFinish : stage.finish pos = .ok v) :
    FitsAt room 0 v := by
  cases stage with
  | after stack w =>
      cases stack with
      | nil =>
          rcases Except.ok.inj hFinish with rfl
          exact hStage.1
      | cons frame stack => simp [Stage.finish] at hFinish
  | _ => simp [Stage.finish] at hFinish

theorem SoundStage.read
    {size : Nat}
    {tokens : List (Nat × Token)}
    {v : Json}
    (hStage : SoundStage room stage)
    (hTokens : ∀ entry ∈ tokens, SoundToken entry.2)
    (hRead : read room size stage tokens = .ok v) :
    FitsAt room 0 v := by
  induction tokens generalizing stage with
  | nil => exact hStage.finish hRead
  | cons entry tokens ih =>
      rcases entry with ⟨pos, token⟩
      rw [Json.read] at hRead
      split at hRead
      · next later hNext =>
          have hLater :=
            hStage.next (hTokens (pos, token) (by simp)) hNext
          exact ih hLater
            (fun other hOther => hTokens other (by simp [hOther]))
            hRead
      · simp at hRead

/- What is read is sound and does not nest too deep. -/
theorem fitsAt_of_parse
    {cs : List Char}
    {v : Json}
    (hParse : parse room cs = .ok v) :
    FitsAt room 0 v := by
  unfold parse at hParse
  split at hParse
  · simp at hParse
  · have hStart : SoundStage room (.value []) := trivial
    apply hStart.read _ hParse
    intro entry hEntry
    exact soundToken_of_mem_scanFrom hEntry

end Json

end BiomeMigration
