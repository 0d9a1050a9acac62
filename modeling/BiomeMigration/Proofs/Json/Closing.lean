import BiomeMigration.Proofs.Json.Soundness
import BiomeMigration.Text.LineBreak

/-
  The text of a JSON object ends with a closing brace and
  blanks.

  Main declarations:
    * `Json.Closes`
    * `Json.closes_of_unify`
    * `Json.closes_of_parse`
-/

------------------------------------------------------------
-- Closing Texts
------------------------------------------------------------

namespace BiomeMigration

namespace Json

variable {room : Nat} {c : Char} {cs : List Char} {members : Members}

/- A text ends with a closing brace and blanks behind it. -/
def Closes (cs : List Char) : Prop :=
  ∃ front blanks,
    cs = front ++ '}' :: blanks ∧ ∀ b ∈ blanks, isSpace b = true

theorem closes_cons_iff :
    Closes (c :: cs) ↔
      (c = '}' ∧ ∀ b ∈ cs, isSpace b = true) ∨ Closes cs := by
  constructor
  · rintro ⟨front, blanks, hSplit, hBlanks⟩
    cases front with
    | nil =>
        rcases List.cons.inj hSplit with ⟨rfl, rfl⟩
        exact Or.inl ⟨rfl, hBlanks⟩
    | cons first front =>
        rcases List.cons.inj hSplit with ⟨rfl, rfl⟩
        exact Or.inr ⟨front, blanks, rfl, hBlanks⟩
  · rintro (⟨rfl, hBlanks⟩ | ⟨front, blanks, rfl, hBlanks⟩)
    · exact ⟨[], cs, rfl, hBlanks⟩
    · exact ⟨c :: front, blanks, rfl, hBlanks⟩

/- Line breaks are blanks, however they are written. -/
theorem isSpace_of_unify
    (hBlanks : ∀ b ∈ LineBreak.unify cs, isSpace b = true) :
    ∀ b ∈ cs, isSpace b = true := by
  fun_induction LineBreak.unify cs with
  | case1 => simp
  | case2 rest ih =>
      have hRest := ih fun b hb => hBlanks b (by simp [hb])
      intro b hb
      simp only [List.mem_cons] at hb
      rcases hb with rfl | rfl | hIn
      · rfl
      · rfl
      · exact hRest b hIn
  | case3 c rest _ hReturn ih =>
      have hRest := ih fun b hb => hBlanks b (by simp [hb])
      intro b hb
      rcases List.mem_cons.mp hb with rfl | hIn
      · rw [beq_iff_eq.mp hReturn]
        rfl
      · exact hRest b hIn
  | case4 c rest _ hOther ih =>
      have hRest := ih fun b hb => hBlanks b (by simp [hb])
      intro b hb
      rcases List.mem_cons.mp hb with rfl | hIn
      · exact hBlanks b (by simp)
      · exact hRest b hIn

theorem closes_of_unify
    (hCloses : Closes (LineBreak.unify cs)) :
    Closes cs := by
  fun_induction LineBreak.unify cs with
  | case1 => exact hCloses
  | case2 rest ih =>
      rcases closes_cons_iff.mp hCloses with ⟨hBrace, _⟩ | hRest
      · simp at hBrace
      · exact closes_cons_iff.mpr
          (Or.inr (closes_cons_iff.mpr (Or.inr (ih hRest))))
  | case3 c rest _ hReturn ih =>
      rcases closes_cons_iff.mp hCloses with ⟨hBrace, _⟩ | hRest
      · simp at hBrace
      · exact closes_cons_iff.mpr (Or.inr (ih hRest))
  | case4 c rest _ hOther ih =>
      rcases closes_cons_iff.mp hCloses with
        ⟨hBrace, hBlanks⟩ | hRest
      · exact closes_cons_iff.mpr
          (Or.inl ⟨hBrace, isSpace_of_unify hBlanks⟩)
      · exact closes_cons_iff.mpr (Or.inr (ih hRest))

------------------------------------------------------------
-- The Last Token of an Object
------------------------------------------------------------

/- No object is complete where it starts. -/
theorem start_ne_object
    {pos : Nat}
    {token : Token}
    {stack outer : List Frame}
    (hToken : SoundToken token) :
    Stage.start room outer pos token ≠
      .ok (.after stack (.object members)) := by
  intro hStart
  unfold Stage.start at hStart
  split at hStart
  case h_2 v =>
    -- a scalar is nested less deep than any object
    rcases Stage.after.inj (Except.ok.inj hStart) with ⟨_, rfl⟩
    have hFlat := hToken.2
    simp [nesting] at hFlat
  case h_3 => split at hStart <;> cases hStart
  case h_4 => split at hStart <;> cases hStart
  all_goals cases hStart

theorem named_ne_object
    {pos : Nat}
    {token : Token}
    {stack outer : List Frame}
    {done : Members} :
    Stage.named outer done pos token ≠
      .ok (.after stack (.object members)) := by
  intro hNamed
  unfold Stage.named at hNamed
  split at hNamed
  all_goals cases hNamed

/- A step that completes an object reads a closing brace. -/
theorem eq_closeObject_of_next
    {stage : Stage}
    {pos : Nat}
    {token : Token}
    {stack : List Frame}
    (hToken : SoundToken token)
    (hNext :
      stage.next room pos token =
        .ok (.after stack (.object members))) :
    token = .closeObject := by
  unfold Stage.next at hNext
  split at hNext
  case h_1 => exact (start_ne_object hToken hNext).elim
  case h_3 => exact (start_ne_object hToken hNext).elim
  case h_5 => exact (named_ne_object hNext).elim
  case h_6 => exact (named_ne_object hNext).elim
  -- the other steps complete an array, or no value, or fail
  all_goals first | rfl | cases hNext

/- The last token of an object is a closing brace. -/
theorem last_of_read
    {size : Nat}
    {stage : Stage}
    {tokens : List (Nat × Token)}
    (hTokens : ∀ entry ∈ tokens, SoundToken entry.2)
    (hRead : read room size stage tokens = .ok (.object members)) :
    (tokens = [] ∧ stage = .after [] (.object members)) ∨
      ∃ front pos, tokens = front ++ [(pos, .closeObject)] := by
  induction tokens generalizing stage with
  | nil =>
      refine Or.inl ⟨rfl, ?_⟩
      cases stage with
      | after stack v =>
          cases stack with
          | nil =>
              rw [read, Stage.finish] at hRead
              rw [Except.ok.inj hRead]
          | cons frame stack => cases hRead
      | _ => cases hRead
  | cons entry tokens ih =>
      rcases entry with ⟨pos, token⟩
      rw [read] at hRead
      cases hNext : stage.next room pos token with
      | error fault =>
          rw [hNext] at hRead
          cases hRead
      | ok later =>
          rw [hNext] at hRead
          rcases ih (fun e he => hTokens e (by simp [he])) hRead
            with ⟨rfl, rfl⟩ | ⟨front, last, rfl⟩
          · have hSound : SoundToken token :=
              hTokens (pos, token) (by simp)
            rcases eq_closeObject_of_next hSound hNext with rfl
            exact Or.inr ⟨[], pos, rfl⟩
          · exact Or.inr ⟨(pos, token) :: front, last, rfl⟩

/- A closing brace is a token of a single character. -/
theorem of_tokenAt_closeObject
    {pos : Nat}
    (hToken : (tokenAt pos (c :: cs)).1 = .closeObject) :
    c = '}' ∧ (tokenAt pos (c :: cs)).2 = 1 := by
  cases hMark : punctuation? c with
  | some token =>
      have hAt : tokenAt pos (c :: cs) = (token, 1) := by
        unfold tokenAt
        dsimp only
        rw [hMark]
      rw [hAt] at hToken ⊢
      refine ⟨?_, rfl⟩
      dsimp only at hToken
      rw [hToken] at hMark
      unfold punctuation? at hMark
      split at hMark
      all_goals first | rfl | cases hMark
  | none =>
      unfold tokenAt at hToken
      dsimp only at hToken
      rw [hMark] at hToken
      dsimp only at hToken
      split at hToken
      · split at hToken <;> cases hToken
      · split at hToken
        · cases hToken
        · split at hToken
          · next n _ _ =>
              rcases n.token_cases with
                ⟨x, hx⟩ | ⟨k, hk, _⟩ | ⟨fault, hFault⟩
              · rw [hx] at hToken
                cases hToken
              · rw [hk] at hToken
                cases hToken
              · rw [hFault] at hToken
                cases hToken
          · cases hToken

/- Text in which there is no token is blank. -/
theorem isSpace_of_scanFrom
    {pos : Nat}
    (hScan : scanFrom pos 0 cs = []) :
    ∀ b ∈ cs, isSpace b = true := by
  induction cs generalizing pos with
  | nil => simp
  | cons c cs ih =>
      rw [scanFrom_zero] at hScan
      split at hScan
      · next hBlank =>
          intro b hb
          rcases List.mem_cons.mp hb with rfl | hIn
          · exact hBlank
          · exact ih hScan b hIn
      · simp at hScan

theorem closes_of_scanFrom
    {pos skip last : Nat}
    {front : List (Nat × Token)}
    (hScan :
      scanFrom pos skip cs = front ++ [(last, .closeObject)]) :
    Closes cs := by
  induction cs generalizing pos skip front with
  | nil => simp [scanFrom] at hScan
  | cons c cs ih =>
      cases skip with
      | succ skip =>
          rw [scanFrom_succ] at hScan
          exact closes_cons_iff.mpr (Or.inr (ih hScan))
      | zero =>
          rw [scanFrom_zero] at hScan
          split at hScan
          · exact closes_cons_iff.mpr (Or.inr (ih hScan))
          · cases front with
            | nil =>
                rcases List.cons.inj hScan with ⟨hHead, hRest⟩
                rcases of_tokenAt_closeObject (Prod.mk.inj hHead).2
                  with ⟨hBrace, hLength⟩
                change scanFrom _ ((tokenAt pos (c :: cs)).2 - 1) _ = _
                  at hRest
                rw [hLength] at hRest
                exact closes_cons_iff.mpr
                  (Or.inl ⟨hBrace, isSpace_of_scanFrom hRest⟩)
            | cons first front =>
                exact closes_cons_iff.mpr
                  (Or.inr (ih (List.cons.inj hScan).2))

/- The text of an object ends with a closing brace. -/
theorem closes_of_parse
    (hParse : parse room cs = .ok (.object members)) :
    Closes cs := by
  unfold parse at hParse
  split at hParse
  · cases hParse
  · rcases last_of_read
        (fun _ => soundToken_of_mem_scanFrom) hParse with
      ⟨_, hStage⟩ | ⟨front, last, hScan⟩
    · cases hStage
    · exact closes_of_scanFrom hScan

end Json

end BiomeMigration
