import BiomeMigration.Proofs.Json.Printed
import BiomeMigration.Proofs.Json.Reading
import BiomeMigration.Text.LineBreak

/-
  Printed text is read as the value that it was printed
  for. It has no carriage returns, and it has no surrogates
  if the value has none; plain text has some if it has any.

  Main declarations:
    * `Json.parse_print`
    * `Json.return_not_mem_printAt`
    * `Json.all_isPlain_of_printAt`
-/

------------------------------------------------------------
-- Reading Printed Text
------------------------------------------------------------

namespace BiomeMigration

namespace Json

/- No token starts with a byte order mark. -/
theorem tokenAt_byteOrderMark
    (pos : Nat)
    (tail : List Char) :
    tokenAt pos (Char.ofNat 0xFEFF :: tail) = (.stray, 1) := by
  have hWords :
      words.find?
        (·.1.isPrefixOf (Char.ofNat 0xFEFF :: tail)) = none := by
    rfl
  rw [tokenAt_of_find?_words rfl (by decide) hWords]
  cases hNumeral : numeral? (Char.ofNat 0xFEFF :: tail) with
  | none => rfl
  | some result =>
      exfalso
      rcases numeralHead_of_numeral? hNumeral with
        ⟨c, more, hText, hHead⟩
      rcases List.cons.inj hText with ⟨rfl, _⟩
      rcases hHead with hDigit | ⟨hMinus, _⟩
      · exact absurd hDigit (by decide)
      · exact absurd hMinus (by decide)

/- What is read as a value has no byte order mark in front. -/
theorem parse_of_read
    {room : Nat}
    {cs : List Char}
    {v : Json}
    (hRead : read room cs.length (.value []) (scan cs) = .ok v) :
    parse room cs = .ok v := by
  unfold parse
  split
  · next hMark =>
      exfalso
      rcases List.head?_eq_some_iff.mp (eq_of_beq hMark) with
        ⟨tail, rfl⟩
      have hSpace : isSpace (Char.ofNat 0xFEFF) = false := by
        decide
      rw [scan, scanFrom] at hRead
      simp only [hSpace, tokenAt_byteOrderMark,
        Bool.false_eq_true, if_false] at hRead
      simp [read, Stage.next, Stage.start] at hRead
  · exact hRead

/-
  The printed text of a value, with a line break behind it,
  is read as the value.
-/
theorem parse_print
    {room : Nat}
    {charset : Charset}
    {v : Json}
    (hSound : v.All IsSound)
    (hPlain : v.All IsPlain)
    (hFloats : v.All HasSurvived)
    (hNesting : v.nesting ≤ room) :
    parse room ((print charset v).plain ++ ['\n']) = .ok v := by
  apply parse_of_read
  have hEnds : EndsToken ['\n'] := by
    intro c hc
    right
    simpa using hc.symm
  have hValue : ReadsBack room charset v :=
    readsBack_of_all hSound hPlain hFloats
  have hReads :=
    hValue 0 (Or.inl rfl : Opens [] (.value [])) (by simpa)
      hEnds
  rw [scan]
  unfold print
  rw [hReads]
  rfl

------------------------------------------------------------
-- Characters of Printed Text
------------------------------------------------------------

/- Printed text has no carriage returns: they are escaped. -/
theorem return_not_mem_printAt
    {charset : Charset}
    (level : Nat)
    (v : Json) :
    '\r' ∉ (printAt charset level v).plain := by
  have hMarks :
      ∀ c, IsMark c → CodePoint.scalar c ≠ .scalar '\r' := by
    rintro c hMark ⟨⟩
    exact absurd hMark (by decide)
  have hPoints :
      ∀ p ∈ printAt charset level v, p ≠ .scalar '\r' := by
    refine forall_mem_printAt hMarks (all_of_forall ?_ v) level
    rintro part t _ p _ hAllowed rfl
    cases charset with
    | plain => exact absurd hAllowed (by decide)
    | ascii => exact absurd hAllowed (by decide)
  intro hMember
  rcases List.mem_filterMap.mp hMember with ⟨p, hp, hChar⟩
  cases p with
  | surrogate i => cases hChar
  | scalar c =>
      rcases Option.some.inj hChar with rfl
      exact hPoints _ hp rfl

------------------------------------------------------------
-- Surrogates in Printed Text
------------------------------------------------------------

/- A surrogate inside quotes is not escaped in plain text. -/
theorem isPlain_of_quote
    {t : Text}
    (hQuote : (quote .plain t).IsPlain) :
    t.IsPlain := by
  intro p hp
  cases p with
  | scalar c => exact ⟨c, rfl⟩
  | surrogate i =>
      have hAllowed :
          Charset.plain.allows (.surrogate i) = true := by
        unfold Charset.allows CodePoint.toNat
        simp only [decide_eq_true_eq]
        omega
      have hKept :
          quotePoint .plain (.surrogate i) = [.surrogate i] := by
        unfold quotePoint
        simp only [CodePoint.char?, Option.bind_none, hAllowed,
          if_true]
      apply hQuote
      unfold quote
      simp only [List.cons_append, List.mem_cons,
        List.mem_append, List.mem_flatMap]
      right
      left
      exact ⟨.surrogate i, hp, by simp [hKept]⟩

theorem isPlain_of_mem_printItems
    {level : Nat}
    {items : List Json}
    (hPrinted : (printItems .plain level items).IsPlain)
    {v : Json}
    (hMember : v ∈ items) :
    (printAt .plain level v).IsPlain := by
  induction items with
  | nil => simp at hMember
  | cons w items ih =>
      rw [printItems] at hPrinted
      rcases Text.isPlain_append_iff.mp hPrinted with
        ⟨hFirst, hOthers⟩
      rcases List.mem_cons.mp hMember with rfl | hMember
      · exact (Text.isPlain_append_iff.mp hFirst).2
      · exact ih hOthers hMember

theorem isPlain_of_mem_printMembers
    {level : Nat}
    {members : Members}
    (hPrinted : (printMembers .plain level members).IsPlain)
    {m : Text × Json}
    (hMember : m ∈ members) :
    m.1.IsPlain ∧ (printAt .plain level m.2).IsPlain := by
  induction members with
  | nil => simp at hMember
  | cons n members ih =>
      rcases n with ⟨key, w⟩
      rw [printMembers] at hPrinted
      simp only [Text.isPlain_append_iff] at hPrinted
      rcases hPrinted with ⟨⟨⟨⟨_, hKey⟩, _⟩, hValue⟩, hOthers⟩
      rcases List.mem_cons.mp hMember with rfl | hMember
      · exact ⟨isPlain_of_quote hKey, hValue⟩
      · exact ih hOthers hMember

/- A value has no surrogates if its printed text has none. -/
theorem all_isPlain_of_printAt
    {level : Nat}
    {v : Json}
    (hPrinted : (printAt .plain level v).IsPlain) :
    v.All IsPlain := by
  induction v using partsInduction generalizing level with
  | null => exact trivial
  | bool b => exact trivial
  | int n => exact trivial
  | number x => exact trivial
  | string t => exact isPlain_of_quote hPrinted
  | array items ih =>
      rw [all_array_iff]
      refine ⟨trivial, ?_⟩
      cases items with
      | nil => simp
      | cons v items =>
          rw [printAt] at hPrinted
          simp only [Text.isPlain_append_iff] at hPrinted
          rcases hPrinted with ⟨⟨⟨⟨_, hFirst⟩, hOthers⟩, _⟩, _⟩
          intro w hw
          have hPrintedItem :
              (printAt .plain (level + 1) w).IsPlain := by
            rcases List.mem_cons.mp hw with rfl | hOther
            · exact hFirst
            · exact isPlain_of_mem_printItems hOthers hOther
          exact ih w hw hPrintedItem
  | object members ih =>
      rw [all_object_iff]
      cases members with
      | nil => exact ⟨by simp [IsPlain], by simp⟩
      | cons m members =>
          rcases m with ⟨key, v⟩
          rw [printAt] at hPrinted
          simp only [Text.isPlain_append_iff] at hPrinted
          rcases hPrinted with
            ⟨⟨⟨⟨⟨⟨_, hKey⟩, _⟩, hFirst⟩, hOthers⟩, _⟩, _⟩
          have hMembers :
              ∀ m ∈ (key, v) :: members,
                m.1.IsPlain ∧
                  (printAt .plain (level + 1) m.2).IsPlain := by
            intro m hm
            rcases List.mem_cons.mp hm with rfl | hm
            · exact ⟨isPlain_of_quote hKey, hFirst⟩
            · exact isPlain_of_mem_printMembers hOthers hm
          exact ⟨fun m hm => (hMembers m hm).1,
            fun m hm => ih m hm (hMembers m hm).2⟩

/- Values without surrogates are printed without any. -/
theorem isPlain_printAt
    {v : Json}
    (hPlain : v.All IsPlain)
    (charset : Charset)
    (level : Nat) :
    (printAt charset level v).IsPlain := by
  refine forall_mem_printAt (fun c _ => ⟨c, rfl⟩) ?_ level
  refine All.imp ?_ hPlain
  intro part hPart t ht p hp _
  exact isPlain_iff_ownTexts.mp hPart t ht p hp

end Json

end BiomeMigration
