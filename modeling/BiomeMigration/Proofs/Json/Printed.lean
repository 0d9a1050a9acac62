import BiomeMigration.Json.Printer
import BiomeMigration.Proofs.Json.Float
import BiomeMigration.Proofs.Json.Value

/-
  The code points of printed text: they are marks, which are
  line breaks and printable ASCII characters, or they come
  from the texts in the value and need no escape. What holds
  of both holds of printed text.

  Main declarations:
    * `Json.IsMark`
    * `Json.ownTexts`
    * `Json.forall_mem_printAt`
    * `Json.isAscii_print`
    * `Json.encode_object_closes`
-/

------------------------------------------------------------
-- Texts of a Value
------------------------------------------------------------

namespace BiomeMigration

namespace Json

/- The texts that a value holds itself, and not by a part. -/
def ownTexts : Json → List Text
  | .string t => [t]
  | .object members => Members.keys members
  | _ => []

theorem isPlain_iff_ownTexts
    {v : Json} :
    v.IsPlain ↔ ∀ t ∈ v.ownTexts, t.IsPlain := by
  cases v <;> simp [IsPlain, ownTexts, Members.keys]

------------------------------------------------------------
-- Marks
------------------------------------------------------------

/-
  The characters that JSON text has besides those of the
  texts in it: a line break, or printable ASCII.
-/
def IsMark (c : Char) : Prop :=
  c = '\n' ∨ (0x20 ≤ c.toNat ∧ c.toNat < 0x7F)

instance (c : Char) : Decidable (IsMark c) :=
  inferInstanceAs (Decidable (_ ∨ _))

theorem isMark_of_isDigit
    {c : Char}
    (hDigit : isDigit c = true) :
    IsMark c := by
  unfold isDigit at hDigit
  simp only [Bool.and_eq_true, decide_eq_true_eq, Char.le_def,
    UInt32.le_iff_toNat_le] at hDigit
  have hLow : 48 ≤ c.toNat := hDigit.1
  have hHigh : c.toNat ≤ 57 := hDigit.2
  exact Or.inr ⟨by omega, by omega⟩

theorem isMark_of_isNumeric
    {c : Char}
    (hNumeric : isNumeric c = true) :
    IsMark c := by
  unfold isNumeric at hNumeric
  simp only [Bool.or_eq_true, beq_iff_eq] at hNumeric
  rcases hNumeric with
    (((hDigit | rfl) | rfl) | rfl) | rfl
  · exact isMark_of_isDigit hDigit
  · decide
  · decide
  · decide
  · decide

theorem isMark_of_mem_int
    {n : Int}
    {c : Char}
    (hMember : c ∈ (toString n).toList) :
    IsMark c := by
  rw [toList_toString_int] at hMember
  split at hMember
  · rcases List.mem_cons.mp hMember with rfl | hDigit
    · decide
    · exact isMark_of_isDigit (isDigit_of_mem_toDigits hDigit)
  · exact isMark_of_isDigit (isDigit_of_mem_toDigits hMember)

theorem isMark_of_mem_write
    {x : Binary64}
    {c : Char}
    (hMember : c ∈ (numberFormat.write x).toList) :
    IsMark c := by
  cases x with
  | nan => exact (by decide : ∀ c ∈ _, IsMark c) c hMember
  | infinite negative =>
      cases negative with
      | false => exact (by decide : ∀ c ∈ _, IsMark c) c hMember
      | true => exact (by decide : ∀ c ∈ _, IsMark c) c hMember
  | finite negative mantissa exponent =>
      exact isMark_of_isNumeric (isNumeric_of_mem_write hMember)

theorem isMark_of_mem_hex4
    {n : Nat}
    {c : Char}
    (hMember : c ∈ (Text.hex4 n).toList) :
    IsMark c := by
  have hDigit : ∀ m < 16, IsMark (Nat.digitChar m) := by
    decide
  have hMod : ∀ m, IsMark (Nat.digitChar (m % 16)) :=
    fun m => hDigit (m % 16) (Nat.mod_lt m (by decide))
  unfold Text.hex4 at hMember
  rw [String.toList_ofList] at hMember
  simp only [List.mem_cons, List.not_mem_nil, or_false] at hMember
  rcases hMember with rfl | rfl | rfl | rfl
  · exact hMod _
  · exact hMod _
  · exact hMod _
  · exact hMod _

theorem isMark_of_mem_pointEscape
    {p : CodePoint}
    {c : Char}
    (hMember : c ∈ pointEscape p) :
    IsMark c := by
  have hUnit : ∀ n, ∀ d ∈ unitEscape n, IsMark d := by
    intro n d hd
    unfold unitEscape at hd
    rcases List.mem_cons.mp hd with rfl | hd
    · decide
    · rcases List.mem_cons.mp hd with rfl | hd
      · decide
      · exact isMark_of_mem_hex4 hd
  unfold pointEscape at hMember
  simp only at hMember
  split at hMember
  · exact hUnit _ c hMember
  · rcases List.mem_append.mp hMember with hHigh | hLow
    · exact hUnit _ c hHigh
    · exact hUnit _ c hLow

theorem isMark_of_shortEscapeOf?
    {c letter : Char}
    (hEscape : shortEscapeOf? c = some letter) :
    IsMark letter := by
  unfold shortEscapeOf? at hEscape
  split at hEscape
  case h_8 => simp at hEscape
  all_goals
    rcases Option.some.inj hEscape with rfl
    decide

------------------------------------------------------------
-- Printed Text
------------------------------------------------------------

section Printed

variable {P : CodePoint → Prop} {charset : Charset}
variable (hMarks : ∀ c, IsMark c → P (.scalar c))

include hMarks

theorem forall_mem_ofChars
    {cs : List Char}
    (hChars : ∀ c ∈ cs, IsMark c) :
    ∀ p ∈ Text.ofChars cs, P p := by
  intro p hp
  rcases List.mem_map.mp hp with ⟨c, hc, rfl⟩
  exact hMarks c (hChars c hc)

/- Inside quotes is what needs no escape, and escapes. -/
theorem forall_mem_quotePoint
    {p : CodePoint}
    (hPoint : charset.allows p = true → P p) :
    ∀ q ∈ quotePoint charset p, P q := by
  unfold quotePoint
  split
  · next letter hEscape =>
      rcases Option.bind_eq_some_iff.mp hEscape with
        ⟨c, _, hLetter⟩
      apply forall_mem_ofChars hMarks
      intro d hd
      rcases List.mem_cons.mp hd with rfl | hd
      · decide
      · rw [List.mem_singleton.mp hd]
        exact isMark_of_shortEscapeOf? hLetter
  · split
    · next hAllowed =>
        simpa using hPoint hAllowed
    · exact forall_mem_ofChars hMarks
        fun c hc => isMark_of_mem_pointEscape hc

theorem forall_mem_quote
    {t : Text}
    (hText : ∀ p ∈ t, charset.allows p = true → P p) :
    ∀ p ∈ quote charset t, P p := by
  have hQuote : P (.scalar '"') := hMarks '"' (by decide)
  unfold quote
  simp only [List.cons_append, List.forall_mem_cons,
    List.forall_mem_append, List.not_mem_nil, false_implies,
    implies_true, and_true]
  refine ⟨hQuote, ?_, hQuote⟩
  intro p hp
  rcases List.mem_flatMap.mp hp with ⟨q, hq, hp⟩
  exact forall_mem_quotePoint hMarks (hText q hq) p hp

theorem forall_mem_newline (level : Nat) :
    ∀ p ∈ newline level, P p := by
  unfold newline
  simp only [List.forall_mem_cons]
  refine ⟨hMarks '\n' (by decide), fun p hp => ?_⟩
  rw [(List.mem_replicate.mp hp).2]
  exact hMarks ' ' (by decide)

theorem forall_mem_printItems
    {level : Nat}
    {items : List Json}
    (hItems : ∀ v ∈ items, ∀ p ∈ printAt charset level v, P p) :
    ∀ p ∈ printItems charset level items, P p := by
  induction items with
  | nil => simp [printItems]
  | cons v items ih =>
      rw [printItems]
      simp only [List.forall_mem_append, List.forall_mem_cons]
      exact ⟨⟨⟨hMarks ',' (by decide),
        forall_mem_newline hMarks level⟩, hItems v (by simp)⟩,
        ih fun w hw => hItems w (by simp [hw])⟩

theorem forall_mem_printMembers
    {level : Nat}
    {members : Members}
    (hMembers :
      ∀ m ∈ members,
        (∀ p ∈ m.1, charset.allows p = true → P p) ∧
          ∀ p ∈ printAt charset level m.2, P p) :
    ∀ p ∈ printMembers charset level members, P p := by
  induction members with
  | nil => simp [printMembers]
  | cons m members ih =>
      rcases m with ⟨key, v⟩
      rcases hMembers (key, v) (by simp) with ⟨hKey, hValue⟩
      rw [printMembers]
      simp only [List.forall_mem_append, List.forall_mem_cons]
      exact ⟨⟨⟨⟨⟨hMarks ',' (by decide),
        forall_mem_newline hMarks level⟩,
        forall_mem_quote hMarks hKey⟩,
        forall_mem_ofChars hMarks (by decide)⟩, hValue⟩,
        ih fun n hn => hMembers n (by simp [hn])⟩

/-
  What holds of marks, and of the code points in a value that
  need no escape, holds of all that is printed for it.
-/
theorem forall_mem_printAt
    {v : Json}
    (hTexts :
      v.All fun part =>
        ∀ t ∈ part.ownTexts, ∀ p ∈ t,
          charset.allows p = true → P p)
    (level : Nat) :
    ∀ p ∈ printAt charset level v, P p := by
  induction v using partsInduction generalizing level with
  | null => exact forall_mem_ofChars hMarks (by decide)
  | bool b =>
      cases b with
      | false => exact forall_mem_ofChars hMarks (by decide)
      | true => exact forall_mem_ofChars hMarks (by decide)
  | int n =>
      exact forall_mem_ofChars hMarks
        fun c hc => isMark_of_mem_int hc
  | number x =>
      exact forall_mem_ofChars hMarks
        fun c hc => isMark_of_mem_write hc
  | string t =>
      exact forall_mem_quote hMarks (hTexts t (by simp [ownTexts]))
  | array items ih =>
      rcases all_array_iff.mp hTexts with ⟨_, hItems⟩
      have hPrinted :
          ∀ v ∈ items,
            ∀ p ∈ printAt charset (level + 1) v, P p :=
        fun v hv => ih v hv (hItems v hv) (level + 1)
      cases items with
      | nil => exact forall_mem_ofChars hMarks (by decide)
      | cons v items =>
          rw [printAt]
          simp only [List.forall_mem_append,
            List.forall_mem_cons]
          exact ⟨⟨⟨⟨⟨hMarks '[' (by decide),
            forall_mem_newline hMarks _⟩,
            hPrinted v (by simp)⟩,
            forall_mem_printItems hMarks fun w hw =>
              hPrinted w (by simp [hw])⟩,
            forall_mem_newline hMarks level⟩,
            hMarks ']' (by decide), by simp⟩
  | object members ih =>
      rcases all_object_iff.mp hTexts with ⟨hKeys, hValues⟩
      have hPrinted :
          ∀ m ∈ members,
            (∀ p ∈ m.1, charset.allows p = true → P p) ∧
              ∀ p ∈ printAt charset (level + 1) m.2, P p :=
        fun m hm =>
          ⟨hKeys m.1 (List.mem_map_of_mem hm),
            ih m hm (hValues m hm) (level + 1)⟩
      cases members with
      | nil => exact forall_mem_ofChars hMarks (by decide)
      | cons m members =>
          rcases m with ⟨key, v⟩
          rcases hPrinted (key, v) (by simp) with
            ⟨hKey, hValue⟩
          rw [printAt]
          simp only [List.forall_mem_append,
            List.forall_mem_cons]
          exact ⟨⟨⟨⟨⟨⟨⟨hMarks '{' (by decide),
            forall_mem_newline hMarks _⟩,
            forall_mem_quote hMarks hKey⟩,
            forall_mem_ofChars hMarks (by decide)⟩, hValue⟩,
            forall_mem_printMembers hMarks fun n hn =>
              hPrinted n (by simp [hn])⟩,
            forall_mem_newline hMarks level⟩,
            hMarks '}' (by decide), by simp⟩

end Printed

------------------------------------------------------------
-- ASCII
------------------------------------------------------------

/- With all other characters escaped, text is ASCII. -/
theorem isAscii_print (v : Json) :
    (print .ascii v).IsAscii := by
  have hMarks :
      ∀ c, IsMark c → (CodePoint.scalar c).toNat < 0x80 := by
    rintro c (rfl | ⟨_, hHigh⟩)
    · decide
    · exact Nat.lt_succ_of_lt hHigh
  refine forall_mem_printAt (P := fun p => p.toNat < 0x80) hMarks
    (all_of_forall ?_ v) 0
  intro part t _ p _ hAllowed
  unfold Charset.allows at hAllowed
  simp only [Bool.and_eq_true, decide_eq_true_eq] at hAllowed
  omega

------------------------------------------------------------
-- Ends
------------------------------------------------------------

/- The text of an object ends with its brace. -/
theorem print_object_closes
    (charset : Charset)
    (members : Members) :
    ∃ front,
      print charset (.object members) =
        front ++ [.scalar '\x7d'] := by
  unfold print
  cases members with
  | nil => exact ⟨[.scalar '\x7b'], rfl⟩
  | cons member rest =>
      rcases member with ⟨key, v⟩
      rw [printAt]
      exact ⟨_, rfl⟩

/- One line break behind it is the only one at the end. -/
theorem encode_object_closes
    {charset : Charset}
    {members : Members}
    {bytes : Bytes}
    (hBytes :
      (print charset (.object members)
        ++ Text.ofString "\n").encode = .ok bytes) :
    ∃ front, bytes = front ++ [0x7D, 0x0A] := by
  rcases print_object_closes charset members with
    ⟨front, hFront⟩
  rcases Text.encode_eq_ok_iff.mp hBytes with ⟨_, rfl⟩
  refine ⟨Utf8.encode (Text.plain front), ?_⟩
  rw [hFront, Text.plain_append, Text.plain_append]
  unfold Utf8.encode
  rw [List.flatMap_append, List.flatMap_append,
    List.append_assoc]
  rfl

end Json

end BiomeMigration
