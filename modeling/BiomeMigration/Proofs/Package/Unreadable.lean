import BiomeMigration.Package.ManifestFile
import BiomeMigration.Proofs.Files.LookUp
import BiomeMigration.Proofs.Json.Closing
import BiomeMigration.Proofs.Text.Decoding

/-
  A file that holds a JSON object ends with a closing brace,
  which no message about an unreadable file does. So a file
  to which such a message has been added holds no object.

  Main declarations:
    * `Json.closes_of_ofBytes`
    * `Json.leavesOpen`
    * `Json.ofBytes_ne_of_leavesOpen`
    * `Unreadable.leavesOpen_message`
-/

------------------------------------------------------------
-- Bytes
------------------------------------------------------------

namespace BiomeMigration

namespace Json

variable {room : Nat} {c : Char} {cs : List Char}
variable {members : Members}

/- The last character of a closing text. -/
theorem Closes.last
    (hCloses : Closes cs) :
    ∃ front c,
      cs = front ++ [c] ∧ c.toNat < 0x80 ∧
        (c = '}' ∨ isSpace c = true ∧ Closes front) := by
  rcases hCloses with ⟨front, blanks, rfl, hBlanks⟩
  rcases List.eq_nil_or_concat blanks with rfl | ⟨inner, b, rfl⟩
  · exact ⟨front, '}', rfl, by decide, Or.inl rfl⟩
  · have hBlank : isSpace b = true := hBlanks b (by simp)
    refine ⟨front ++ '}' :: inner, b, by simp, ?_,
      Or.inr ⟨hBlank, front, inner, rfl,
        fun d hd => hBlanks d (by simp [hd])⟩⟩
    unfold isSpace at hBlank
    simp only [Bool.or_eq_true, beq_iff_eq] at hBlank
    rcases hBlank with ((rfl | rfl) | rfl) | rfl
    all_goals decide

theorem encodeChar_of_lt
    (hLow : c.toNat < 0x80) :
    String.utf8EncodeChar c = [UInt8.ofNat c.toNat] := by
  have hByte : (UInt8.ofNat c.toNat).toNat = c.toNat := by
    rw [UInt8.toNat_ofNat']
    omega
  have hEncode :=
    Utf8.encodeChar_one (b := UInt8.ofNat c.toNat) (by omega)
  rwa [hByte, Char.ofNat_toNat] at hEncode

/- The last byte of a closing text, if it is a character. -/
theorem Closes.of_encode
    (hCloses : Closes cs)
    {bytes : Bytes}
    (hLow : c.toNat < 0x80)
    (hEncode : Utf8.encode cs = bytes ++ Utf8.encode [c]) :
    c = '}' ∨
      isSpace c = true ∧
        ∃ front, Closes front ∧ Utf8.encode front = bytes := by
  rcases hCloses.last with ⟨front, d, rfl, hLast, hEnd⟩
  have hSingle :
      ∀ e : Char, e.toNat < 0x80 →
        Utf8.encode [e] = [UInt8.ofNat e.toNat] := by
    intro e hChar
    rw [Utf8.encode, List.flatMap_singleton,
      encodeChar_of_lt hChar]
  have hSplit : Utf8.encode (front ++ [d]) =
      Utf8.encode front ++ Utf8.encode [d] :=
    List.flatMap_append
  rw [hSplit, hSingle d hLast, hSingle c hLow] at hEncode
  rcases List.append_inj' hEncode rfl with ⟨hFront, hByte⟩
  have hSame : d = c := by
    have hValue :=
      congrArg UInt8.toNat (List.singleton_inj.mp hByte)
    rw [UInt8.toNat_ofNat', UInt8.toNat_ofNat'] at hValue
    apply Char.toNat_inj.mp
    omega
  rcases hEnd with rfl | ⟨hBlank, hFront'⟩
  · exact Or.inl hSame.symm
  · exact Or.inr ⟨hSame ▸ hBlank, front, hFront', hFront⟩

/- A file with an object in it ends with a closing brace. -/
theorem closes_of_ofBytes
    {bytes : Bytes}
    (hBytes : ofBytes room bytes = .ok (.object members)) :
    ∃ cs, Closes cs ∧ Utf8.encode cs = bytes := by
  rcases bind_eq_ok_iff.mp hBytes with ⟨cs, hDecode, hParse⟩
  exact ⟨cs,
    closes_of_unify
      (closes_of_parse (mapError_eq_ok_iff.mp hParse)),
    Utf8.encode_of_decode (mapError_eq_ok_iff.mp hDecode)⟩

------------------------------------------------------------
-- Texts Behind an Object
------------------------------------------------------------

/- A text ends, with one byte, as no object does. -/
def leavesOpen (cs : List Char) : Bool :=
  cs.getLast?.any fun c =>
    c.toNat < 0x80 && !isSpace c && c != '}'

theorem of_leavesOpen
    (hOpen : leavesOpen cs = true) :
    ∃ front c,
      cs = front ++ [c] ∧ c.toNat < 0x80 ∧ isSpace c = false ∧
        c ≠ '}' := by
  rcases List.eq_nil_or_concat cs with rfl | ⟨front, c, rfl⟩
  · cases hOpen
  · rw [List.concat_eq_append] at hOpen ⊢
    unfold leavesOpen at hOpen
    rw [List.getLast?_concat] at hOpen
    simp only [Option.any_some, Bool.and_eq_true,
      decide_eq_true_eq, Bool.not_eq_true', bne_iff_ne]
      at hOpen
    exact ⟨front, c, rfl, hOpen.1.1, hOpen.1.2, hOpen.2⟩

/- A file that ends with a line of such a text has no object. -/
theorem ofBytes_ne_of_leavesOpen
    (hOpen : leavesOpen cs = true)
    (old : Bytes) :
    ofBytes room (old ++ Utf8.encode (cs ++ ['\n'])) ≠
      .ok (.object members) := by
  intro hBytes
  rcases closes_of_ofBytes hBytes with ⟨text, hText, hEncode⟩
  rcases of_leavesOpen hOpen with
    ⟨front, c, rfl, hLow, hBlank, hBrace⟩
  have hLine :
      Utf8.encode text =
        (old ++ Utf8.encode (front ++ [c])) ++
          Utf8.encode ['\n'] := by
    rw [hEncode]
    simp [Utf8.encode]
  rcases hText.of_encode (by decide) hLine with
    hNot | ⟨_, rest, hRest, hEncode'⟩
  · simp at hNot
  · have hLast :
        Utf8.encode rest =
          (old ++ Utf8.encode front) ++ Utf8.encode [c] := by
      rw [hEncode']
      simp [Utf8.encode]
    rcases hRest.of_encode hLow hLast with hEnd | ⟨hEnd, _⟩
    · exact hBrace hEnd
    · rw [hBlank] at hEnd
      cases hEnd

------------------------------------------------------------
-- Messages
------------------------------------------------------------

/- The end of a text is that of its last part. -/
theorem leavesOpen_append
    (front : List Char)
    (hOpen : leavesOpen cs = true) :
    leavesOpen (front ++ cs) = true := by
  rcases of_leavesOpen hOpen with ⟨inner, c, rfl, _⟩
  unfold leavesOpen at hOpen ⊢
  rw [List.getLast?_concat] at hOpen
  rw [← List.append_assoc, List.getLast?_concat]
  exact hOpen

theorem leavesOpen_string
    (before : String)
    {after : String}
    (hOpen : leavesOpen after.toList = true) :
    leavesOpen (before ++ after).toList = true := by
  rw [String.toList_append]
  exact leavesOpen_append _ hOpen

end Json

theorem Quoted.leavesOpen_text (s : String) :
    Json.leavesOpen (text s).toList = true := by
  unfold text ofText
  rw [String.toList_ofList]
  apply Json.leavesOpen_append
  unfold mark
  dsimp only
  split
  · rfl
  · rfl

theorem PathFault.leavesOpen_message (fault : PathFault) :
    Json.leavesOpen fault.message.toList = true := by
  cases fault with
  | refused problem path =>
      exact Json.leavesOpen_string _ (Quoted.leavesOpen_text path)
  | nul => decide +kernel
  | linkLoop path =>
      exact Json.leavesOpen_string _ (Quoted.leavesOpen_text path)
  | homeless => decide +kernel
  | tooDeep => decide +kernel

theorem Utf8.Fault.leavesOpen_message (fault : Fault) :
    Json.leavesOpen fault.message.toList = true := by
  have hReason :
      Json.leavesOpen fault.reason.message.toList = true := by
    cases fault.reason
    all_goals decide +kernel
  unfold message
  split
  · exact Json.leavesOpen_string _
      (Json.leavesOpen_string _ hReason)
  · exact Json.leavesOpen_string _ hReason

theorem Json.Fault.leavesOpen_message
    (cs : List Char)
    (fault : Fault) :
    leavesOpen (fault.message cs).toList = true := by
  cases fault with
  | «at» cause offset =>
      apply leavesOpen_string
      apply leavesOpen_string
      decide +kernel
  | longInteger digits =>
      apply leavesOpen_string
      decide +kernel
  | tooDeep container =>
      apply leavesOpen_string
      apply leavesOpen_string
      decide +kernel

/- No message about an unreadable file ends as an object. -/
theorem Unreadable.leavesOpen_message (cause : Unreadable) :
    Json.leavesOpen cause.message.toList = true := by
  cases cause with
  | file fault => exact fault.leavesOpen_message
  | encoding fault => exact fault.leavesOpen_message
  | json text fault =>
      exact Json.Fault.leavesOpen_message text fault

end BiomeMigration
