import BiomeMigration.Text.Utf8

/-
  This file defines text that may hold surrogates without
  a partner. A character escape can write any UTF-16 code
  unit, so a decoded string is a sequence of code points:
  Unicode scalar values, and surrogates that found no
  partner. Such a surrogate has no UTF-8 form.

  Key definitions include:
    * `CodePoint`
    * `Text`
    * `Text.ofString`
    * `Text.join`
    * `Text.shown`
    * `Text.escaped`
    * `Text.Fault`
    * `Text.encode`
    * `Text.encodeForSystem`
-/

namespace BiomeMigration

------------------------------------------------------------
-- Characters
------------------------------------------------------------

/-
  What holds of all characters of a list, or of the one of
  an option, is decided by these alone, and not by a search
  through all characters.
-/
instance (priority := high) decidableForallChars
    (p : Char → Prop)
    [DecidablePred p]
    (cs : List Char) : Decidable (∀ c ∈ cs, p c) :=
  List.decidableBAll p cs

instance (priority := high) decidableForallChar
    (p : Char → Prop)
    [DecidablePred p]
    (c? : Option Char) : Decidable (∀ c ∈ c?, p c) :=
  Option.decidableForallMem c?

------------------------------------------------------------
-- Code Points
------------------------------------------------------------

/-
  A code point: a Unicode scalar value, or a surrogate,
  counted from U+D800.
-/
inductive CodePoint where
  | scalar (c : Char)
  | surrogate (index : Fin 0x800)
  deriving DecidableEq, Repr

namespace CodePoint

/- The number of a code point. -/
def toNat : CodePoint → Nat
  | .scalar c => c.toNat
  | .surrogate i => 0xD800 + i.val

/- The code point of a number below 0x110000. -/
def ofNat (n : Nat) : CodePoint :=
  if h : 0xD800 ≤ n ∧ n < 0xE000 then
    .surrogate ⟨n - 0xD800, by omega⟩
  else
    .scalar (Char.ofNat n)

/- The character of a code point that is one. -/
def char? : CodePoint → Option Char
  | .scalar c => some c
  | .surrogate _ => none

/- A surrogate is shown as the replacement character. -/
def shown : CodePoint → Char
  | .scalar c => c
  | .surrogate _ => Char.ofNat 0xFFFD

end CodePoint

------------------------------------------------------------
-- Text
------------------------------------------------------------

/- A decoded string. -/
abbrev Text := List CodePoint

namespace Text

/- The text of a sequence of characters. -/
def ofChars (cs : List Char) : Text :=
  cs.map CodePoint.scalar

/- The text of a string. -/
def ofString (s : String) : Text :=
  ofChars s.toList

/- A string is a text without surrogates. -/
instance : Coe String Text := ⟨ofString⟩

/- Texts with a separator between them. -/
def join
    (separator : String)
    (texts : List Text) : Text :=
  (ofString separator).intercalate texts

/- The characters of a text without surrogates. -/
def chars? (t : Text) : Option (List Char) :=
  t.mapM CodePoint.char?

/-
  The characters of a text. Two surrogates side by side that
  are partners stand for one character, any other surrogate
  is replaced.
-/
def shownChars : Text → List Char
  | [] => []
  | .surrogate i :: .surrogate j :: rest =>
      if i.val < 0x400 ∧ 0x400 ≤ j.val then
        Char.ofNat (0x10000 + 0x400 * i.val + (j.val - 0x400))
          :: shownChars rest
      else
        (CodePoint.surrogate i).shown
          :: shownChars (.surrogate j :: rest)
  | p :: rest => p.shown :: shownChars rest

/- The text as a string. -/
def shown (t : Text) : String :=
  String.ofList (shownChars t)

@[simp] theorem chars?_ofChars
    (cs : List Char) :
    chars? (ofChars cs) = some cs := by
  induction cs with
  | nil => rfl
  | cons c cs ih =>
      simp only [chars?, ofChars] at ih
      simp [chars?, ofChars, CodePoint.char?, ih]

@[simp] theorem shownChars_ofChars
    (cs : List Char) :
    shownChars (ofChars cs) = cs := by
  induction cs with
  | nil => rfl
  | cons c cs ih =>
      simp only [ofChars] at ih
      simp [shownChars, ofChars, CodePoint.shown, ih]

@[simp] theorem shown_ofString
    (s : String) :
    shown (ofString s) = s := by
  simp [shown, ofString]

@[simp] theorem ofString_ofList
    (cs : List Char) :
    ofString (String.ofList cs) = ofChars cs := by
  simp [ofString]

theorem ofChars_injective
    {a b : List Char}
    (h : ofChars a = ofChars b) :
    a = b := by
  have h' := congrArg chars? h
  simpa using h'

theorem ofString_injective
    {a b : String}
    (h : ofString a = ofString b) :
    a = b := by
  have h' := congrArg shown h
  simpa using h'

------------------------------------------------------------
-- Encoding
------------------------------------------------------------

/-
  A run of surrogates that cannot be encoded: the first
  one, the offset of the run in code points, and its
  length.
-/
structure Fault where
  first : Fin 0x800
  start : Nat
  length : Nat
  deriving DecidableEq, Repr

/- Four hexadecimal digits. -/
def hex4 (n : Nat) : String :=
  String.ofList
    [Nat.digitChar (n / 4096 % 16),
      Nat.digitChar (n / 256 % 16),
      Nat.digitChar (n / 16 % 16),
      Nat.digitChar (n % 16)]

/-
  The text as a string in which an escape stands for each
  surrogate.
-/
def escaped (t : Text) : String :=
  String.ofList <| t.flatMap fun
    | .scalar c => [c]
    | .surrogate i => '\\' :: 'u' :: (hex4 (0xD800 + i.val)).toList

/-
  A run of one surrogate shows it, a longer run the offsets
  of its first and last one.
-/
def Fault.message (f : Fault) : String :=
  if f.length == 1 then
    "'utf-8' codec can't encode character '\\u"
      ++ hex4 (0xD800 + f.first.val)
      ++ s!"' in position {f.start}: surrogates not allowed"
  else
    "'utf-8' codec can't encode characters in position "
      ++ s!"{f.start}-{f.start + f.length - 1}: "
      ++ "surrogates not allowed"

/- The number of surrogates that a text starts with. -/
def surrogateRun : Text → Nat
  | .surrogate _ :: rest => surrogateRun rest + 1
  | _ => 0

/-
  Encode from offset `pos`; `byte?` gives the byte that a
  surrogate stands for, if it stands for one.
-/
def encodeFrom
    (byte? : Fin 0x800 → Option UInt8)
    (pos : Nat) :
    Text → Except Fault Bytes
  | [] => .ok []
  | .scalar c :: rest =>
      (encodeFrom byte? (pos + 1) rest).map
        (String.utf8EncodeChar c ++ ·)
  | .surrogate i :: rest =>
      match byte? i with
      | some b => (encodeFrom byte? (pos + 1) rest).map (b :: ·)
      | none => .error ⟨i, pos, surrogateRun rest + 1⟩

/- The UTF-8 bytes of a text, or its first surrogates. -/
def encode (t : Text) : Except Fault Bytes :=
  encodeFrom (fun _ => none) 0 t

/-
  The byte of a surrogate that the system has given for a
  byte that is not UTF-8.
-/
def systemByte? (i : Fin 0x800) : Option UInt8 :=
  if 0x480 ≤ i.val && i.val < 0x500 then
    some (UInt8.ofNat (i.val - 0x400))
  else none

/- The bytes of a text that is given to the system. -/
def encodeForSystem (t : Text) : Except Fault Bytes :=
  encodeFrom systemByte? 0 t

end Text

end BiomeMigration
