/-
  This file defines UTF-8: the encoding of a text, and a
  strict decoder that says where and why a byte sequence
  is not UTF-8.

  Key definitions include:
    * `Utf8.encode`
    * `Utf8.Fault`
    * `Utf8.Fault.message`
    * `Utf8.decode`
-/

namespace BiomeMigration

/- The content of a file. -/
abbrev Bytes := List UInt8

namespace Utf8

------------------------------------------------------------
-- Encoding
------------------------------------------------------------

/- The bytes of a text. -/
def encode (cs : List Char) : Bytes :=
  cs.flatMap String.utf8EncodeChar

------------------------------------------------------------
-- Faults
------------------------------------------------------------

/- Why a byte sequence is not UTF-8. -/
inductive Reason where
  | invalidStart
  | invalidContinuation
  | unexpectedEnd
  deriving DecidableEq, Repr

/-
  A fault covers the longest run of bytes that starts a
  character and cannot go on: `first` is its first byte,
  `start` its offset and `length` its number of bytes.
-/
structure Fault where
  reason : Reason
  first : UInt8
  start : Nat
  length : Nat
  deriving DecidableEq, Repr

/- The wording of a reason. -/
def Reason.message : Reason → String
  | .invalidStart => "invalid start byte"
  | .invalidContinuation => "invalid continuation byte"
  | .unexpectedEnd => "unexpected end of data"

/- A byte as two hexadecimal digits. -/
def hexByte (b : UInt8) : String :=
  String.ofList
    [Nat.digitChar (b.toNat / 16), Nat.digitChar (b.toNat % 16)]

/-
  A fault of one byte shows the byte, a longer one the
  offsets of its first and last byte.
-/
def Fault.message (f : Fault) : String :=
  if f.length == 1 then
    s!"'utf-8' codec can't decode byte 0x{hexByte f.first}"
      ++ s!" in position {f.start}: {f.reason.message}"
  else
    s!"'utf-8' codec can't decode bytes in position "
      ++ s!"{f.start}-{f.start + f.length - 1}: "
      ++ f.reason.message

------------------------------------------------------------
-- Decoding
------------------------------------------------------------

/- A range of bytes that may come next in a character. -/
abbrev Range := UInt8 × UInt8

/- A byte lies in a range. -/
def Range.holds
    (r : Range)
    (b : UInt8) : Bool :=
  r.1 ≤ b && b ≤ r.2

/- Any continuation byte. -/
def tail : Range := (0x80, 0xBF)

/-
  The value bits of a first byte and the ranges of the
  bytes that complete the character. Overlong forms,
  surrogates and values above U+10FFFF are ruled out by
  the range of the second byte.
-/
def lead (b : UInt8) : Option (Nat × List Range) :=
  let n := b.toNat
  if n < 0x80 then some (n, [])
  else if n < 0xC2 then none
  else if n < 0xE0 then some (n - 0xC0, [tail])
  else if n == 0xE0 then some (0, [(0xA0, 0xBF), tail])
  else if n == 0xED then some (0xD, [(0x80, 0x9F), tail])
  else if n < 0xF0 then some (n - 0xE0, [tail, tail])
  else if n == 0xF0 then some (0, [(0x90, 0xBF), tail, tail])
  else if n < 0xF4 then some (n - 0xF0, [tail, tail, tail])
  else if n == 0xF4 then some (4, [(0x80, 0x8F), tail, tail])
  else none

/-
  A character in progress: its first byte, the number of
  bytes read, the value so far, and the ranges of the
  bytes still owed.
-/
structure Partial where
  first : UInt8
  taken : Nat
  value : Nat
  owed : List Range

/- The next byte of a character in progress. -/
def Partial.push
    (p : Partial)
    (b : UInt8)
    (owed : List Range) : Partial where
  first := p.first
  taken := p.taken + 1
  value := p.value * 64 + (b.toNat - 0x80)
  owed := owed

/-
  Decode from offset `pos`, with a character in progress or
  none.
-/
def decodeFrom
    (pos : Nat) :
    Option Partial → Bytes → Except Fault (List Char)
  | none, [] => .ok []
  | some p, [] =>
      .error
        ⟨.unexpectedEnd, p.first, pos - p.taken, p.taken⟩
  | none, b :: rest =>
      match lead b with
      | none => .error ⟨.invalidStart, b, pos, 1⟩
      | some (value, []) =>
          (decodeFrom (pos + 1) none rest).map
            (Char.ofNat value :: ·)
      | some (value, owed) =>
          decodeFrom (pos + 1) (some ⟨b, 1, value, owed⟩) rest
  | some p, b :: rest =>
      match p.owed with
      | [] => .error ⟨.invalidStart, b, pos, 1⟩
      | range :: owed =>
          if range.holds b then
            match owed with
            | [] =>
                (decodeFrom (pos + 1) none rest).map
                  (Char.ofNat (p.push b []).value :: ·)
            | _ :: _ =>
                decodeFrom (pos + 1) (some (p.push b owed)) rest
          else
            .error
              ⟨.invalidContinuation, p.first,
                pos - p.taken, p.taken⟩

/- The text of a byte sequence, or its first fault. -/
def decode (bytes : Bytes) : Except Fault (List Char) :=
  decodeFrom 0 none bytes

end Utf8

end BiomeMigration
