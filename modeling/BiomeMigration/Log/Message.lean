import BiomeMigration.Decimal.Places
import BiomeMigration.Json.Basic
import BiomeMigration.Log.Template
import BiomeMigration.Text.Quoted

/-
  This file defines the filling of arguments into the
  placeholders of a message. An argument that is filled in
  here is any JSON value.

  Key definitions include:
    * `Message.plain`
    * `Message.quoted`
    * `Message.Supply`
    * `Message.fill`
    * `Message.Arguments`
-/

namespace BiomeMigration

namespace Message

open Template (Size Placeholder Piece)

------------------------------------------------------------
-- Values
------------------------------------------------------------

mutual

/- A value as it is shown inside of others. -/
def quoted : Json → List Char
  | .null => "None".toList
  | .bool true => "True".toList
  | .bool false => "False".toList
  | .int n => (toString n).toList
  | .number x => (NumberFormat.usual.write x).toList
  | .string t => Quoted.ofText t
  | .array [] => ['[', ']']
  | .array (v :: items) =>
      '[' :: quoted v ++ quotedItems items ++ [']']
  | .object [] => ['{', '}']
  | .object ((key, v) :: members) =>
      '{' :: Quoted.ofText key ++ ':' :: ' ' :: quoted v
        ++ quotedMembers members ++ ['}']

/- The items after the first. -/
def quotedItems : List Json → List Char
  | [] => []
  | v :: items => ',' :: ' ' :: quoted v ++ quotedItems items

/- The members after the first. -/
def quotedMembers : List (Text × Json) → List Char
  | [] => []
  | (key, v) :: members =>
      ',' :: ' ' :: Quoted.ofText key ++ ':' :: ' ' :: quoted v
        ++ quotedMembers members

end

/- A value as a text of its own. -/
def plain : Json → Text
  | .string t => t
  | v => .ofChars (quoted v)

/- A shown value in ASCII. -/
def ascii (cs : List Char) : List Char :=
  cs.flatMap fun c =>
    if c.toNat < 0x80 then [c] else Quoted.escape c.toNat

/- The truth values count as numbers. -/
def whole? : Json → Option Int
  | .int n => some n
  | .bool b => some (if b then 1 else 0)
  | _ => none

/- The whole part of a number. -/
def truncated? : Json → Option Int
  | .number (.finite negative mantissa exponent) =>
      let size := mantissa * 2 ^ exponent.toNat
        / 2 ^ (-exponent).toNat
      some (if negative then -size else size)
  | v => whole? v

/- A number as a floating-point one, unless it is too large. -/
def float? : Json → Option Binary64
  | .number x => some x
  | v =>
      (whole? v).bind fun n =>
        (Binary64.ofNat? n.natAbs).map fun x =>
          if n < 0 then x.neg else x

------------------------------------------------------------
-- Numbers
------------------------------------------------------------

/-
  A number to be written: its sign, the mark of its base,
  and its digits.
-/
structure Figure where
  negative : Bool
  mark : List Char
  digits : List Char
  deriving DecidableEq, Repr

/- The bases that letters stand for. -/
def bases : List (Char × Nat) :=
  [('d', 10), ('i', 10), ('u', 10), ('o', 8), ('x', 16), ('X', 16)]

/- The letters that write a floating-point number. -/
def floatLetters : List Char :=
  ['e', 'E', 'f', 'F', 'g', 'G']

/- Text in capitals if the letter is one. -/
def cased
    (letter : Char)
    (cs : List Char) : List Char :=
  if letter.isUpper then cs.map Char.toUpper else cs

/- A whole number in a base. -/
def wholeFigure
    (p : Placeholder)
    (precision? : Option Nat)
    (base : Nat)
    (n : Int) : Figure :=
  let digits := cased p.letter (Nat.toDigits base n.natAbs)
  { negative := decide (n < 0)
    mark := if p.other && base != 10 then ['0', p.letter] else []
    digits := NumberFormat.padded (precision?.getD 0) digits }

/- A floating-point number; six places are usual. -/
def floatFigure
    (p : Placeholder)
    (precision? : Option Nat)
    (x : Binary64) : Figure :=
  let places := precision?.getD 6
  let figure (negative : Bool) (digits : List Char) : Figure :=
    ⟨negative, [], cased p.letter digits⟩
  match x with
  | .nan => figure false "nan".toList
  | .infinite negative => figure negative "inf".toList
  | .finite negative mantissa exponent =>
      let write :=
        match p.letter.toLower with
        | 'e' => Places.scientific
        | 'f' => Places.fixed
        | _ => Places.general
      figure negative (write p.other places mantissa exponent)

/- A text filled with blanks on one side. -/
def pad
    (p : Placeholder)
    (width : Nat)
    (t : Text) : Text :=
  let blanks : Text :=
    List.replicate (width - t.length) (.scalar ' ')
  if p.left then t ++ blanks else blanks ++ t

/-
  A number in its width. Zeros are filled in behind the sign
  and the mark, unless the number stands at the left.
-/
def padFigure
    (p : Placeholder)
    (width : Nat)
    (f : Figure) : Text :=
  let sign :=
    if f.negative then ['-']
    else if p.plus then ['+']
    else if p.blank then [' ']
    else []
  let head := sign ++ f.mark
  if p.zeros && !p.left then
    .ofChars
      (head
        ++ NumberFormat.padded (width - head.length) f.digits)
  else pad p width (.ofChars (head ++ f.digits))

------------------------------------------------------------
-- Placeholders
------------------------------------------------------------

/- The greatest precision of a whole number. -/
def wholePrecisionLimit : Nat := 2 ^ 31 - 4

/- The code point of an argument. -/
def character? : Json → Option CodePoint
  | .string [c] => some c
  | v =>
      (whole? v).bind fun n =>
        if 0 ≤ n && n < 0x110000 then
          some (CodePoint.ofNat n.toNat)
        else none

/-
  An argument in a placeholder whose sizes are known. There
  is room for numbers of some precision.
-/
def write?
    (room : Nat)
    (p : Placeholder)
    (width : Nat)
    (precision? : Option Nat)
    (v : Json) : Option Text :=
  let text (t : Text) : Text :=
    match precision? with
    | some n => pad p width (t.take n)
    | none => pad p width t
  let places := precision?.getD 0
  match p.letter, bases.lookup p.letter with
  | 's', _ => some (text (plain v))
  | 'r', _ => some (text (.ofChars (quoted v)))
  | 'a', _ => some (text (.ofChars (ascii (quoted v))))
  | 'c', _ => (character? v).map fun c => pad p width [c]
  | _, some base =>
      if min room wholePrecisionLimit < places then none
      else
        let n? := if base == 10 then truncated? v else whole? v
        n?.map fun n =>
          padFigure p width (wholeFigure p precision? base n)
  | letter, none =>
      if floatLetters.contains letter && places ≤ room then
        (float? v).map fun x =>
          padFigure p width (floatFigure p precision? x)
      else none

------------------------------------------------------------
-- Arguments
------------------------------------------------------------

/-
  The arguments that are left, and the members that can be
  asked for by name. A member that is asked for stands in
  place of all arguments.
-/
structure Supply where
  members? : Option Members
  left : List Json

namespace Supply

/-
  The supply of a list of arguments. A single object that is
  not empty has its members asked for by name, or is taken
  as a whole.
-/
def ofList : List Json → Supply
  | [.object (m :: ms)] => ⟨some (m :: ms), [.object (m :: ms)]⟩
  | args => ⟨none, args⟩

/- Take the next argument. -/
def take (s : Supply) : Option (Json × Supply) :=
  match s.left with
  | [] => none
  | v :: rest => some (v, { s with left := rest })

/- Ask for a member. -/
def ask
    (s : Supply)
    (name? : Option Text) : Option Supply :=
  match name? with
  | none => some s
  | some name => do
      let ms ← s.members?
      let v ← Members.get? ms name
      return { s with left := [v] }

/- A size that may be an argument. -/
def size
    (s : Supply) :
    Option Size → Option (Option Int × Supply)
  | none => some (none, s)
  | some (.number n) => some (some n, s)
  | some .argument => do
      let (v, s) ← s.take
      return (some (← whole? v), s)

/- No argument may be left over. Members may. -/
def isDone (s : Supply) : Bool :=
  s.members?.isSome || s.left.isEmpty

end Supply

/- The widths that can be told. -/
def isWidth (n : Int) : Bool :=
  n.natAbs < 2 ^ 63

/- The precisions that can be told. -/
def isPrecision (n : Int) : Bool :=
  -2 ^ 31 ≤ n && n < 2 ^ 31

/-
  Fill one placeholder. A negative width asks for the left
  side, a negative precision for none of the text.
-/
def fillOne
    (room : Nat)
    (p : Placeholder)
    (s : Supply) : Option (Text × Supply) := do
  let s ← s.ask p.name?
  let (width?, s) ← s.size p.width?
  let (precision?, s) ← s.size p.precision?
  let width := width?.getD 0
  if !isWidth width || !precision?.all isPrecision then none
  else if room < width.natAbs then none
  else
    let (v, s) ← s.take
    let p := { p with left := p.left || decide (width < 0) }
    let text ←
      write? room p width.natAbs (precision?.map Int.toNat) v
    return (text, s)

/- Fill the pieces of a template in order. -/
def fillPieces
    (room : Nat)
    (s : Supply) :
    List Piece → Option Text
  | [] => if s.isDone then some [] else none
  | .literal c :: rest => (fillPieces room s rest).map (c :: ·)
  | .placeholder p :: rest => do
      let (text, s) ← fillOne room p s
      return text ++ (← fillPieces room s rest)

/-
  Fill arguments into a message, as long as there is room
  for the widths and precisions that it asks for. A message
  without arguments stands as it is.
-/
def fill
    (room : Nat)
    (message : Text)
    (args : List Json) : Option Text :=
  if args.isEmpty then some message
  else do
    fillPieces room (.ofList args) (← Template.pieces? message)

/-
  What is given with a message: JSON values and the room for
  them, or anything else, of which it is only known what
  comes of filling it in, unless it does not fit.
-/
inductive Arguments where
  | values (room : Nat) (args : List Json)
  | others (filled? : Option Text)

/- The message with its arguments, unless they do not fit. -/
def Arguments.fill?
    (message : Text) :
    Arguments → Option Text
  | .values room args => fill room message args
  | .others filled? => filled?

end Message

end BiomeMigration
