import BiomeMigration.Json.Basic
import BiomeMigration.Text.Digit
import BiomeMigration.Text.Run

/-
  This file defines the tokens of JSON text. Scanning never
  fails: a place where no token can be read becomes a token
  that says so, because whether it is a fault, and which
  one, depends on what is expected there.

  Key definitions include:
    * `Json.Cause`
    * `Json.Fault`
    * `Json.Token`
    * `Json.scan`
-/

namespace BiomeMigration

namespace Json

------------------------------------------------------------
-- Faults
------------------------------------------------------------

/- What is wrong at a place of a JSON text. -/
inductive Cause where
  | byteOrderMark
  | value
  | name
  | colon
  | comma
  | extraData
  | unterminated
  | control
  | escape
  | unicodeEscape
  deriving DecidableEq, Repr

/- A container that JSON values nest in. -/
inductive Container where
  | array
  | object
  deriving DecidableEq, Repr

/-
  Why a text is not read: a cause at an offset, a whole
  number of too many digits, or a container that opens
  inside too many others.
-/
inductive Fault where
  | at (cause : Cause) (offset : Nat)
  | longInteger (digits : Nat)
  | tooDeep (container : Container)
  deriving DecidableEq, Repr

------------------------------------------------------------
-- Tokens
------------------------------------------------------------

/-
  A token. `flawed` is a string or number that starts well
  and has a fault inside; `stray` is a character that no
  token starts with.
-/
inductive Token where
  | openArray
  | closeArray
  | openObject
  | closeObject
  | colon
  | comma
  | string (t : Text)
  | scalar (v : Json)
  | flawed (fault : Fault)
  | stray

/- The blanks between tokens. -/
def isSpace (c : Char) : Bool :=
  c == ' ' || c == '\t' || c == '\n' || c == '\r'

------------------------------------------------------------
-- Strings
------------------------------------------------------------

/- The value of a hexadecimal digit. -/
def hexDigit? (c : Char) : Option Nat :=
  if '0' ≤ c && c ≤ '9' then some (c.toNat - '0'.toNat)
  else if 'a' ≤ c && c ≤ 'f' then some (c.toNat - 'a'.toNat + 10)
  else if 'A' ≤ c && c ≤ 'F' then some (c.toNat - 'A'.toNat + 10)
  else none

/- The number written by the first four characters. -/
def hexQuad? : List Char → Option Nat
  | a :: b :: c :: d :: _ => do
      let a ← hexDigit? a
      let b ← hexDigit? b
      let c ← hexDigit? c
      let d ← hexDigit? d
      return ((a * 16 + b) * 16 + c) * 16 + d
  | _ => none

/- A code unit that starts a surrogate pair. -/
def isHigh (n : Nat) : Bool :=
  0xD800 ≤ n && n < 0xDC00

/- A code unit that ends a surrogate pair. -/
def isLow (n : Nat) : Bool :=
  0xDC00 ≤ n && n < 0xE000

/- The character of a surrogate pair. -/
def joinPair (high low : Nat) : CodePoint :=
  .ofNat (0x10000 + (high - 0xD800) * 0x400 + (low - 0xDC00))

/-
  The escape of a code unit, from the characters after the
  `u` at offset `pos`: the code point, and the number of
  characters used with the `u`. A high surrogate takes the
  escape that follows it along when that is a low one. Text
  has to go on after an escape.
-/
def unicodeEscape
    (pos : Nat)
    (cs : List Char) :
    Except Fault (CodePoint × Nat) :=
  match cs.drop 4, hexQuad? cs with
  | [], _ => .error (.at .unicodeEscape pos)
  | _, none => .error (.at .unicodeEscape pos)
  | next, some high =>
      match next with
      | '\\' :: 'u' :: more =>
          if isHigh high && !(more.drop 4).isEmpty then
            match hexQuad? more with
            | none => .error (.at .unicodeEscape (pos + 6))
            | some low =>
                if isLow low then .ok (joinPair high low, 11)
                else .ok (.ofNat high, 5)
          else .ok (.ofNat high, 5)
      | _ => .ok (.ofNat high, 5)

/- The characters written by an escape of one letter. -/
def shortEscape? : Char → Option Char
  | '"' => some '"'
  | '\\' => some '\\'
  | '/' => some '/'
  | 'b' => some '\x08'
  | 'f' => some '\x0c'
  | 'n' => some '\n'
  | 'r' => some '\r'
  | 't' => some '\t'
  | _ => none

/-
  The rest of a string that opened at offset `start`, from
  offset `pos`: its text and the number of characters up to
  and with the closing quote. The first `skip` characters
  belong to an escape that has been read.
-/
def stringFrom
    (start pos skip : Nat) :
    List Char → Except Fault (Text × Nat)
  | [] => .error (.at .unterminated start)
  | c :: rest =>
      let go (skip : Nat) (point : Option CodePoint) :=
        (stringFrom start (pos + 1) skip rest).map
          fun (t, n) => (point.toList ++ t, n + 1)
      match skip with
      | skip + 1 => go skip none
      | 0 =>
          if c == '"' then .ok ([], 1)
          else if c == '\\' then
            match rest with
            | [] => .error (.at .unterminated start)
            | e :: more =>
                match shortEscape? e with
                | some c => go 1 (some (.scalar c))
                | none =>
                    if e == 'u' then
                      match unicodeEscape (pos + 1) more with
                      | .ok (point, n) => go n (some point)
                      | .error fault => .error fault
                    else .error (.at .escape pos)
          else if c.toNat < 0x20 then .error (.at .control pos)
          else go 0 (some (.scalar c))

------------------------------------------------------------
-- Numbers
------------------------------------------------------------

/- A decimal digit. -/
def isDigit (c : Char) : Bool :=
  '0' ≤ c && c ≤ '9'

/- The number that decimal digits write. -/
def digitsValue (ds : List Char) : Nat :=
  ds.foldl (fun n d => n * 10 + (d.toNat - '0'.toNat)) 0

/-
  The parts of a number: its sign, the digits before and
  after the point, and the sign and digits of its exponent.
-/
structure Numeral where
  negative : Bool
  whole : List Char
  decimals : List Char
  exponent : Option (Bool × List Char)

/- The whole part: a zero, or digits that start with none. -/
def wholePart? (cs : List Char) :
    Option (List Char × List Char) :=
  match cs with
  | '0' :: rest => some (['0'], rest)
  | c :: _ =>
      if isDigit c then some (run isDigit cs) else none
  | [] => none

/- A point belongs to a number if a digit follows it. -/
def decimalPart (cs : List Char) : List Char × List Char :=
  match cs with
  | '.' :: rest =>
      match run isDigit rest with
      | ([], _) => ([], cs)
      | parts => parts
  | _ => ([], cs)

/- The sign and digits after the letter of an exponent. -/
def exponentDigits (cs : List Char) :
    Bool × List Char × List Char :=
  match cs with
  | '-' :: rest => (true, run isDigit rest)
  | '+' :: rest => (false, run isDigit rest)
  | _ => (false, run isDigit cs)

/- An exponent belongs to a number if it has a digit. -/
def exponentPart (cs : List Char) :
    Option (Bool × List Char) × List Char :=
  match cs with
  | c :: rest =>
      if c == 'e' || c == 'E' then
        match exponentDigits rest with
        | (_, [], _) => (none, cs)
        | (negative, digits, rest) =>
            (some (negative, digits), rest)
      else (none, cs)
  | [] => (none, cs)

/- The longest number that a text starts with. -/
def numeral? (cs : List Char) :
    Option (Numeral × List Char) := do
  let (negative, unsigned) :=
    match cs with
    | '-' :: rest => (true, rest)
    | _ => (false, cs)
  let (whole, rest) ← wholePart? unsigned
  let (decimals, rest) := decimalPart rest
  let (exponent, rest) := exponentPart rest
  return (⟨negative, whole, decimals, exponent⟩, rest)

/-
  The value of a number: a whole number if it has neither
  decimals nor an exponent, else the nearest floating-point
  number.
-/
def Numeral.token (n : Numeral) : Token :=
  match n.decimals, n.exponent with
  | [], none =>
      if Digit.limit < n.whole.length then
        .flawed (.longInteger n.whole.length)
      else
        let size : Int := digitsValue n.whole
        .scalar (.int (if n.negative then -size else size))
  | decimals, exponent =>
      let shift : Int :=
        match exponent with
        | none => 0
        | some (negative, digits) =>
            let size : Int := digitsValue digits
            if negative then -size else size
      .scalar
        (.number
          (.ofDecimal
            n.negative
            (digitsValue (n.whole ++ decimals))
            (shift - decimals.length)))

------------------------------------------------------------
-- Scanning
------------------------------------------------------------

/- The words that stand for a value. -/
def words : List (List Char × Json) :=
  [("null".toList, .null),
    ("true".toList, .bool true),
    ("false".toList, .bool false),
    ("NaN".toList, .number .nan),
    ("Infinity".toList, .number (.infinite false)),
    ("-Infinity".toList, .number (.infinite true))]

/- The token of a single character. -/
def punctuation? : Char → Option Token
  | '[' => some .openArray
  | ']' => some .closeArray
  | '{' => some .openObject
  | '}' => some .closeObject
  | ':' => some .colon
  | ',' => some .comma
  | _ => none

/-
  The token that a text starts with, at offset `pos`, and
  the number of its characters.
-/
def tokenAt
    (pos : Nat)
    (cs : List Char) : Token × Nat :=
  match cs with
  | [] => (.stray, 1)
  | c :: rest =>
      match punctuation? c with
      | some token => (token, 1)
      | none =>
          if c == '"' then
            match stringFrom pos (pos + 1) 0 rest with
            | .ok (t, n) => (.string t, n + 1)
            | .error fault => (.flawed fault, cs.length)
          else
            match words.find? (·.1.isPrefixOf cs) with
            | some (word, v) => (.scalar v, word.length)
            | none =>
                match numeral? cs with
                | some (n, rest) =>
                    (n.token, cs.length - rest.length)
                | none => (.stray, 1)

/-
  The tokens of a text from offset `pos`, each with its
  offset. The first `skip` characters belong to a token
  that has been read.
-/
def scanFrom
    (pos skip : Nat) :
    List Char → List (Nat × Token)
  | [] => []
  | c :: rest =>
      match skip with
      | skip + 1 => scanFrom (pos + 1) skip rest
      | 0 =>
          if isSpace c then scanFrom (pos + 1) 0 rest
          else
            let (token, n) := tokenAt pos (c :: rest)
            (pos, token) :: scanFrom (pos + 1) (n - 1) rest

theorem scanFrom_succ
    (pos skip : Nat)
    (c : Char)
    (rest : List Char) :
    scanFrom pos (skip + 1) (c :: rest) =
      scanFrom (pos + 1) skip rest :=
  rfl

theorem scanFrom_zero
    (pos : Nat)
    (c : Char)
    (rest : List Char) :
    scanFrom pos 0 (c :: rest) =
      if isSpace c then scanFrom (pos + 1) 0 rest
      else
        (pos, (tokenAt pos (c :: rest)).1) ::
          scanFrom (pos + 1) ((tokenAt pos (c :: rest)).2 - 1)
            rest :=
  rfl

/- The tokens of a text. -/
def scan (cs : List Char) : List (Nat × Token) :=
  scanFrom 0 0 cs

end Json

end BiomeMigration
