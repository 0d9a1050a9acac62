import BiomeMigration.Json.Token

/-
  This file defines the reading of JSON text: tokens are
  taken one by one, with a stack of the containers that are
  still open, and the first fault ends the reading.

  Key definitions include:
    * `Json.Frame`
    * `Json.Stage`
    * `Json.read`
    * `Json.parse`
    * `Json.Fault.message`
-/

namespace BiomeMigration

namespace Json

------------------------------------------------------------
-- Reading Tokens
------------------------------------------------------------

/-
  A container that is still open: an array with its items
  so far, last first, or an object with its members so far
  and the name whose value comes next.
-/
inductive Frame where
  | array (items : List Json)
  | object (members : Members) (name : Text)

/-
  What may come next inside the open containers. `items`
  and `names` follow an opening bracket, `name` follows a
  comma in an object, `after` follows a complete value.
-/
inductive Stage where
  | value (stack : List Frame)
  | items (stack : List Frame)
  | names (stack : List Frame)
  | name (stack : List Frame) (members : Members)
  | colon (stack : List Frame) (members : Members) (name : Text)
  | after (stack : List Frame) (v : Json)

/-
  The start of a value. At most `room` containers may stand
  inside of each other.
-/
def Stage.start
    (room : Nat)
    (stack : List Frame)
    (pos : Nat) :
    Token → Except Fault Stage
  | .string t => .ok (.after stack (.string t))
  | .scalar v => .ok (.after stack v)
  | .openArray =>
      if room ≤ stack.length then
        .error (.tooDeep .array)
      else .ok (.items stack)
  | .openObject =>
      if room ≤ stack.length then
        .error (.tooDeep .object)
      else .ok (.names stack)
  | .flawed fault => .error fault
  | _ => .error (.at .value pos)

/- The name of a member. -/
def Stage.named
    (stack : List Frame)
    (members : Members)
    (pos : Nat) :
    Token → Except Fault Stage
  | .string t => .ok (.colon stack members t)
  | .flawed (.at cause offset) => .error (.at cause offset)
  | _ => .error (.at .name pos)

/- One token. -/
def Stage.next
    (room : Nat)
    (stage : Stage)
    (pos : Nat)
    (token : Token) :
    Except Fault Stage :=
  match stage, token with
  | .value stack, token => start room stack pos token
  | .items stack, .closeArray => .ok (.after stack (.array []))
  | .items stack, token =>
      start room (.array [] :: stack) pos token
  | .names stack, .closeObject => .ok (.after stack (.object []))
  | .names stack, token => named stack [] pos token
  | .name stack members, token => named stack members pos token
  | .colon stack members key, .colon =>
      .ok (.value (.object members key :: stack))
  | .colon _ _ _, _ => .error (.at .colon pos)
  | .after (.array done :: stack) v, .closeArray =>
      .ok (.after stack (.array (v :: done).reverse))
  | .after (.array done :: stack) v, .comma =>
      .ok (.value (.array (v :: done) :: stack))
  | .after (.object members key :: stack) v, .closeObject =>
      .ok (.after stack (.object (Members.insert members key v)))
  | .after (.object members key :: stack) v, .comma =>
      .ok (.name stack (Members.insert members key v))
  | .after (_ :: _) _, _ => .error (.at .comma pos)
  | .after [] _, _ => .error (.at .extraData pos)

/- The end of the text at offset `pos`. -/
def Stage.finish
    (pos : Nat) :
    Stage → Except Fault Json
  | .value _ => .error (.at .value pos)
  | .items _ => .error (.at .value pos)
  | .names _ => .error (.at .name pos)
  | .name _ _ => .error (.at .name pos)
  | .colon _ _ _ => .error (.at .colon pos)
  | .after (_ :: _) _ => .error (.at .comma pos)
  | .after [] v => .ok v

/- Read tokens to the end of the text at offset `size`. -/
def read
    (room size : Nat)
    (stage : Stage) :
    List (Nat × Token) → Except Fault Json
  | [] => stage.finish size
  | (pos, token) :: rest =>
      match stage.next room pos token with
      | .ok stage => read room size stage rest
      | .error fault => .error fault

/-
  The value of a text, where at most `room` containers stand
  inside of each other. A byte order mark in front is
  refused.
-/
def parse
    (room : Nat)
    (cs : List Char) : Except Fault Json :=
  if cs.head? == some (Char.ofNat 0xFEFF) then
    .error (.at .byteOrderMark 0)
  else
    read room cs.length (.value []) (scan cs)

------------------------------------------------------------
-- Wording
------------------------------------------------------------

/- The wording of a cause. -/
def Cause.message : Cause → String
  | .byteOrderMark =>
      "Unexpected UTF-8 BOM (decode using utf-8-sig)"
  | .value => "Expecting value"
  | .name =>
      "Expecting property name enclosed in double quotes"
  | .colon => "Expecting ':' delimiter"
  | .comma => "Expecting ',' delimiter"
  | .extraData => "Extra data"
  | .unterminated => "Unterminated string starting at"
  | .control => "Invalid control character at"
  | .escape => "Invalid \\escape"
  | .unicodeEscape => "Invalid \\uXXXX escape"

/- The name of a kind of container. -/
def Container.name : Container → String
  | .array => "array"
  | .object => "object"

/-
  The line and the column of an offset, both counted from
  one.
-/
def place
    (cs : List Char)
    (offset : Nat) : Nat × Nat :=
  let before := cs.take offset
  let column := (before.reverse.takeWhile (· != '\n')).length
  (before.count '\n' + 1, column + 1)

/- The wording of a fault in a text. -/
def Fault.message
    (cs : List Char) :
    Fault → String
  | .at cause offset =>
      let (line, column) := place cs offset
      s!"{cause.message}: line {line} column {column}"
        ++ s!" (char {offset})"
  | .longInteger digits => Digit.longMessage digits
  | .tooDeep container =>
      "maximum recursion depth exceeded while decoding a"
        ++ s!" JSON {container.name} from a unicode string"

end Json

end BiomeMigration
