import BiomeMigration.Text.Run
import BiomeMigration.Yaml.Fault

/-
  This file defines timestamps: how one is written, and
  which of them are dates that exist.

  Key definitions include:
    * `Yaml.Timestamp`
    * `Yaml.Timestamp.read?`
    * `Yaml.Timestamp.check`
-/

namespace BiomeMigration

namespace Yaml

/- A distance from universal time. -/
structure Offset where
  negative : Bool
  hours : Nat
  minutes : Nat
  deriving DecidableEq, Repr

/- The time of a day. -/
structure Clock where
  hour : Nat
  minute : Nat
  second : Nat
  offset? : Option Offset
  deriving DecidableEq, Repr

/-
  A timestamp. `isPadded` says that the month and the day
  have two digits.
-/
structure Timestamp where
  year : Nat
  month : Nat
  day : Nat
  isPadded : Bool
  clock? : Option Clock
  deriving DecidableEq, Repr

namespace Timestamp

------------------------------------------------------------
-- Reading
------------------------------------------------------------

/- The value of some decimal digits. -/
def valueOf (digits : List Char) : Nat :=
  digits.foldl (fun n c => 10 * n + (c.toNat - '0'.toNat)) 0

/- A number of at least `least` digits and at most `most`. -/
def digits?
    (least most : Nat)
    (cs : List Char) : Option (List Char × List Char) :=
  let found := (cs.take most).takeWhile Char.isDigit
  if found.length < least then none
  else some (found, cs.drop found.length)

/- The text after a character. -/
def after?
    (c : Char) :
    List Char → Option (List Char)
  | d :: rest => if c == d then some rest else none
  | [] => none

/- The text after the blanks that it starts with. -/
def blanks (cs : List Char) : List Char :=
  cs.dropWhile fun c => c == ' ' || c == '\t'

/- The text after what separates a date and a time. -/
def separator? : List Char → Option (List Char)
  | c :: rest =>
      if c == 'T' || c == 't' then some rest
      else if c == ' ' || c == '\t' then some (blanks rest)
      else none
  | [] => none

/- The text after the fraction of a second. -/
def fraction (cs : List Char) : List Char :=
  match cs with
  | '.' :: rest => rest.dropWhile Char.isDigit
  | _ => cs

/- An offset with its sign, up to the end. -/
def signedOffset?
    (negative : Bool)
    (cs : List Char) : Option Offset := do
  let (hours, rest) ← digits? 1 2 cs
  match rest with
  | [] => return ⟨negative, valueOf hours, 0⟩
  | _ =>
      let rest ← after? ':' rest
      let (minutes, rest) ← digits? 2 2 rest
      if rest.isEmpty then
        return ⟨negative, valueOf hours, valueOf minutes⟩
      else none

/- An offset after blanks, or nothing at all. -/
def readOffset? (cs : List Char) : Option (Option Offset) :=
  if cs.isEmpty then some none
  else
    match blanks cs with
    | ['Z'] => some none
    | '+' :: rest => (signedOffset? false rest).map some
    | '-' :: rest => (signedOffset? true rest).map some
    | _ => none

/- A time of the day, up to the end. -/
def readClock? (cs : List Char) : Option Clock := do
  let (hour, rest) ← digits? 1 2 cs
  let (minute, rest) ← digits? 2 2 (← after? ':' rest)
  let (second, rest) ← digits? 2 2 (← after? ':' rest)
  let offset ← readOffset? (fraction rest)
  return ⟨valueOf hour, valueOf minute, valueOf second, offset⟩

/- A timestamp that is all of a text. -/
def read? (cs : List Char) : Option Timestamp := do
  let (year, rest) ← digits? 4 4 cs
  let (month, rest) ← digits? 1 2 (← after? '-' rest)
  let (day, rest) ← digits? 1 2 (← after? '-' rest)
  let isPadded := month.length == 2 && day.length == 2
  let date (clock? : Option Clock) : Timestamp :=
    ⟨valueOf year, valueOf month, valueOf day, isPadded, clock?⟩
  match rest with
  | [] => return date none
  | _ => return date (some (← readClock? (← separator? rest)))

/-
  A text is a timestamp without a tag that says so: a date
  alone then has two digits for its month and its day.
-/
def isPlain (cs : List Char) : Bool :=
  match read? cs with
  | some t => t.clock?.isSome || t.isPadded
  | none => false

------------------------------------------------------------
-- Dates that Exist
------------------------------------------------------------

/- A year has a day more than others. -/
def isLeap (year : Nat) : Bool :=
  year % 4 == 0 && (year % 100 != 0 || year % 400 == 0)

/- The number of days of a month. -/
def daysOf (year month : Nat) : Nat :=
  if month == 2 then (if isLeap year then 29 else 28)
  else if [4, 6, 9, 11].contains month then 30
  else 31

/- The offset is less than a day. -/
def Offset.check (o : Offset) : Except Fault Unit :=
  let minutes : Int := 60 * o.hours + o.minutes
  if minutes < 1440 then .ok ()
  else
    let signed := if o.negative then -minutes else minutes
    let days := Int.fdiv signed 1440
    .error (.offset days (60 * (signed - 1440 * days).toNat))

/- The date exists. -/
def checkDate (t : Timestamp) : Except Fault Unit :=
  if t.year < 1 then .error (.timePart (.year t.year))
  else if t.month < 1 || 12 < t.month then
    .error (.timePart .month)
  else if t.day < 1 || daysOf t.year t.month < t.day then
    .error (.timePart .day)
  else .ok ()

/- The time exists on every day. -/
def checkClock (c : Clock) : Except Fault Unit :=
  if 23 < c.hour then .error (.timePart .hour)
  else if 59 < c.minute then .error (.timePart .minute)
  else if 59 < c.second then .error (.timePart .second)
  else .ok ()

/-
  The timestamp exists. Its offset is looked at first, then
  the date, then the time.
-/
def check (t : Timestamp) : Except Fault Unit :=
  match t.clock? with
  | none => t.checkDate
  | some clock => do
      match clock.offset? with
      | some offset => Offset.check offset
      | none => pure ()
      t.checkDate
      checkClock clock

end Timestamp

end Yaml

end BiomeMigration
