import BiomeMigration.Decimal.Binary64
import BiomeMigration.Text.CodePoint

/-
  This file defines JSON values whose objects keep the
  order of their members, and the look-up and update of
  members by key.

  Key definitions include:
    * `Json`
    * `Members`
    * `Members.get?`
    * `Members.insert`
    * `Members.erase`
    * `Members.keys`
-/

namespace BiomeMigration

/-
  A JSON value. Whole numbers are exact, all other numbers
  are floating-point. An object is the list of its members
  in order.
-/
inductive Json where
  | null
  | bool (b : Bool)
  | int (n : Int)
  | number (x : Binary64)
  | string (t : Text)
  | array (items : List Json)
  | object (members : List (Text × Json))

/- The members of an object. -/
abbrev Members := List (Text × Json)

namespace Json

/- The JSON string of a string. -/
def ofString (s : String) : Json :=
  .string (Text.ofString s)

/- An object given by plain keys. -/
def ofPairs (pairs : List (String × Json)) : Json :=
  .object (pairs.map fun (key, v) => (Text.ofString key, v))

end Json

namespace Members

variable {V : Type}

------------------------------------------------------------
-- Look-up
------------------------------------------------------------

/- The keys in order. -/
def keys (ms : List (Text × V)) : List Text :=
  ms.map Prod.fst

/- The value of a key. -/
def get?
    (ms : List (Text × V))
    (key : Text) : Option V :=
  match ms with
  | [] => none
  | (k, v) :: rest => if k = key then some v else get? rest key

/- A key is present. -/
def has
    (ms : List (Text × V))
    (key : Text) : Bool :=
  (get? ms key).isSome

------------------------------------------------------------
-- Update
------------------------------------------------------------

/-
  Set the value of a key: a present key keeps its place, a
  new one goes to the end.
-/
def insert
    (ms : List (Text × V))
    (key : Text)
    (v : V) : List (Text × V) :=
  match ms with
  | [] => [(key, v)]
  | (k, w) :: rest =>
      if k = key then (k, v) :: rest
      else (k, w) :: insert rest key v

/- Set the values of several keys from left to right. -/
def insertAll
    (ms news : List (Text × V)) : List (Text × V) :=
  news.foldl (fun acc (key, v) => insert acc key v) ms

/- Remove a key. -/
def erase
    (ms : List (Text × V))
    (key : Text) : List (Text × V) :=
  ms.filter (·.1 ≠ key)

theorem get?_insert
    (ms : List (Text × V))
    (key other : Text)
    (v : V) :
    get? (insert ms key v) other =
      if key = other then some v else get? ms other := by
  induction ms with
  | nil => simp [insert, get?]
  | cons m rest ih =>
      obtain ⟨k, w⟩ := m
      by_cases hk : k = key
      · subst hk
        by_cases ho : k = other <;> simp [insert, get?, ho]
      · by_cases ho : k = other
        · subst ho
          simp [insert, get?, hk, Ne.symm hk]
        · simp [insert, get?, hk, ho, ih]

theorem keys_insert
    (ms : List (Text × V))
    (key : Text)
    (v : V) :
    keys (insert ms key v) =
      if key ∈ keys ms then keys ms else keys ms ++ [key] := by
  induction ms with
  | nil => simp [insert, keys]
  | cons m rest ih =>
      obtain ⟨k, w⟩ := m
      by_cases hk : k = key
      · subst hk
        simp [insert, keys]
      · simp only [keys] at ih
        by_cases hm : key ∈ rest.map Prod.fst <;>
          simp_all [insert, keys, Ne.symm hk]

theorem get?_erase
    (ms : List (Text × V))
    (key other : Text) :
    get? (erase ms key) other =
      if key = other then none else get? ms other := by
  induction ms with
  | nil => simp [erase, get?]
  | cons m rest ih =>
      obtain ⟨k, w⟩ := m
      simp only [erase] at ih
      by_cases hk : k = key
      · subst hk
        by_cases ho : k = other <;>
          simp_all [erase, get?]
      · by_cases ho : k = other
        · subst ho
          simp [erase, get?, hk, Ne.symm hk]
        · simp_all [erase, get?]

end Members

end BiomeMigration
