import BiomeMigration.Json.Basic
import BiomeMigration.Proofs.Decimal.Rounding
import BiomeMigration.Proofs.Text.Encoding
import BiomeMigration.Text.Digit

/-
  Properties of a JSON value with all values in it, and how
  deep its containers nest.

  Main declarations:
    * `Json.partsInduction`
    * `Json.All`
    * `Json.nesting`
    * `Json.IsSound`
    * `Json.IsPlain`
-/

------------------------------------------------------------
-- Induction
------------------------------------------------------------

namespace BiomeMigration

namespace Json

/- Induction on a value, by its items and members. -/
theorem partsInduction
    {motive : Json → Prop}
    (null : motive .null)
    (bool : ∀ b, motive (.bool b))
    (int : ∀ n, motive (.int n))
    (number : ∀ x, motive (.number x))
    (string : ∀ t, motive (.string t))
    (array :
      ∀ items, (∀ v ∈ items, motive v) →
        motive (.array items))
    (object :
      ∀ members : Members, (∀ m ∈ members, motive m.2) →
        motive (.object members))
    (v : Json) : motive v := by
  refine @Json.rec motive
    (fun items => ∀ v ∈ items, motive v)
    (fun members => ∀ m ∈ members, motive m.2)
    (fun m => motive m.2)
    null bool int number string array object
    ?noItem ?item ?noMember ?member ?entry v
  case noItem => simp
  case item =>
    intro v items hv hItems w hw
    rcases List.mem_cons.mp hw with rfl | hw
    · exact hv
    · exact hItems w hw
  case noMember => simp
  case member =>
    intro m members hm hMembers k hk
    rcases List.mem_cons.mp hk with rfl | hk
    · exact hm
    · exact hMembers k hk
  case entry =>
    intro key v hv
    exact hv

------------------------------------------------------------
-- Properties of All Values in a Value
------------------------------------------------------------

mutual

/- A property holds of a value and of all values in it. -/
def All (P : Json → Prop) : Json → Prop
  | .array items => P (.array items) ∧ AllItems P items
  | .object members =>
      P (.object members) ∧ AllMembers P members
  | .null => P .null
  | .bool b => P (.bool b)
  | .int n => P (.int n)
  | .number x => P (.number x)
  | .string t => P (.string t)

def AllItems (P : Json → Prop) : List Json → Prop
  | [] => True
  | v :: items => v.All P ∧ AllItems P items

def AllMembers (P : Json → Prop) : List (Text × Json) → Prop
  | [] => True
  | (_, v) :: members => v.All P ∧ AllMembers P members

end

variable {P : Json → Prop}

theorem allItems_iff
    {items : List Json} :
    AllItems P items ↔ ∀ v ∈ items, v.All P := by
  induction items with
  | nil => simp [AllItems]
  | cons v items ih => simp [AllItems, ih]

theorem allMembers_iff
    {members : Members} :
    AllMembers P members ↔ ∀ m ∈ members, m.2.All P := by
  induction members with
  | nil => simp [AllMembers]
  | cons m members ih =>
      rcases m with ⟨key, v⟩
      simp [AllMembers, ih]

theorem all_array_iff
    {items : List Json} :
    (array items).All P ↔
      P (.array items) ∧ ∀ v ∈ items, v.All P := by
  rw [All, allItems_iff]

theorem all_object_iff
    {members : Members} :
    (object members).All P ↔
      P (.object members) ∧ ∀ m ∈ members, m.2.All P := by
  rw [All, allMembers_iff]

/- A property that follows from another one at each value. -/
theorem All.imp
    {Q : Json → Prop}
    (hImp : ∀ v, P v → Q v)
    {v : Json}
    (hAll : v.All P) :
    v.All Q := by
  induction v using partsInduction with
  | null => exact hImp _ hAll
  | bool b => exact hImp _ hAll
  | int n => exact hImp _ hAll
  | number x => exact hImp _ hAll
  | string t => exact hImp _ hAll
  | array items ih =>
      rcases all_array_iff.mp hAll with ⟨hHere, hItems⟩
      exact all_array_iff.mpr
        ⟨hImp _ hHere, fun v hv => ih v hv (hItems v hv)⟩
  | object members ih =>
      rcases all_object_iff.mp hAll with ⟨hHere, hMembers⟩
      exact all_object_iff.mpr
        ⟨hImp _ hHere, fun m hm => ih m hm (hMembers m hm)⟩

/- What holds of each value holds of all values in one. -/
theorem all_of_forall
    (hForall : ∀ v, P v)
    (v : Json) :
    v.All P := by
  induction v using partsInduction with
  | null => exact hForall _
  | bool b => exact hForall _
  | int n => exact hForall _
  | number x => exact hForall _
  | string t => exact hForall _
  | array items ih => exact all_array_iff.mpr ⟨hForall _, ih⟩
  | object members ih => exact all_object_iff.mpr ⟨hForall _, ih⟩

------------------------------------------------------------
-- Nesting
------------------------------------------------------------

mutual

/- The number of containers inside each other. -/
def nesting : Json → Nat
  | .array items => nestingItems items + 1
  | .object members => nestingMembers members + 1
  | .null => 0
  | .bool _ => 0
  | .int _ => 0
  | .number _ => 0
  | .string _ => 0

def nestingItems : List Json → Nat
  | [] => 0
  | v :: items => max v.nesting (nestingItems items)

def nestingMembers : List (Text × Json) → Nat
  | [] => 0
  | (_, v) :: members => max v.nesting (nestingMembers members)

end

theorem nestingItems_le_iff
    {items : List Json}
    {n : Nat} :
    nestingItems items ≤ n ↔ ∀ v ∈ items, v.nesting ≤ n := by
  induction items with
  | nil => simp [nestingItems]
  | cons v items ih =>
      rw [nestingItems, Nat.max_le, ih]
      simp

theorem nestingMembers_le_iff
    {members : Members}
    {n : Nat} :
    nestingMembers members ≤ n ↔
      ∀ m ∈ members, m.2.nesting ≤ n := by
  induction members with
  | nil => simp [nestingMembers]
  | cons m members ih =>
      rcases m with ⟨key, v⟩
      rw [nestingMembers, Nat.max_le, ih]
      simp

------------------------------------------------------------
-- Sound and Plain Values
------------------------------------------------------------

/-
  What reading makes sure of at each value: a whole number
  is not too long, any other number is one of the format,
  and no key comes twice in an object.
-/
def IsSound : Json → Prop
  | .int n => n.natAbs < 10 ^ Digit.limit
  | .number x => x.IsCanonical
  | .object members => (Members.keys members).Nodup
  | _ => True

/- A string and the keys of an object hold no surrogates. -/
def IsPlain : Json → Prop
  | .string t => t.IsPlain
  | .object members => ∀ m ∈ members, m.1.IsPlain
  | _ => True

end Json

end BiomeMigration
