import BiomeMigration.Biome
import BiomeMigration.Proofs.Package.Writing

/-
  The text of a configuration is ASCII, whatever the version
  is, and is read back as the configuration, with its members
  in their order.

  Main declarations:
    * `Json.IsSimple`
    * `Biome.isSimple_configuration`
    * `Biome.Holds`
    * `Biome.encoded`
    * `Biome.holds_encoded`
-/

------------------------------------------------------------
-- Simple Values
------------------------------------------------------------

namespace BiomeMigration

instance (p : CodePoint) : Decidable (∃ c, p = .scalar c) :=
  match p with
  | .scalar c => isTrue ⟨c, rfl⟩
  | .surrogate _ => isFalse (by simp)

instance (t : Text) : Decidable t.IsPlain :=
  inferInstanceAs (Decidable (∀ p ∈ t, ∃ c, p = .scalar c))

namespace Json

/-
  A value with small whole numbers and no other ones, no
  surrogates, and no key that comes twice.
-/
def IsSimple : Json → Prop
  | .int n => n.natAbs < 100
  | .number _ => False
  | .string t => t.IsPlain
  | .object members =>
      (Members.keys members).Nodup ∧
        ∀ key ∈ Members.keys members, key.IsPlain
  | _ => True

instance : DecidablePred IsSimple
  | .null => isTrue trivial
  | .bool _ => isTrue trivial
  | .int n => inferInstanceAs (Decidable (n.natAbs < 100))
  | .number _ => isFalse id
  | .string t => inferInstanceAs (Decidable t.IsPlain)
  | .array _ => isTrue trivial
  | .object _ => inferInstanceAs (Decidable (_ ∧ _))

theorem isSound_of_isSimple
    (v : Json)
    (hSimple : v.IsSimple) :
    v.IsSound := by
  cases v with
  | int n =>
      have hLimit : 100 ≤ 10 ^ Digit.limit :=
        Nat.pow_le_pow_right (n := 10) (by decide)
          (by decide : 2 ≤ Digit.limit)
      exact Nat.lt_of_lt_of_le hSimple hLimit
  | number x => exact hSimple.elim
  | object members => exact hSimple.1
  | _ => trivial

theorem isPlain_of_isSimple
    (v : Json)
    (hSimple : v.IsSimple) :
    v.IsPlain := by
  cases v with
  | string t => exact hSimple
  | object members =>
      exact fun m hm => hSimple.2 m.1 (List.mem_map_of_mem hm)
  | _ => trivial

mutual

/- A property that can be decided can be at all parts. -/
def decidableAll
    (P : Json → Prop)
    [DecidablePred P] :
    (v : Json) → Decidable (v.All P)
  | .array items =>
      @instDecidableAnd _ _ _ (decidableAllItems P items)
  | .object members =>
      @instDecidableAnd _ _ _ (decidableAllMembers P members)
  | .null => inferInstanceAs (Decidable (P _))
  | .bool _ => inferInstanceAs (Decidable (P _))
  | .int _ => inferInstanceAs (Decidable (P _))
  | .number _ => inferInstanceAs (Decidable (P _))
  | .string _ => inferInstanceAs (Decidable (P _))

def decidableAllItems
    (P : Json → Prop)
    [DecidablePred P] :
    (items : List Json) → Decidable (AllItems P items)
  | [] => isTrue trivial
  | v :: items =>
      @instDecidableAnd _ _ (decidableAll P v)
        (decidableAllItems P items)

def decidableAllMembers
    (P : Json → Prop)
    [DecidablePred P] :
    (members : List (Text × Json)) →
      Decidable (AllMembers P members)
  | [] => isTrue trivial
  | (_, v) :: members =>
      @instDecidableAnd _ _ (decidableAll P v)
        (decidableAllMembers P members)

end

instance (P : Json → Prop) [DecidablePred P] :
    DecidablePred (All P) :=
  decidableAll P

end Json

------------------------------------------------------------
-- Configurations
------------------------------------------------------------

namespace Biome

variable {version : Text}

theorem isPlain_schema
    (hPlain : version.IsPlain) :
    (schema version).IsPlain := by
  unfold schema
  simp only [Text.isPlain_append_iff]
  exact ⟨⟨Text.isPlain_ofChars _, hPlain⟩,
    Text.isPlain_ofChars _⟩

/- The version stands in the first member only. -/
theorem configuration_eq
    (archetype : Archetype)
    (version : Text) :
    ∃ members,
      configuration archetype version =
          .object
            ((Text.ofString "$schema", .string (schema version))
              :: members) ∧
        configuration archetype [] =
          .object
            ((Text.ofString "$schema", .string (schema []))
              :: members) :=
  ⟨_, rfl, rfl⟩

theorem isSimple_configuration
    (hPlain : version.IsPlain)
    (archetype : Archetype) :
    (configuration archetype version).All Json.IsSimple := by
  have hUnversioned :
      (configuration archetype []).All Json.IsSimple := by
    cases archetype with
    | react => decide +kernel
    | node => decide +kernel
  rcases configuration_eq archetype version with
    ⟨members, hMembers, hUnversionedMembers⟩
  rw [hUnversionedMembers, Json.all_object_iff] at hUnversioned
  rw [hMembers, Json.all_object_iff]
  simp only [List.forall_mem_cons] at hUnversioned ⊢
  exact ⟨hUnversioned.1, isPlain_schema hPlain,
    hUnversioned.2.2⟩

theorem nesting_configuration
    (archetype : Archetype)
    (version : Text) :
    (configuration archetype version).nesting = 9 := by
  cases archetype with
  | react => rfl
  | node => rfl

------------------------------------------------------------
-- Texts
------------------------------------------------------------

/-
  Bytes are those of a configuration: they are ASCII, with
  one line break at the end, and where there is room for its
  nine levels they are read as the configuration, if the
  version has no surrogates.
-/
structure Holds
    (bytes : Bytes)
    (archetype : Archetype)
    (version : Text) : Prop where
  ascii : ∀ b ∈ bytes, b < 0x80
  closes : ∃ front, bytes = front ++ [0x7D, 0x0A]
  reads :
    version.IsPlain →
      ∀ room, 9 ≤ room →
        Json.ofBytes room bytes =
          .ok (configuration archetype version)

theorem isAscii_text
    (archetype : Archetype)
    (version : Text) :
    (text archetype version).IsAscii := by
  unfold text
  intro p hp
  rcases List.mem_append.mp hp with hPrinted | hBreak
  · exact Json.isAscii_print _ p hPrinted
  · rw [List.mem_singleton.mp hBreak]
    decide

/- The bytes of a configuration. -/
def encoded
    (archetype : Archetype)
    (version : Text) : Bytes :=
  (text archetype version).encode.toOption.getD []

/- The text of a configuration always has an encoding. -/
theorem encode_text
    (archetype : Archetype)
    (version : Text) :
    (text archetype version).encode =
      .ok (encoded archetype version) := by
  rcases (isAscii_text archetype version).encode with
    ⟨bytes, hBytes, _⟩
  unfold encoded
  rw [hBytes]
  rfl

theorem holds_encoded
    (archetype : Archetype)
    (version : Text) :
    Holds (encoded archetype version) archetype version := by
  have hBytes := encode_text archetype version
  rcases (isAscii_text archetype version).encode with
    ⟨bytes, hSame, hAscii⟩
  rcases Except.ok.inj (hSame.symm.trans hBytes) with rfl
  rcases configuration_eq archetype version with
    ⟨members, hMembers, _⟩
  refine ⟨hAscii, ?_, fun hPlain room hRoom => ?_⟩
  · unfold text at hBytes
    rw [hMembers] at hBytes
    exact Json.encode_object_closes hBytes
  · have hSimple := isSimple_configuration hPlain archetype
    have hSound := hSimple.imp Json.isSound_of_isSimple
    have hNesting := nesting_configuration archetype version
    exact Manifest.ofBytes_print hSound
      (hSimple.imp Json.isPlain_of_isSimple)
      (hSound.imp Json.hasSurvived_of_isSound)
      (hNesting.trans_le hRoom) hBytes

end Biome

end BiomeMigration
