import BiomeMigration.Proofs.Yaml.Faults
import BiomeMigration.Yaml.Scalar

/-
  What can be wrong with a scalar. Its tag tells which
  faults there are: nothing is wrong with any text, a word
  is no truth value, a numeral is no number or too long, and
  a date does not exist.

  Main declarations:
    * `Yaml.Scalar.Fails`
    * `Yaml.Scalar.fails_of_ofTag`
-/

------------------------------------------------------------
-- Faults by Tags
------------------------------------------------------------

namespace BiomeMigration

namespace Yaml

namespace Scalar

/- The tags under which no content is malformed. -/
def wellFormedTags : List Tag :=
  [.null, .str, .bool, .int, .float, .timestamp]

/- A scalar with a tag may have a fault. -/
inductive Fails : Tag → Fault → Prop where
  | truth (word : Text) : Fails .bool (.truth word)
  | noDigits
      {tag : Tag}
      (hTag : tag = .int ∨ tag = .float) :
      Fails tag .noDigits
  | integer
      (base : Nat)
      (numeral : Text) :
      Fails .int (.integer base numeral)
  | longInteger
      {digits : Nat}
      (hLong : Digit.limit < digits) :
      Fails .int (.longInteger digits)
  | number (numeral : Text) : Fails .float (.number numeral)
  | largeNumber : Fails .float .largeNumber
  | time : Fails .timestamp .time
  | timePart (part : TimePart) : Fails .timestamp (.timePart part)
  | offset
      (days : Int)
      (seconds : Nat) :
      Fails .timestamp (.offset days seconds)
  | malformed
      {tag : Tag}
      (hTag : tag ∉ wellFormedTags) :
      Fails tag .malformed

------------------------------------------------------------
-- Numbers
------------------------------------------------------------

theorem fails_sign
    {tag : Tag}
    (hTag : tag = .int ∨ tag = .float)
    (t : Text) :
    Only (Fails tag) (sign t) := by
  unfold sign
  split
  · exact Only.error (.noDigits hTag)
  · exact .ite (Only.ok _) (.ite (Only.ok _) (Only.ok _))

theorem fails_int
    (base : Nat)
    (t : Text) :
    Only (Fails .int) (Numeral.int base t) := by
  unfold Numeral.int
  dsimp only
  split
  · next hTest =>
      rw [Bool.and_eq_true, decide_eq_true_eq] at hTest
      exact Only.error (.longInteger hTest.2)
  · exact .ite (Only.error (.integer base t)) (Only.ok _)

theorem fails_intSize (t : Text) :
    Only (Fails .int) (intSize t) := by
  unfold intSize
  split
  · exact Only.error (.noDigits (Or.inl rfl))
  · apply Only.ite
    · split
      · exact Only.ok _
      · exact .ite (fails_int _ _) <|
          .ite (fails_int _ _) (fails_int _ _)
    · exact .ite
        ((Only.mapM (fails_int 10) _).bind fun _ => Only.ok _)
        (fails_int _ _)

theorem fails_intOf (t : Text) :
    Only (Fails .int) (intOf t) := by
  unfold intOf
  apply (fails_sign (Or.inl rfl) _).bind
  rintro ⟨negative, rest⟩
  exact (fails_intSize rest).bind fun _ => Only.ok _

theorem fails_float (t : Text) :
    Only (Fails .float) (Numeral.float t) := by
  unfold Numeral.float
  rcases Numeral.sign (Numeral.trimmed t) with ⟨negative, cs⟩
  refine .ite (Only.ok _) (.ite (Only.ok _) ?_)
  cases Numeral.decimal? negative cs with
  | some x => exact Only.ok x
  | none => exact Only.error (.number t)

theorem fails_sexagesimal
    (weight : Nat)
    (total : Binary64)
    (xs : List Binary64) :
    Only (Fails .float) (sexagesimal weight total xs) := by
  induction xs generalizing weight total with
  | nil => exact Only.ok _
  | cons x xs ih =>
      unfold sexagesimal
      split
      · exact Only.error .largeNumber
      · exact ih _ _

theorem fails_floatOf (t : Text) :
    Only (Fails .float) (floatOf t) := by
  have hSize : ∀ t, Only (Fails .float) (floatSize t) :=
    fun t =>
      .ite (Only.ok _) <|
        .ite (Only.ok _) <|
        .ite
          ((Only.mapM fails_float _).bind fun _ =>
            fails_sexagesimal _ _ _)
          (fails_float t)
  unfold floatOf
  apply (fails_sign (Or.inr rfl) _).bind
  rintro ⟨negative, rest⟩
  exact (hSize rest).bind fun _ => Only.ok _

------------------------------------------------------------
-- Dates and Times
------------------------------------------------------------

/- A part of a date or a time is out of range. -/
theorem fails_timePart (part : TimePart) :
    Only (Fails .timestamp)
      (.error (.timePart part) : Except Fault Unit) :=
  Only.error (.timePart part)

theorem fails_checkDate (time : Timestamp) :
    Only (Fails .timestamp) time.checkDate :=
  .ite (fails_timePart _) <|
    .ite (fails_timePart _) <|
    .ite (fails_timePart _) (Only.ok _)

theorem fails_checkClock (c : Clock) :
    Only (Fails .timestamp) (Timestamp.checkClock c) :=
  .ite (fails_timePart _) <|
    .ite (fails_timePart _) <|
    .ite (fails_timePart _) (Only.ok _)

theorem fails_checkOffset (o : Offset) :
    Only (Fails .timestamp) (Timestamp.Offset.check o) := by
  unfold Timestamp.Offset.check
  dsimp only
  split
  · exact Only.ok _
  · exact Only.error (.offset _ _)

theorem fails_check (time : Timestamp) :
    Only (Fails .timestamp) time.check := by
  unfold Timestamp.check
  cases time.clock? with
  | none => exact fails_checkDate time
  | some clock =>
      have hRest :=
        (fails_checkDate time).bind fun _ => fails_checkClock clock
      dsimp only
      cases clock.offset? with
      | none => exact hRest
      | some offset =>
          exact (fails_checkOffset offset).bind fun _ => hRest

theorem fails_checkTime (t : Text) :
    Only (Fails .timestamp) (checkTime t) := by
  unfold checkTime
  cases (t.chars?.map Plain.withoutFeed).bind Timestamp.read? with
  | none => exact Only.error .time
  | some time => exact fails_check time

------------------------------------------------------------
-- Values
------------------------------------------------------------

theorem fails_checkBytes (t : Text) :
    Only (Fails .binary) (checkBytes t) := by
  have hMalformed :
      Only (Fails .binary) (.error .malformed : Except Fault Unit) :=
    Only.error (.malformed (by decide))
  unfold checkBytes
  split
  · exact .ite (Only.ok _) hMalformed
  · exact hMalformed

/- The fault of a scalar is one that its tag allows. -/
theorem fails_of_ofTag
    (tag : Tag)
    (t : Text) :
    Only (Fails tag) (ofTag tag t) := by
  have hMalformed :
      tag ∉ wellFormedTags →
        Only (Fails tag) (.error .malformed : Except Fault Scalar) :=
    fun hTag => Only.error (.malformed hTag)
  cases tag with
  | null => exact Only.ok _
  | str => exact Only.ok _
  | int => exact (fails_intOf t).map _
  | float => exact (fails_floatOf t).map _
  | timestamp => exact (fails_checkTime t).map _
  | bool =>
      apply Only.map
      exact .ite (Only.ok _) <|
        .ite (Only.ok _) (Only.error (.truth _))
  | binary => exact (fails_checkBytes t).map _
  | seq => exact hMalformed (by decide)
  | map => exact hMalformed (by decide)
  | set => exact hMalformed (by decide)
  | omap => exact hMalformed (by decide)
  | pairs => exact hMalformed (by decide)
  | merge => exact hMalformed (by decide)
  | value => exact hMalformed (by decide)
  | unknown => exact hMalformed (by decide)

end Scalar

end Yaml

end BiomeMigration
