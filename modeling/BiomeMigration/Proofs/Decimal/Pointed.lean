import BiomeMigration.Proofs.Decimal.Fifteen
import BiomeMigration.Proofs.Json.Survival

/-
  Digits with a point among them. Without needless zeros such
  a text is told by its value, and the texts of that kind are
  those that numbers of the usual format are written as.

  Main declarations:
    * `Pointed`
    * `Pointed.IsUsual`
    * `Pointed.IsUsual.unique`
    * `Pointed.write_eq`
    * `Pointed.isUsual_of_write`
-/

------------------------------------------------------------
-- Values of Digits
------------------------------------------------------------

namespace BiomeMigration

namespace Json

variable {ds more : List Char}

theorem digitsValue_cons (d : Char) (ds : List Char) :
    digitsValue (d :: ds) =
      (d.toNat - '0'.toNat) * 10 ^ ds.length + digitsValue ds := by
  have hSplit := digitsValue_append [d] ds
  rw [List.singleton_append] at hSplit
  rw [hSplit]
  simp [digitsValue]

/- A digit is told by its value. -/
theorem toNat_of_isDigit
    {d : Char}
    (hDigit : isDigit d = true) :
    d.toNat = '0'.toNat + (d.toNat - '0'.toNat) := by
  simp only [isDigit, Bool.and_eq_true, decide_eq_true_eq] at hDigit
  have hLow : '0'.toNat ≤ d.toNat := Char.le_def.mp hDigit.1
  omega

/- A quotient and a remainder are told by the number. -/
theorem parts_unique
    {a b x y size : Nat}
    (hX : x < size)
    (hY : y < size)
    (hSame : a * size + x = b * size + y) :
    a = b ∧ x = y := by
  have hPos : 0 < size := by omega
  have hFirst :=
    (Nat.div_mod_unique hPos).mpr
      ⟨show x + size * a = a * size + x by ring, hX⟩
  have hSecond :=
    (Nat.div_mod_unique hPos).mpr
      ⟨show y + size * b = b * size + y by ring, hY⟩
  rw [hSame] at hFirst
  exact ⟨hFirst.1.symm.trans hSecond.1,
    hFirst.2.symm.trans hSecond.2⟩

/- Digits of one length are told by their value. -/
theorem eq_of_digitsValue_eq
    (hDigits : ∀ c ∈ ds, isDigit c = true)
    (hMore : ∀ c ∈ more, isDigit c = true)
    (hLength : ds.length = more.length)
    (hValue : digitsValue ds = digitsValue more) :
    ds = more := by
  induction ds generalizing more with
  | nil => exact (List.length_eq_zero_iff.mp hLength.symm).symm
  | cons d ds ih =>
      cases more with
      | nil => cases hLength
      | cons e more =>
          rcases List.forall_mem_cons.mp hDigits with ⟨hD, hDs⟩
          rcases List.forall_mem_cons.mp hMore with ⟨hE, hEs⟩
          have hSame : ds.length = more.length :=
            Nat.succ_inj.mp hLength
          have hLess := digitsValue_lt hDs
          rw [hSame] at hLess
          rw [digitsValue_cons, digitsValue_cons, hSame] at hValue
          rcases parts_unique hLess (digitsValue_lt hEs) hValue with
            ⟨hFirst, hRest⟩
          have hChar : d = e := by
            apply Char.toNat_inj.mp
            rw [toNat_of_isDigit hD, toNat_of_isDigit hE, hFirst]
          rw [hChar, ih hDs hEs hSame hRest]

/- Digits without a zero in front are at least as many. -/
theorem IsLeading.pow_le
    (hLeading : IsLeading ds) :
    10 ^ (ds.length - 1) ≤ digitsValue ds := by
  rcases hLeading.first with ⟨d, more, rfl, hFirst⟩
  have hDigit := toNat_of_isDigit (hLeading.digits d (by simp))
  have hOne : 1 ≤ d.toNat - '0'.toNat := by
    by_contra hNone
    apply hFirst
    apply Char.toNat_inj.mp
    omega
  rw [digitsValue_cons, List.length_cons, Nat.add_sub_cancel]
  calc 10 ^ more.length = 1 * 10 ^ more.length := (Nat.one_mul _).symm
    _ ≤ (d.toNat - '0'.toNat) * 10 ^ more.length :=
        Nat.mul_le_mul_right _ hOne
    _ ≤ (d.toNat - '0'.toNat) * 10 ^ more.length +
          digitsValue more := Nat.le_add_right _ _

/- A whole number without zeros in front. -/
def IsWhole (ds : List Char) : Prop :=
  ds = ['0'] ∨ IsLeading ds

theorem IsWhole.digits
    (hWhole : IsWhole ds) :
    ∀ c ∈ ds, isDigit c = true := by
  rcases hWhole with rfl | hLeading
  · decide
  · exact hLeading.digits

theorem IsWhole.length_le
    (hWhole : IsWhole ds)
    (hMore : ∀ c ∈ more, isDigit c = true)
    (hSome : more ≠ [])
    (hValue : digitsValue ds = digitsValue more) :
    ds.length ≤ more.length := by
  have hPos : 0 < more.length := List.length_pos_iff.mpr hSome
  rcases hWhole with rfl | hLeading
  · exact hPos
  · have hLow := hLeading.pow_le
    have hHigh := digitsValue_lt hMore
    rw [← hValue] at hHigh
    have hPower := Nat.pow_lt_pow_iff_right (show 1 < 10 by decide)
      |>.mp (hLow.trans_lt hHigh)
    omega

theorem IsWhole.ne_nil
    (hWhole : IsWhole ds) :
    ds ≠ [] := by
  rcases hWhole with rfl | hLeading
  · simp
  · rcases hLeading.first with ⟨d, more, rfl, _⟩
    simp

/- A whole number is told by its value. -/
theorem IsWhole.unique
    (hDs : IsWhole ds)
    (hMore : IsWhole more)
    (hValue : digitsValue ds = digitsValue more) :
    ds = more := by
  apply eq_of_digitsValue_eq hDs.digits hMore.digits _ hValue
  exact le_antisymm
    (hDs.length_le hMore.digits hMore.ne_nil hValue)
    (hMore.length_le hDs.digits hDs.ne_nil hValue.symm)

/- The digits of a number are a whole number. -/
theorem isWhole_toDigits (n : Nat) :
    IsWhole (Nat.toDigits 10 n) := by
  rcases Nat.eq_zero_or_pos n with rfl | hPos
  · exact Or.inl rfl
  · exact Or.inr (isLeading_toDigits hPos)

/- A number is written as the whole number that it is read from. -/
theorem toDigits_digitsValue
    (hWhole : IsWhole ds) :
    Nat.toDigits 10 (digitsValue ds) = ds :=
  (isWhole_toDigits _).unique hWhole (digitsValue_toDigits _)

/- A number that ten divides ends with a zero. -/
theorem getLast?_of_dvd
    (hDigits : ∀ c ∈ ds, isDigit c = true)
    (hSome : ds ≠ [])
    (hTen : 10 ∣ digitsValue ds) :
    ds.getLast? = some '0' := by
  rcases List.eq_nil_or_concat ds with rfl | ⟨front, d, rfl⟩
  · exact (hSome rfl).elim
  · rw [List.concat_eq_append] at hDigits hTen ⊢
    have hDigit := hDigits d (by simp)
    have hLess :=
      digitsValue_lt
        (show ∀ c ∈ [d], isDigit c = true by simpa using hDigit)
    have hValue : digitsValue [d] = d.toNat - '0'.toNat := by
      simp [digitsValue]
    have hChar := toNat_of_isDigit hDigit
    rw [digitsValue_append, List.length_singleton] at hTen
    rw [List.length_singleton] at hLess
    have hZero : d = '0' := by
      apply Char.toNat_inj.mp
      omega
    rw [hZero]
    simp

end Json

------------------------------------------------------------
-- Digits with a Point
------------------------------------------------------------

/- Digits with a point among them. -/
structure Pointed where
  whole : List Char
  decimals : List Char

/- A text is a number of one size. -/
theorem Json.Spells.unique
    {cs : List Char}
    {a b : ℚ}
    (hA : Json.Spells cs a)
    (hB : Json.Spells cs b) :
    a = b := by
  rcases hA false with ⟨n, hRead, _, _, hSize⟩
  rcases hB false with ⟨n', hRead', _, _, hSize'⟩
  rw [hRead] at hRead'
  cases hRead'
  exact hSize.symm.trans hSize'

namespace Pointed

open Json (digitsValue IsWhole isDigit)

/- The text of the digits. -/
def text (p : Pointed) : List Char :=
  p.whole ++ '.' :: p.decimals

/- The number that the text stands for. -/
def value (p : Pointed) : ℚ :=
  digitsValue (p.whole ++ p.decimals) *
    10 ^ (-(p.decimals.length : Int))

/-
  A text of the usual format: no zero is needless, and the
  first digit that counts is not far behind the point.
-/
structure IsUsual (p : Pointed) : Prop where
  whole : IsWhole p.whole
  digits : ∀ c ∈ p.decimals, isDigit c = true
  ne_nil : p.decimals ≠ []
  last : p.decimals = ['0'] ∨ p.decimals.getLast? ≠ some '0'
  near :
    p.whole ≠ ['0'] ∨ p.decimals = ['0'] ∨
      ∃ c ∈ p.decimals.take 4, c ≠ '0'

variable {p p' : Pointed}

/- Two values, both by the greater power of ten. -/
theorem value_mul
    (p : Pointed)
    (k : Nat) :
    p.value * 10 ^ (p.decimals.length + k) =
      ((digitsValue p.whole * 10 ^ (p.decimals.length + k) +
        digitsValue p.decimals * 10 ^ k : ℕ) : ℚ) := by
  unfold value
  rw [Json.digitsValue_append]
  push_cast
  rw [zpow_neg, zpow_natCast, pow_add]
  field_simp

theorem IsUsual.eq_of_le
    (hUsual : p.IsUsual)
    (hUsual' : p'.IsUsual)
    (hLe : p.decimals.length ≤ p'.decimals.length)
    (hValue : p.value = p'.value) :
    p = p' := by
  rcases Nat.exists_eq_add_of_le hLe with ⟨k, hLength⟩
  have hFirst := value_mul p k
  have hSecond := value_mul p' 0
  rw [Nat.add_zero, pow_zero, Nat.mul_one, hLength, ← hValue,
    hFirst] at hSecond
  norm_cast at hSecond
  have hLess : digitsValue p.decimals * 10 ^ k <
      10 ^ (p.decimals.length + k) := by
    rw [pow_add]
    exact Nat.mul_lt_mul_of_pos_right
      (Json.digitsValue_lt hUsual.digits) (by positivity)
  have hLess' := Json.digitsValue_lt hUsual'.digits
  rw [hLength] at hLess'
  rcases Json.parts_unique hLess hLess' hSecond with
    ⟨hWhole, hDecimals⟩
  have hNone : k = 0 := by
    by_contra hSome
    have hTen : 10 ∣ digitsValue p'.decimals := by
      rw [← hDecimals]
      exact Dvd.dvd.mul_left (dvd_pow_self 10 hSome) _
    have hLast :=
      Json.getLast?_of_dvd hUsual'.digits hUsual'.ne_nil hTen
    rcases hUsual'.last with hZero | hOther
    · have hOne : 0 < p.decimals.length :=
        List.length_pos_iff.mpr hUsual.ne_nil
      rw [hZero, List.length_singleton] at hLength
      omega
    · exact hOther hLast
  rw [hNone, pow_zero, Nat.mul_one] at hDecimals
  rw [hNone, Nat.add_zero] at hLength
  have hSameWhole := hUsual.whole.unique hUsual'.whole hWhole
  have hSameDecimals :=
    Json.eq_of_digitsValue_eq hUsual.digits hUsual'.digits
      hLength.symm hDecimals
  rcases p with ⟨whole, decimals⟩
  rcases p' with ⟨whole', decimals'⟩
  exact Pointed.mk.injEq _ _ _ _ |>.mpr
    ⟨hSameWhole, hSameDecimals⟩

/- Without needless zeros a text is told by its value. -/
theorem IsUsual.unique
    (hUsual : p.IsUsual)
    (hUsual' : p'.IsUsual)
    (hValue : p.value = p'.value) :
    p = p' := by
  rcases le_total p.decimals.length p'.decimals.length with
    hLe | hLe
  · exact hUsual.eq_of_le hUsual' hLe hValue
  · exact (hUsual'.eq_of_le hUsual hLe hValue.symm).symm

------------------------------------------------------------
-- Written Numbers
------------------------------------------------------------

/- The text of such digits is a number of their value. -/
theorem IsUsual.spells
    (hUsual : p.IsUsual) :
    Json.Spells p.text p.value := by
  apply Json.spells_point _ hUsual.digits hUsual.ne_nil
  rcases hUsual.whole with hZero | hLeading
  · rw [hZero]
    rfl
  · exact hLeading.wholePart?_eq (Json.not_isDigit_point _)

/- Zeros at the end are no significant digits. -/
theorem getLast?_significant (ds : List Char) :
    (NumberFormat.significant ds).getLast? ≠ some '0' := by
  unfold NumberFormat.significant
  rw [List.getLast?_reverse]
  intro hZero
  have hTest := List.head?_dropWhile_not (· == '0') ds.reverse
  rw [hZero] at hTest
  simp at hTest

/- Leading digits, cut off or filled up with zeros. -/
theorem isLeading_padded
    {ds : List Char}
    (hLeading : Json.IsLeading ds)
    {n : Nat}
    (hPos : 0 < n) :
    Json.IsLeading
      (ds.take n ++ List.replicate (n - ds.length) '0') := by
  rcases hLeading.first with ⟨d, more, hCons, hFirst⟩
  constructor
  · intro c hMem
    rcases List.mem_append.mp hMem with hMember | hZero
    · exact hLeading.digits c (List.mem_of_mem_take hMember)
    · exact Json.isDigit_of_mem_zeros hZero
  · refine ⟨d, more.take (n - 1) ++
      List.replicate (n - ds.length) '0', ?_, hFirst⟩
    rw [hCons, List.take_cons hPos, List.cons_append]

/- Positional digits, the first of which is not far away. -/
theorem exists_positional
    {ds : List Char}
    (hLeading : Json.IsLeading ds)
    (hLast : ds.getLast? ≠ some '0')
    (places : Int)
    (hNear : -3 ≤ places) :
    ∃ p : Pointed,
      p.IsUsual ∧ NumberFormat.positional ds places = p.text := by
  rcases hLeading.first with ⟨d, more, hCons, hFirst⟩
  have hNe : ds ≠ [] := by simp [hCons]
  unfold NumberFormat.positional
  split
  · next hFront =>
      refine ⟨⟨['0'], List.replicate (-places).toNat '0' ++ ds⟩,
        ?_, rfl⟩
      refine ⟨Or.inl rfl, ?_, by simp [hNe], Or.inr ?_,
        Or.inr (Or.inr ⟨d, ?_, hFirst⟩)⟩
      · intro c hMem
        rcases List.mem_append.mp hMem with hZero | hMember
        · exact Json.isDigit_of_mem_zeros hZero
        · exact hLeading.digits c hMember
      · rw [List.getLast?_append_of_ne_nil _ hNe]
        exact hLast
      · have hZeros :
            (List.replicate (-places).toNat '0').length ≤ 3 := by
          rw [List.length_replicate]
          omega
        rw [hCons, List.take_append]
        apply List.mem_append_right
        rw [List.take_cons (by omega)]
        simp
  · next hBehind =>
      have hPos : 0 < places.toNat := by omega
      have hWhole := isLeading_padded hLeading hPos
      have hOther :
          ds.take places.toNat ++
              List.replicate (places.toNat - ds.length) '0' ≠
            ['0'] := by
        rcases hWhole.first with ⟨e, rest, hText, hNe⟩
        rw [hText]
        intro hSame
        exact hNe (List.cons.inj hSame).1
      dsimp only
      cases hDrop : ds.drop places.toNat with
      | nil =>
          exact ⟨⟨_, ['0']⟩,
            ⟨Or.inr hWhole,
              fun c hMem => by
                rw [List.mem_singleton.mp hMem]
                decide,
              by simp, Or.inl rfl, Or.inl hOther⟩,
            rfl⟩
      | cons e rest =>
          refine ⟨⟨_, e :: rest⟩,
            ⟨Or.inr hWhole, ?_, by simp, Or.inr ?_,
              Or.inl hOther⟩, rfl⟩
          · intro c hMem
            apply hLeading.digits c
            apply List.mem_of_mem_drop
            rw [hDrop]
            exact hMem
          · have hSplit := List.take_append_drop places.toNat ds
            rw [← hSplit, hDrop,
              List.getLast?_append_of_ne_nil _ (by simp)] at hLast
            exact hLast

/- The digits of a positive number without zeros at the end. -/
theorem isLeading_significant
    {n : Nat}
    (hPos : 0 < n) :
    Json.IsLeading
      (NumberFormat.significant (NumberFormat.digits n)) := by
  unfold NumberFormat.digits
  rw [Nat.toString_eq_repr, Nat.toList_repr]
  exact (Json.isLeading_toDigits hPos).significant

/- A decimal of usual size is laid out without an exponent. -/
theorem exists_layout
    {d : Decimal}
    (hDigits : 0 < d.digits)
    (hLarge : (10 : ℚ) ^ (-4 : Int) ≤ d.ratio)
    (hSmall : d.ratio < 10 ^ (16 : Int)) :
    ∃ p : Pointed,
      p.IsUsual ∧ NumberFormat.usual.layout d = p.text ∧
        p.value = d.ratio := by
  rcases Binary64.decimal_bounds hDigits d.exponent with
    ⟨hLow, hHigh⟩
  have hAbove :
      (-4 : Int) < (toString d.digits).length + d.exponent := by
    have hPower := hLarge.trans_lt hHigh
    exact (zpow_lt_zpow_iff_right₀ (by norm_num)).mp hPower
  have hBelow :
      ((toString d.digits).length : Int) + d.exponent - 1 < 16 := by
    have hPower := hLow.trans_lt hSmall
    exact (zpow_lt_zpow_iff_right₀ (by norm_num)).mp hPower
  have hLength :
      (NumberFormat.digits d.digits).length =
        (toString d.digits).length := by
    unfold NumberFormat.digits
    rw [String.length_toList]
  rcases exists_positional (isLeading_significant hDigits)
      (getLast?_significant _)
      (d.exponent + (NumberFormat.digits d.digits).length - 1 + 1)
      (by rw [hLength]; omega) with
    ⟨p, hUsual, hText⟩
  have hLayout : NumberFormat.usual.layout d = p.text := by
    rw [← hText]
    unfold NumberFormat.layout
    dsimp only
    rw [if_pos]
    simp only [NumberFormat.usual, hLength, Bool.and_eq_true,
      decide_eq_true_eq]
    omega
  refine ⟨p, hUsual, hLayout, ?_⟩
  have hSpells := Json.spells_layout NumberFormat.usual hDigits
  rw [hLayout] at hSpells
  exact hUsual.spells.unique hSpells

/- A digit that is no zero counts at its place. -/
theorem pow_le_digitsValue
    {ds more : List Char}
    {d : Char}
    (hDigit : isDigit d = true)
    (hNe : d ≠ '0') :
    10 ^ more.length ≤ digitsValue (ds ++ d :: more) := by
  have hOne : 1 ≤ d.toNat - '0'.toNat := by
    have hChar := Json.toNat_of_isDigit hDigit
    by_contra hNone
    apply hNe
    apply Char.toNat_inj.mp
    omega
  rw [Json.digitsValue_append, Json.digitsValue_cons]
  calc 10 ^ more.length = 1 * 10 ^ more.length := (Nat.one_mul _).symm
    _ ≤ (d.toNat - '0'.toNat) * 10 ^ more.length :=
        Nat.mul_le_mul_right _ hOne
    _ ≤ _ := by omega

/- A number of usual size is zero or not tiny. -/
theorem IsUsual.le_value
    (hUsual : p.IsUsual)
    (hPos : 0 < digitsValue (p.whole ++ p.decimals)) :
    (10 : ℚ) ^ (-4 : Int) ≤ p.value := by
  -- A digit that counts, at most four places behind the point.
  have hDigit :
      ∃ ds d more,
        p.whole ++ p.decimals = ds ++ d :: more ∧
          isDigit d = true ∧ d ≠ '0' ∧
          p.decimals.length ≤ more.length + 4 := by
    by_cases hWhole : p.whole = ['0']
    · rcases hUsual.near with hOther | hZero | ⟨d, hMem, hNe⟩
      · exact (hOther hWhole).elim
      · rw [hWhole, hZero] at hPos
        exact absurd hPos (by decide)
      · rcases List.append_of_mem hMem with ⟨front, back, hTake⟩
        have hSplit := List.take_append_drop 4 p.decimals
        have hLength := congrArg List.length hTake
        have hAll := congrArg List.length hSplit
        rw [List.length_append] at hLength hAll
        rw [List.length_cons] at hLength
        have hFour : (p.decimals.take 4).length ≤ 4 := by
          rw [List.length_take]
          omega
        refine ⟨p.whole ++ front, d, back ++ p.decimals.drop 4, ?_,
          hUsual.digits d (List.mem_of_mem_take hMem), hNe, ?_⟩
        · conv_lhs => rw [← hSplit, hTake]
          simp
        · rw [List.length_append]
          omega
    · rcases hUsual.whole with hZero | hLeading
      · exact (hWhole hZero).elim
      · rcases hLeading.first with ⟨d, more, hCons, hNe⟩
        refine ⟨[], d, more ++ p.decimals, by simp [hCons],
          hLeading.digits d (by simp [hCons]), hNe, ?_⟩
        rw [List.length_append]
        omega
  rcases hDigit with ⟨ds, d, more, hSplit, hDigit, hNe, hFew⟩
  have hLow :
      10 ^ more.length ≤ digitsValue (p.whole ++ p.decimals) := by
    rw [hSplit]
    exact pow_le_digitsValue hDigit hNe
  have hCast :
      (10 : ℚ) ^ (more.length : Int) ≤
        digitsValue (p.whole ++ p.decimals) := by
    rw [zpow_natCast]
    exact_mod_cast hLow
  unfold value
  calc (10 : ℚ) ^ (-4 : Int)
      ≤ 10 ^ ((more.length : Int) + -(p.decimals.length : Int)) := by
        apply zpow_le_zpow_right₀ (by norm_num)
        omega
    _ = 10 ^ (more.length : Int) *
          10 ^ (-(p.decimals.length : Int)) :=
        zpow_add₀ (by norm_num) _ _
    _ ≤ digitsValue (p.whole ++ p.decimals) *
          10 ^ (-(p.decimals.length : Int)) := by
        gcongr

/- A positive number is written as its shortest decimal. -/
theorem write_finite
    {mantissa : Nat}
    {exponent : Int}
    (hMantissa : 0 < mantissa) :
    NumberFormat.usual.write (.finite false mantissa exponent) =
      String.ofList
        (NumberFormat.usual.layout
          (.shortest mantissa exponent)) := by
  have hNe : (mantissa == 0) = false := by
    simp [hMantissa.ne']
  unfold NumberFormat.write
  dsimp only
  rw [hNe]
  rfl

/- Zero is usual. -/
theorem isUsual_zero : IsUsual ⟨['0'], ['0']⟩ :=
  ⟨Or.inl rfl, by decide, by simp, Or.inl rfl, Or.inr (Or.inl rfl)⟩

theorem IsUsual.isDigit
    (hUsual : p.IsUsual) :
    ∀ c ∈ p.whole ++ p.decimals, Json.isDigit c = true := by
  intro c hMem
  rcases List.mem_append.mp hMem with hWhole | hDecimals
  · exact hUsual.whole.digits c hWhole
  · exact hUsual.digits c hDecimals

/-
  Usual digits, fifteen at most, are written as they are
  read.
-/
theorem IsUsual.write_eq
    (hUsual : p.IsUsual)
    (hFew : (p.whole ++ p.decimals).length ≤ 15) :
    NumberFormat.usual.write
        (.ofDecimal false (digitsValue (p.whole ++ p.decimals))
          (-(p.decimals.length : Int))) =
      String.ofList p.text := by
  have hLess :
      digitsValue (p.whole ++ p.decimals) < 10 ^ 15 :=
    (Json.digitsValue_lt hUsual.isDigit).trans_le
      (Nat.pow_le_pow_right (by decide) hFew)
  have hPlaces : p.decimals.length ≤ 15 := by
    rw [List.length_append] at hFew
    omega
  rcases Nat.eq_zero_or_pos
      (digitsValue (p.whole ++ p.decimals)) with hZero | hPos
  · have hSame : p = ⟨['0'], ['0']⟩ := by
      apply hUsual.unique isUsual_zero
      have hNone : digitsValue (['0'] ++ ['0']) = 0 := rfl
      unfold value
      rw [hZero, hNone, Nat.cast_zero, zero_mul, zero_mul]
    rw [hZero, hSame]
    rfl
  · rcases Decimal.ratio_shortest_ofDecimal hPos hLess hPlaces with
      ⟨mantissa, exponent, hRead, hMantissa, hRatio⟩
    have hSize : (Decimal.shortest mantissa exponent).ratio = p.value :=
      hRatio
    have hLarge := hUsual.le_value hPos
    have hSmall : p.value < 10 ^ (16 : Int) := by
      have hCast :
          (digitsValue (p.whole ++ p.decimals) : ℚ) < 10 ^ 15 := by
        exact_mod_cast hLess
      have hOne : (10 : ℚ) ^ (-(p.decimals.length : Int)) ≤ 1 :=
        zpow_le_one_of_nonpos₀ (by norm_num) (by omega)
      unfold value
      calc _ ≤ (10 : ℚ) ^ 15 * 1 := by gcongr
        _ < 10 ^ (16 : Int) := by norm_num
    have hDigits : 0 < (Decimal.shortest mantissa exponent).digits := by
      rcases Nat.eq_zero_or_pos
          (Decimal.shortest mantissa exponent).digits with
        hNone | hSome
      · have hTiny : (0 : ℚ) < 10 ^ (-4 : Int) := by positivity
        unfold Decimal.ratio at hSize
        rw [hNone, Nat.cast_zero, zero_mul] at hSize
        linarith
      · exact hSome
    rw [← hSize] at hLarge hSmall
    rcases exists_layout hDigits hLarge hSmall with
      ⟨q, hQ, hLayout, hValue⟩
    rw [hQ.unique hUsual (hValue.trans hSize)] at hLayout
    rw [hRead, write_finite hMantissa, hLayout]

/- The point tells the digits before and after it. -/
theorem text_injective
    (hWhole : ∀ c ∈ p.whole, Json.isDigit c = true)
    (hWhole' : ∀ c ∈ p'.whole, Json.isDigit c = true)
    (hText : p.text = p'.text) :
    p = p' := by
  have hPart :
      ∀ q : Pointed, (∀ c ∈ q.whole, Json.isDigit c = true) →
        q.text.takeWhile Json.isDigit = q.whole ∧
          q.text.dropWhile Json.isDigit = '.' :: q.decimals := by
    intro q hDigits
    have hPoint : Json.isDigit '.' = false := by decide
    constructor
    · unfold text
      rw [List.takeWhile_append_of_pos hDigits,
        List.takeWhile_cons_of_neg (by simp [hPoint]),
        List.append_nil]
    · unfold text
      rw [List.dropWhile_append_of_pos hDigits,
        List.dropWhile_cons_of_neg (by simp [hPoint])]
  have hFirst := hPart p hWhole
  have hSecond := hPart p' hWhole'
  rw [hText] at hFirst
  rcases p with ⟨whole, decimals⟩
  rcases p' with ⟨whole', decimals'⟩
  have hSame := hFirst.1.symm.trans hSecond.1
  have hRest := hFirst.2.symm.trans hSecond.2
  exact Pointed.mk.injEq _ _ _ _ |>.mpr
    ⟨hSame, (List.cons.inj hRest).2⟩

/- Digits that are laid out without an exponent are usual. -/
theorem isUsual_of_layout
    {d : Decimal}
    (hPos : 0 < d.digits)
    (hWhole : ∀ c ∈ p.whole, Json.isDigit c = true)
    (hDigits :
      ∀ c ∈ NumberFormat.usual.layout d,
        Json.isDigit c = true ∨ c = '.')
    (hText : NumberFormat.usual.layout d = p.text) :
    p.IsUsual := by
  unfold NumberFormat.layout at hText hDigits
  dsimp only at hText hDigits
  split at hText
  · next hRange =>
      rw [Bool.and_eq_true, decide_eq_true_eq] at hRange
      have hLow :
          (-4 : Int) ≤
            d.exponent + (NumberFormat.digits d.digits).length - 1 :=
        hRange.1
      rcases exists_positional (isLeading_significant hPos)
          (getLast?_significant _)
          (d.exponent + (NumberFormat.digits d.digits).length - 1 +
            1)
          (by omega) with
        ⟨q, hUsual, hSame⟩
      rw [← text_injective hUsual.whole.digits hWhole
        (hSame.symm.trans hText)]
      exact hUsual
  · next hRange =>
      rw [if_neg hRange] at hDigits
      have hLetter :
          'e' ∈ NumberFormat.usual.scientific
            (NumberFormat.significant
              (NumberFormat.digits d.digits))
            (d.exponent +
              (NumberFormat.digits d.digits).length - 1) := by
        unfold NumberFormat.scientific
        simp
      exact absurd (hDigits 'e' hLetter) (by decide)

/- A number is written in usual digits, or not in digits. -/
theorem isUsual_of_write
    {x : Binary64}
    (hCanonical : x.IsCanonical)
    (hWhole : ∀ c ∈ p.whole, Json.isDigit c = true)
    (hDecimals : ∀ c ∈ p.decimals, Json.isDigit c = true)
    (hWrite : NumberFormat.usual.write x = String.ofList p.text) :
    p.IsUsual := by
  have hText : (NumberFormat.usual.write x).toList = p.text := by
    rw [hWrite, String.toList_ofList]
  have hDigits :
      ∀ c ∈ (NumberFormat.usual.write x).toList,
        Json.isDigit c = true ∨ c = '.' := by
    intro c hMem
    rw [hText] at hMem
    rcases List.mem_append.mp hMem with hMem | hMem
    · exact Or.inl (hWhole c hMem)
    · rcases List.mem_cons.mp hMem with rfl | hMem
      · exact Or.inr rfl
      · exact Or.inl (hDecimals c hMem)
  cases x with
  | nan => exact absurd (hDigits 'n' (by decide)) (by decide)
  | infinite negative =>
      cases negative with
      | true => exact absurd (hDigits 'n' (by decide)) (by decide)
      | false => exact absurd (hDigits 'n' (by decide)) (by decide)
  | finite negative mantissa exponent =>
      cases negative with
      | true =>
          have hSign :
              '-' ∈ (NumberFormat.usual.write
                (.finite true mantissa exponent)).toList := by
            unfold NumberFormat.write
            simp
          exact absurd (hDigits '-' hSign) (by decide)
      | false =>
          rcases Nat.eq_zero_or_pos mantissa with rfl | hMantissa
          · have hZero : text ⟨['0'], ['0']⟩ = p.text := by
              rw [← hText]
              show _ = (String.ofList ['0', '.', '0']).toList
              rw [String.toList_ofList]
              rfl
            rw [← text_injective (by decide) hWhole hZero]
            exact isUsual_zero
          · rw [write_finite hMantissa, String.toList_ofList]
              at hText hDigits
            exact isUsual_of_layout
              ((Decimal.encloses_shortest hCanonical hMantissa
                ).digits_pos hCanonical hMantissa)
              hWhole hDigits hText

end Pointed

end BiomeMigration
