import ChangeFeed.Json.Numeral
import ChangeFeed.Proofs.Json.Grammar
import ChangeFeed.Proofs.Number.DecimalRounding
import ChangeFeed.Proofs.Number.DecimalText

/-!
# The values of JSON numbers

A number in a document spells a decimal number (`Numeral.spells_decimal`). Reading a document rounds
more than once, so what comes out need not be the nearest number, but it is some number:
`Numeral.exists_to_binary` says so for every number within the range of double precision whose
digits fit into 64 bits.
-/

namespace ChangeFeed.Json

open Number (Binary Decimal Format)

namespace Numeral

/-- The exponent that a number carries. -/
def shownExponent (n : Numeral) : Int :=
  match n.exponent with
  | none => 0
  | some (negative, ds) =>
    if negative then -(Decimal.ofDigits ds : Int) else Decimal.ofDigits ds

/-- The decimal number that is spelled. -/
def decimal (n : Numeral) : Decimal :=
  ⟨n.negative, Decimal.ofDigits (n.whole ++ n.fraction), n.shownExponent - n.fraction.length⟩

/-- An exponent is one of a decimal number. -/
theorem spells_shown_exponent {n : Numeral} {cs : List Char} (h : SpellsExponent n.exponent cs) :
    Decimal.SpellsExponent n.shownExponent cs := by
  generalize hexponent : n.exponent = exponent at h
  rw [shownExponent, hexponent]
  cases h with
  | none => exact .none
  | @digits mark negative sign ds hmark hsign hds =>
      exact .digits hmark (Number.spells_sign_iff.mpr hsign) hds.1 hds.2

/-- A number in a document spells a decimal number. -/
theorem spells_decimal {n : Numeral} {cs : List Char} (h : SpellsNumeral n cs) :
    n.decimal.Spells cs := by
  obtain ⟨fraction, exponent, hfraction, hexponent, rfl⟩ := h.parts
  have hsign : Number.SpellsSign n.negative (if n.negative then ['-'] else []) := by
    cases n.negative with
    | true => exact .minus
    | false => exact .none
  have htail := spells_shown_exponent hexponent
  refine ⟨_, _, hsign, ?_, rfl⟩
  generalize hdigits : n.fraction = ds at hfraction
  cases hfraction with
  | none =>
      have hwhole := Decimal.SpellsMagnitude.whole h.digits.1 h.digits.2 htail
      simpa [decimal, hdigits] using hwhole
  | digits hds =>
      have hpoint := Decimal.SpellsMagnitude.point (.inl h.digits.1) h.digits.2 hds.2 htail
      simpa [decimal, hdigits] using hpoint

/-! ## Digits that fit -/

/-- Further digits only make a number greater. -/
theorem le_foldl_digits (coefficient : Nat) (ds : List Char) :
    coefficient ≤ ds.foldl (fun n c => 10 * n + (c.toNat - '0'.toNat)) coefficient := by
  induction ds generalizing coefficient with
  | nil => exact Nat.le_refl _
  | cons c ds ih =>
      have hnext : coefficient ≤ 10 * coefficient + (c.toNat - '0'.toNat) := by omega
      exact hnext.trans (ih _)

/-- Digits that fit into 64 bits are kept. -/
theorem absorb_of_lt {coefficient : Nat} {ds : List Char}
    (h : ds.foldl (fun n c => 10 * n + (c.toNat - '0'.toNat)) coefficient < 2 ^ 64) :
    absorb coefficient ds =
      (ds.foldl (fun n c => 10 * n + (c.toNat - '0'.toNat)) coefficient, ds.length) := by
  induction ds generalizing coefficient with
  | nil => rfl
  | cons c ds ih =>
      have hnext : 10 * coefficient + (c.toNat - '0'.toNat) < Nat.pow 2 64 :=
        (le_foldl_digits _ ds).trans_lt h
      simp only [absorb, if_pos hnext, ih h, List.foldl_cons, List.length_cons]

/-- A number whose digits fit into 64 bits is its digits times a power of ten. -/
theorem to_binary_eq {n : Numeral} (h : n.decimal.coefficient < 2 ^ 64) :
    n.toBinary =
      (scaledByTen (Format.double.round n.decimal.coefficient 1) n.decimal.exponent).bind
        fun magnitude =>
          if h : magnitude ≤ Format.double.infinity then some (.signed n.negative magnitude h)
          else none := by
  have hall : n.decimal.coefficient =
      n.fraction.foldl (fun n c => 10 * n + (c.toNat - '0'.toNat)) (Decimal.ofDigits n.whole) :=
    Decimal.of_digits_append n.whole n.fraction
  have hfraction := absorb_of_lt (hall ▸ h)
  have hwhole : absorb 0 n.whole = (Decimal.ofDigits n.whole, n.whole.length) :=
    absorb_of_lt ((le_foldl_digits _ n.fraction).trans_lt (hall ▸ h))
  have hexponent : n.decimal.exponent = match n.exponent with
      | none => ((n.whole.length - n.whole.length : Nat) : Int) - n.fraction.length
      | some (negative, ds) =>
        if negative then
          ((n.whole.length - n.whole.length : Nat) : Int) - n.fraction.length -
            Int.ofNat (Decimal.ofDigits ds)
        else
          ((n.whole.length - n.whole.length : Nat) : Int) - n.fraction.length +
            Int.ofNat (Decimal.ofDigits ds) := by
    show n.shownExponent - n.fraction.length = _
    rw [shownExponent, Nat.sub_self]
    cases n.exponent with
    | none => simp
    | some exponent =>
        obtain ⟨negative, ds⟩ := exponent
        cases negative <;> simp <;> omega
  rw [hexponent, toBinary, hwhole]
  simp only [hfraction, ← hall]
  rfl

/-! ## Products that are finite -/

/-- A product is a rounded quotient. -/
theorem product_eq (a b : Nat) :
    product a b = Format.double.round
      ((Binary.quotientOf Format.double a).1 * (Binary.quotientOf Format.double b).1)
      ((Binary.quotientOf Format.double a).2 * (Binary.quotientOf Format.double b).2) :=
  rfl

/-- The denominators of two quotients multiply to no zero. -/
theorem product_denominator_pos (a b : Nat) :
    0 < (Binary.quotientOf Format.double a).2 * (Binary.quotientOf Format.double b).2 :=
  Nat.mul_pos (Format.double.quotient_of_pos a) (Format.double.quotient_of_pos b)

/-- The quotient that a product rounds is the product of the two values. -/
theorem product_quotient_eq (a b : Nat) :
    (((Binary.quotientOf Format.double a).1 * (Binary.quotientOf Format.double b).1 : Nat) : ℚ) /
      ((Binary.quotientOf Format.double a).2 * (Binary.quotientOf Format.double b).2 : Nat) =
    Format.double.value a * Format.double.value b := by
  rw [← Format.quotient_of_value, ← Format.quotient_of_value, div_mul_div_comm]
  push_cast
  rfl

/-- Products of greater magnitudes are not less. -/
theorem product_le {a a' b b' : Nat} (ha : a ≤ a') (hb : b ≤ b') : product a b ≤ product a' b' := by
  rw [product_eq, product_eq]
  apply Format.round_le_round Format.double_in_range.hidden_even (product_denominator_pos a b)
    (product_denominator_pos a' b')
  rw [product_quotient_eq, product_quotient_eq]
  exact mul_le_mul (Format.value_le_value ha) (Format.value_le_value hb)
    (Format.double.value_nonneg b) (Format.double.value_nonneg a')

/-- Of two whole numbers the greater one has no lesser magnitude. -/
theorem round_whole_le {a b : Nat} (h : a ≤ b) :
    Format.double.round a 1 ≤ Format.double.round b 1 := by
  apply Format.round_le_round Format.double_in_range.hidden_even Nat.one_pos Nat.one_pos
  simpa using h

/-- The largest number of double precision, which is whole. -/
def largestWhole : Nat := (2 ^ 53 - 1) * 2 ^ 971

/-- The largest finite number stands for that whole one. -/
theorem double_largest_eq : Format.double.largest = largestWhole := by
  have hat : Format.double.IsAt (Format.double.infinity - 1) 2045 (2 ^ 53 - 1) :=
    ⟨by decide, by decide, by decide⟩
  have hexponent : Format.double.minExponent + (2045 : Nat) = (971 : Nat) := by decide
  have hcast (top : Nat) :
      (((2 ^ 53 - 1) * 2 ^ top : Nat) : ℚ) = ((2 ^ 53 - 1 : Nat) : ℚ) * 2 ^ top := by
    push_cast
    rfl
  rw [Format.largest, hat.value_eq, Format.unit, hexponent, zpow_natCast, largestWhole, hcast]

/-- Seventeen digits times a power of ten stay finite if they are within the range exactly. -/
theorem product_most_lt : ∀ more < 18,
    product (Format.double.round (min (10 ^ 17) (largestWhole / 10 ^ (291 + more))) 1)
      (powerOfTen (291 + more)) < Format.double.infinity := by
  decide +kernel

/-- A product of seventeen digits with a power of ten is finite if it is within the range
exactly. -/
theorem product_lt_infinity {coefficient exponent : Nat} (hdigits : coefficient ≤ 10 ^ 17)
    (hexponent : exponent ≤ lastPower) (hrange : coefficient * 10 ^ exponent ≤ largestWhole) :
    product (Format.double.round coefficient 1) (powerOfTen exponent) < Format.double.infinity := by
  have hpower {n m : Nat} (h : n ≤ m) : powerOfTen n ≤ powerOfTen m :=
    round_whole_le (Nat.pow_le_pow_right (by omega) h)
  -- Up to this power any seventeen digits will do; beyond it the range leaves room for fewer.
  by_cases hsmall : exponent ≤ 291
  · have hroom : 10 ^ 17 ≤ min (10 ^ 17) (largestWhole / 10 ^ (291 + 0)) := by decide +kernel
    calc product (Format.double.round coefficient 1) (powerOfTen exponent)
        ≤ product (Format.double.round (min (10 ^ 17) (largestWhole / 10 ^ (291 + 0))) 1)
            (powerOfTen (291 + 0)) :=
          product_le (round_whole_le (hdigits.trans hroom)) (hpower hsmall)
      _ < Format.double.infinity := product_most_lt 0 (by omega)
  · obtain ⟨more, rfl⟩ := Nat.exists_eq_add_of_le (Nat.le_of_not_le hsmall)
    have hquotient : coefficient ≤ largestWhole / 10 ^ (291 + more) :=
      (Nat.le_div_iff_mul_le (Nat.pow_pos (by omega))).mpr hrange
    have hmore : more < 18 := by
      unfold lastPower at hexponent
      omega
    calc product (Format.double.round coefficient 1) (powerOfTen (291 + more))
        ≤ product (Format.double.round (min (10 ^ 17) (largestWhole / 10 ^ (291 + more))) 1)
            (powerOfTen (291 + more)) :=
          product_le (round_whole_le (le_min hdigits hquotient)) (le_refl _)
      _ < Format.double.infinity := product_most_lt more hmore

/-! ## Some number comes out -/

/-- A quotient is not beyond infinity. -/
theorem quotient_le (a b : Nat) : quotient a b ≤ Format.double.infinity :=
  Format.round_le_infinity _ _ _

/-- Dividing by powers of ten does not lead beyond infinity. -/
theorem scaled_down_le (magnitude n : Nat) (h : magnitude ≤ Format.double.infinity) :
    scaledDown magnitude n ≤ Format.double.infinity := by
  fun_induction scaledDown magnitude n with
  | case1 => exact quotient_le _ _
  | case2 => exact Nat.zero_le _
  | case3 magnitude n _ _ ih => exact ih (quotient_le _ _)

/-- Seventeen digits times a power of ten have a magnitude if they are within the range. -/
theorem exists_scaled_by_ten {coefficient : Nat} {exponent : Int}
    (hdigits : coefficient ≤ 10 ^ 17)
    (hrange : (coefficient : ℚ) * 10 ^ exponent ≤ Format.double.largest) :
    ∃ magnitude ≤ Format.double.infinity,
      scaledByTen (Format.double.round coefficient 1) exponent = some magnitude := by
  have hcoefficient := Format.double.round_le_infinity coefficient 1
  rcases lt_or_ge exponent 0 with hnegative | hnonneg
  · exact ⟨_, scaled_down_le _ _ hcoefficient, if_pos hnegative⟩
  · obtain ⟨n, rfl⟩ := Int.eq_ofNat_of_zero_le hnonneg
    rw [double_largest_eq, zpow_natCast] at hrange
    have hwhole : coefficient * 10 ^ n ≤ largestWhole := by exact_mod_cast hrange
    rw [scaledByTen, if_neg (not_lt.mpr hnonneg), Int.toNat_natCast]
    by_cases hpower : n ≤ lastPower
    · have hlt := product_lt_infinity hdigits hpower hwhole
      exact ⟨_, hlt.le, by rw [if_pos hpower, if_neg hlt.ne]⟩
    · have hzero : coefficient = 0 := by
        by_contra hne
        have hlarge : largestWhole < 10 ^ (lastPower + 1) := by decide +kernel
        have hten : 10 ^ (lastPower + 1) ≤ 10 ^ n := Nat.pow_le_pow_right (by omega) (by omega)
        have hfirst : 10 ^ n ≤ coefficient * 10 ^ n :=
          Nat.le_mul_of_pos_left _ (Nat.pos_of_ne_zero hne)
        omega
      subst hzero
      exact ⟨0, Nat.zero_le _, by rw [if_neg hpower]; rfl⟩

/-- A number within the range of double precision whose digits are few has some value. -/
theorem exists_to_binary {n : Numeral} (hdigits : n.decimal.coefficient ≤ 10 ^ 17)
    (hrange : n.decimal.magnitude ≤ Format.double.largest) : ∃ x, n.toBinary = some x := by
  obtain ⟨magnitude, hle, heq⟩ := exists_scaled_by_ten hdigits hrange
  refine ⟨.signed n.negative magnitude hle, ?_⟩
  rw [to_binary_eq (by omega), heq]
  simp [hle]

end Numeral

end ChangeFeed.Json
