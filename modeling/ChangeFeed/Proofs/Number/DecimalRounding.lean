import ChangeFeed.Number.Decimal
import ChangeFeed.Proofs.Number.Decimal
import ChangeFeed.Proofs.Number.Rounding
import Mathlib.Algebra.Order.Field.Power

/-!
# Decimal numbers rounded

The rational number that a decimal number stands for (`Decimal.value`), the powers of ten that it
lies between, and what it is rounded to: `Decimal.to_binary_rounds` says that a decimal number
becomes the magnitude nearest to its value, however long its digits are and however far its
exponent goes.
-/

namespace ChangeFeed.Number

/-! ## Orders of magnitude -/

/-- Decimal digits in front of others are worth a power of ten more. -/
theorem Decimal.of_digits_append_eq (front back : List Char) :
    Decimal.ofDigits (front ++ back) =
      Decimal.ofDigits front * 10 ^ back.length + Decimal.ofDigits back := by
  induction back using List.reverseRecOn with
  | nil => simp [ofDigits]
  | append_singleton back c ih =>
      have hstep (cs : List Char) :
          ofDigits (cs ++ [c]) = 10 * ofDigits cs + (c.toNat - '0'.toNat) := by
        rw [Decimal.of_digits_append]
        rfl
      rw [← List.append_assoc, hstep, ih, hstep, List.length_append, List.length_singleton,
        Nat.pow_succ]
      ring

/-- A digit is worth less than ten. -/
theorem digit_le {c : Char} (h : c.isDigit = true) : c.toNat - '0'.toNat ≤ 9 := by
  simp only [Char.isDigit, Bool.and_eq_true, decide_eq_true_eq] at h
  have hhigh : c.toNat ≤ '9'.toNat := h.2
  have hnine : '9'.toNat = 57 := rfl
  have hzero : '0'.toNat = 48 := rfl
  omega

/-- Digits are worth less than the power of ten of their number. -/
theorem Decimal.of_digits_lt {ds : List Char} (h : ∀ c ∈ ds, c.isDigit = true) :
    Decimal.ofDigits ds < 10 ^ ds.length := by
  induction ds with
  | nil => decide
  | cons c ds ih =>
      have hrest := ih fun d hd => h d (List.mem_cons_of_mem c hd)
      have hdigit : Decimal.ofDigits [c] ≤ 9 := by
        simpa [ofDigits] using digit_le (h c List.mem_cons_self)
      have hsplit := Decimal.of_digits_append_eq [c] ds
      rw [List.singleton_append] at hsplit
      have hscaled := Nat.mul_le_mul_right (10 ^ ds.length) hdigit
      rw [hsplit, List.length_cons, Nat.pow_succ]
      omega

/-- A multiple of a power of ten, as a quotient of natural numbers. -/
theorem multiple_eq (multiple : Nat) (exponent : Int) :
    ((multiple * Nat.pow 10 exponent.toNat : Nat) : ℚ) / (Nat.pow 10 (-exponent).toNat : Nat) =
      multiple * 10 ^ exponent := by
  rw [zpow_eq_div (by norm_num)]
  push_cast [Nat.pow_eq]
  rw [mul_div_assoc]

/-- A power of eight is a power of two. -/
theorem eight_zpow (exponent : Int) : (8 : ℚ) ^ exponent = 2 ^ (3 * exponent) := by
  rw [zpow_mul]
  norm_num

/-- A number is less than the power of ten with as many factors as the number has digits. -/
theorem lt_ten_pow_length (n : Nat) : n < 10 ^ (digits 10 n).length := by
  have hdigits : ∀ c ∈ digits 10 n, c.isDigit = true := fun c hc => is_digit_of_mem_digits hc
  have hlt := Decimal.of_digits_lt hdigits
  rwa [Decimal.of_digits_digits] at hlt

/-- A positive number is at least the power of ten that goes with its first digit. -/
theorem ten_pow_le_of_length {n : Nat} (hpos : 0 < n) :
    10 ^ ((digits 10 n).length - 1) ≤ n := by
  by_contra hlt
  by_cases hwidth : 0 < (digits 10 n).length - 1
  · have hle := length_digits_le hwidth (not_le.mp hlt)
    omega
  · rw [Nat.le_zero.mp (not_lt.mp hwidth), Nat.pow_zero] at hlt
    omega

namespace Decimal

variable {d : Decimal} {f : Format}

/-- The absolute value of a decimal number. -/
def magnitude (d : Decimal) : ℚ :=
  d.coefficient * 10 ^ d.exponent

/-- The rational number that a decimal number stands for. -/
def value (d : Decimal) : ℚ :=
  if d.negative then -d.magnitude else d.magnitude

/-- The exponent of ten behind the first digit of the coefficient. -/
def order (d : Decimal) : Int :=
  (digits 10 d.coefficient).length + d.exponent

/-- An absolute value is not negative. -/
theorem magnitude_nonneg (d : Decimal) : 0 ≤ d.magnitude :=
  mul_nonneg (Nat.cast_nonneg _) (zpow_nonneg (by norm_num) _)

/-- The absolute value is that of the value. -/
theorem abs_value (d : Decimal) : |d.value| = d.magnitude := by
  have hnonneg := d.magnitude_nonneg
  cases hsign : d.negative <;> simp [value, hsign, abs_of_nonneg hnonneg]

/-- A decimal number is below the power of ten of its order. -/
theorem magnitude_lt (d : Decimal) : d.magnitude < 10 ^ d.order := by
  have hlt : (d.coefficient : ℚ) < 10 ^ ((digits 10 d.coefficient).length : Int) := by
    exact_mod_cast lt_ten_pow_length d.coefficient
  rw [magnitude, order, zpow_add₀ (by norm_num)]
  exact mul_lt_mul_of_pos_right hlt (zpow_pos (by norm_num) _)

/-- But for zero, a decimal number is not below the power of ten before that of its order. -/
theorem le_magnitude (h : d.coefficient ≠ 0) : 10 ^ (d.order - 1) ≤ d.magnitude := by
  have hle : ((10 ^ ((digits 10 d.coefficient).length - 1) : Nat) : ℚ) ≤ d.coefficient :=
    Nat.cast_le.mpr (ten_pow_le_of_length (Nat.pos_of_ne_zero h))
  have hlength : 0 < (digits 10 d.coefficient).length :=
    List.length_pos_iff.mpr (digits_ne_nil d.coefficient)
  have horder : d.order - 1 = ((digits 10 d.coefficient).length - 1 : Nat) + d.exponent := by
    rw [order]
    omega
  rw [magnitude, horder, zpow_add₀ (by norm_num), zpow_natCast]
  push_cast at hle
  exact mul_le_mul_of_nonneg_right hle (zpow_nonneg (by norm_num) _)

end Decimal

/-! ## Rounding decimal numbers -/

/-- Rounding takes ties to even significands in a format, and the format lies within the orders of
magnitude that are looked at when a decimal number is rounded. -/
structure Format.IsInRange (f : Format) : Prop where
  two_le_precision : 2 ≤ f.precision
  exponent_bits_pos : 0 < f.exponentBits
  least : -1199 ≤ f.minExponent
  most : 2 ^ (f.exponentBits - 1) ≤ 1200

/-- Numbers of 64 bits are in range. -/
theorem Format.double_in_range : Format.double.IsInRange where
  two_le_precision := by decide
  exponent_bits_pos := by decide
  least := by decide
  most := by decide

/-- Numbers of 32 bits are in range. -/
theorem Format.single_in_range : Format.single.IsInRange where
  two_le_precision := by decide
  exponent_bits_pos := by decide
  least := by decide
  most := by decide

namespace Format.IsInRange

variable {f : Format} (h : f.IsInRange)
include h

/-- The smallest significand with all bits in use is even. -/
theorem hidden_even : f.hidden % 2 = 0 := by
  have hprecision := h.two_le_precision
  obtain ⟨more, hmore⟩ : ∃ more, f.precision - 1 = more + 1 := ⟨f.precision - 2, by omega⟩
  rw [hidden, hmore, Nat.pow_eq, Nat.pow_succ]
  exact Nat.mul_mod_left _ 2

/-- There is a place whose next magnitude is infinity. -/
theorem infinity_at : f.IsAt f.infinity (2 ^ f.exponentBits - 2) f.hidden := by
  have hhidden := f.hidden_pos
  have hbits : 2 ^ 1 ≤ 2 ^ f.exponentBits :=
    Nat.pow_le_pow_right Nat.two_pos h.exponent_bits_pos
  refine ⟨?_, by omega, .inr (le_refl _)⟩
  obtain ⟨places, hplaces⟩ := Nat.exists_eq_add_of_le hbits
  have hfirst : Nat.pow 2 f.exponentBits - 1 = places + 1 := by
    rw [Nat.pow_eq]
    omega
  have hlast : 2 ^ f.exponentBits - 2 = places := by omega
  rw [infinity, hfirst, hlast, Nat.succ_mul]

/-- Infinity is not the first magnitude. -/
theorem infinity_pos : 0 < f.infinity := by
  have hhidden := f.hidden_pos
  have heq := h.infinity_at.magnitude_eq
  omega

/-- Numbers below `10 ^ -400` are rounded to zero. -/
theorem ten_pow_le_middle : (10 : ℚ) ^ (-400 : Int) ≤ f.middle 0 := by
  have hzero : f.IsAt 0 0 0 := ⟨by simp, by have := f.hidden_pos; omega, .inl rfl⟩
  have hsmallest : f.middle 0 = 2 ^ (f.minExponent - 1) := by
    rw [hzero.middle_eq, unit, zpow_sub_one₀ two_ne_zero]
    simp [mul_comm]
  calc (10 : ℚ) ^ (-400 : Int) ≤ 8 ^ (-400 : Int) := by
        rw [zpow_neg, zpow_neg]
        exact inv_anti₀ (by positivity)
          (zpow_le_zpow_left₀ (by norm_num) (by norm_num) (by norm_num))
    _ = 2 ^ (3 * -400 : Int) := eight_zpow _
    _ ≤ f.middle 0 := by
        rw [hsmallest]
        exact zpow_le_zpow_right₀ one_le_two (by have := h.least; omega)

/-- What infinity would stand for, if it were one more number. -/
theorem value_infinity :
    f.value f.infinity = 2 ^ ((2 ^ (f.exponentBits - 1) : Nat) : Int) := by
  have hprecision := h.two_le_precision
  have hbits := h.exponent_bits_pos
  obtain ⟨more, hmore⟩ : ∃ more, f.exponentBits = more + 1 := ⟨f.exponentBits - 1, by omega⟩
  have hpow : 1 ≤ 2 ^ more := Nat.one_le_two_pow
  rw [h.infinity_at.value_eq, cast_hidden, unit, ← zpow_add₀ two_ne_zero, minExponent, hmore]
  simp only [Nat.pow_eq, Nat.add_sub_cancel, Nat.pow_succ]
  generalize 2 ^ more = top at hpow ⊢
  congr 1
  omega

/-- Numbers from `10 ^ 400` on are rounded to infinity. -/
theorem value_infinity_le : f.value f.infinity ≤ (10 : ℚ) ^ (400 : Int) := by
  have hmost := h.most
  calc f.value f.infinity = 2 ^ ((2 ^ (f.exponentBits - 1) : Nat) : Int) := h.value_infinity
    _ ≤ 2 ^ (3 * 400 : Int) := zpow_le_zpow_right₀ one_le_two (by exact_mod_cast hmost)
    _ = 8 ^ (400 : Int) := (eight_zpow _).symm
    _ ≤ 10 ^ (400 : Int) := zpow_le_zpow_left₀ (by norm_num) (by norm_num) (by norm_num)

end Format.IsInRange

namespace Decimal

variable {f : Format}

/-- Rounding a decimal number looks at its order first. -/
theorem to_binary_eq (f : Format) (d : Decimal) :
    d.toBinary f =
      if d.coefficient = 0 ∨ d.order < -400 then Binary.zero f d.negative
      else if 400 < d.order then Binary.infinite f d.negative
      else Binary.ofQuotient f d.negative (d.coefficient * Nat.pow 10 d.exponent.toNat)
        (Nat.pow 10 (-d.exponent).toNat) :=
  rfl

/-- A decimal number becomes the magnitude that its value is rounded to, or infinity if that is
beyond it. -/
theorem to_binary_rounds (h : f.IsInRange) (d : Decimal) :
    ∃ magnitude, f.Rounds d.magnitude magnitude ∧
      d.toBinary f =
        .signed d.negative (min f.infinity magnitude) (Nat.min_le_left _ _) := by
  have hdown : 0 < Nat.pow 10 (-d.exponent).toNat := Nat.pow_pos (by omega)
  obtain ⟨nearest, hrounds, hround⟩ := Format.exists_rounds_round h.hidden_even
    (d.coefficient * Nat.pow 10 d.exponent.toNat) hdown
  rw [multiple_eq, ← magnitude] at hrounds
  rw [to_binary_eq]
  -- What the order alone settles is what rounding the quotient would come to.
  by_cases hsmall : d.coefficient = 0 ∨ d.order < -400
  · refine ⟨0, ?_, by rw [if_pos hsmall]; simp [Binary.zero]⟩
    rcases hsmall with hzero | hbelow
    · have hnone : d.magnitude = f.value 0 := by simp [magnitude, hzero]
      rw [hnone]
      exact f.rounds_value 0
    · have hle : d.magnitude ≤ f.middle 0 :=
        calc d.magnitude ≤ 10 ^ d.order := d.magnitude_lt.le
          _ ≤ 10 ^ (-400 : Int) := zpow_le_zpow_right₀ (by norm_num) hbelow.le
          _ ≤ f.middle 0 := h.ten_pow_le_middle
      refine Format.rounds_of (fun lower hlower => absurd hlower (by omega)) ?_
      rintro (hlt | ⟨-, hodd⟩)
      · exact absurd hle (not_le.mpr hlt)
      · exact absurd hodd (by decide)
  · rw [if_neg hsmall]
    refine ⟨nearest, hrounds, ?_⟩
    by_cases hlarge : 400 < d.order
    · have hbeyond : f.value f.infinity ≤ d.magnitude :=
        calc f.value f.infinity ≤ 10 ^ (400 : Int) := h.value_infinity_le
          _ ≤ 10 ^ (d.order - 1) := zpow_le_zpow_right₀ (by norm_num) (by omega)
          _ ≤ d.magnitude := le_magnitude fun hzero => hsmall (.inl hzero)
      have hinfinite : min f.infinity nearest = f.infinity :=
        min_eq_left (hrounds.ge_of_value_le hbeyond)
      simp only [if_pos hlarge, Binary.infinite, hinfinite]
    · simp only [if_neg hlarge, Binary.ofQuotient, hround]

/-- A decimal number within the range of a format becomes a finite number. -/
theorem to_binary_within (h : f.IsInRange) {d : Decimal} (hrange : d.magnitude ≤ f.largest) :
    ∃ magnitude bounded, f.Rounds d.magnitude magnitude ∧ magnitude < f.infinity ∧
      d.toBinary f = .signed d.negative magnitude bounded := by
  obtain ⟨magnitude, hrounds, heq⟩ := d.to_binary_rounds h
  have hpos := h.infinity_pos
  have hle : magnitude ≤ f.infinity - 1 := hrounds.le_of_le_value hrange
  refine ⟨magnitude, by omega, hrounds, by omega, ?_⟩
  rw [heq]
  simp only [Binary.signed.injEq, true_and]
  omega

end Decimal

end ChangeFeed.Number
