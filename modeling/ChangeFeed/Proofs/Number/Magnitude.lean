import ChangeFeed.Number.Binary
import Mathlib.Algebra.Order.Field.Rat
import Mathlib.Tactic.FieldSimp
import Mathlib.Tactic.Linarith
import Mathlib.Tactic.NormNum
import Mathlib.Tactic.Positivity
import Mathlib.Tactic.Ring

/-!
# The values of magnitudes

Which rational number a magnitude of a format stands for (`Format.value`), and that the magnitudes
stand in the order of their values. Every magnitude is a significand at a place (`Format.IsAt`); the
place settles how far the next magnitude is away. From infinity on magnitudes are taken to go on
like those below, so that nothing here has to mind the end of a format.
-/

namespace ChangeFeed.Number

/-- A power is a quotient of two powers whose exponents are natural numbers. -/
theorem zpow_eq_div {base : ℚ} (h : base ≠ 0) (exponent : Int) :
    base ^ exponent = base ^ exponent.toNat / base ^ (-exponent).toNat := by
  have hexponent : exponent = (exponent.toNat : Int) - ((-exponent).toNat : Int) := by omega
  conv_lhs => rw [hexponent]
  rw [zpow_sub₀ h, zpow_natCast, zpow_natCast]

namespace Format

variable {f : Format} {magnitude place significand : Nat}

/-- The rational number that a magnitude stands for. -/
def value (f : Format) (magnitude : Nat) : ℚ :=
  (f.decode magnitude).1 * 2 ^ (f.decode magnitude).2

/-- The distance between the magnitudes at a place. -/
def unit (f : Format) (place : Nat) : ℚ :=
  2 ^ (f.minExponent + place)

/-- The number in the middle between a magnitude and the next one. -/
def middle (f : Format) (magnitude : Nat) : ℚ :=
  (f.value magnitude + f.value (magnitude + 1)) / 2

/-- A magnitude has its significand at a place. All bits of the significand are in use, except at
the lowest place. -/
structure IsAt (f : Format) (magnitude place significand : Nat) : Prop where
  magnitude_eq : magnitude = place * f.hidden + significand
  significand_lt : significand < 2 * f.hidden
  in_use : place = 0 ∨ f.hidden ≤ significand

/-! ## Places -/

/-- The smallest significand with all bits in use is positive. -/
theorem hidden_pos (f : Format) : 0 < f.hidden :=
  Nat.pow_pos Nat.two_pos

/-- A unit is positive. -/
theorem unit_pos (f : Format) (place : Nat) : 0 < f.unit place :=
  zpow_pos two_pos _

/-- The unit doubles from place to place. -/
theorem unit_succ (f : Format) (place : Nat) : f.unit (place + 1) = 2 * f.unit place := by
  have hexponent : f.minExponent + (place + 1 : Nat) = 1 + (f.minExponent + place) := by
    push_cast
    ring
  rw [unit, unit, hexponent, zpow_add₀ two_ne_zero, zpow_one]

/-- Every magnitude has its significand somewhere. -/
theorem exists_at (f : Format) (magnitude : Nat) :
    ∃ place significand, f.IsAt magnitude place significand := by
  have hpos := f.hidden_pos
  have hdivmod := Nat.div_add_mod' magnitude f.hidden
  have hmod := Nat.mod_lt magnitude hpos
  cases hfield : magnitude / f.hidden with
  | zero =>
      refine ⟨0, magnitude % f.hidden, ⟨?_, by omega, .inl rfl⟩⟩
      rw [hfield] at hdivmod
      omega
  | succ place =>
      refine ⟨place, f.hidden + magnitude % f.hidden, ⟨?_, by omega, .inr (by omega)⟩⟩
      rw [hfield, Nat.succ_mul] at hdivmod
      omega

/-- A magnitude is decoded as its significand and the exponent of its place. -/
theorem IsAt.decode_eq (h : f.IsAt magnitude place significand) :
    f.decode magnitude = (significand, f.minExponent + place) := by
  obtain ⟨rfl, hlt, huse⟩ := h
  have hpos := f.hidden_pos
  by_cases hall : f.hidden ≤ significand
  · obtain ⟨fraction, rfl⟩ := Nat.exists_eq_add_of_le hall
    have hfraction : fraction < f.hidden := by omega
    have heq : place * f.hidden + (f.hidden + fraction) = fraction + f.hidden * (place + 1) := by
      ring
    have hdiv : (place * f.hidden + (f.hidden + fraction)) / f.hidden = place + 1 := by
      rw [heq, Nat.add_mul_div_left _ _ hpos, Nat.div_eq_of_lt hfraction, Nat.zero_add]
    have hmod : (place * f.hidden + (f.hidden + fraction)) % f.hidden = fraction := by
      rw [heq, Nat.add_mul_mod_self_left, Nat.mod_eq_of_lt hfraction]
    simp [decode, hdiv, hmod]
  · obtain rfl : place = 0 := huse.resolve_right hall
    have hsmall : significand < f.hidden := Nat.lt_of_not_le hall
    simp [decode, Nat.div_eq_of_lt hsmall, Nat.mod_eq_of_lt hsmall]

/-- The value of a magnitude is its significand in units of its place. -/
theorem IsAt.value_eq (h : f.IsAt magnitude place significand) :
    f.value magnitude = significand * f.unit place := by
  rw [value, h.decode_eq, unit]

/-- With an even number of magnitudes at each place, a magnitude is even if its significand is. -/
theorem IsAt.parity_eq (h : f.IsAt magnitude place significand) (heven : f.hidden % 2 = 0) :
    magnitude % 2 = significand % 2 := by
  rw [h.magnitude_eq, Nat.add_mod, Nat.mul_mod, heven]
  simp

/-- The value of a significand at a place, also of the first one that belongs to the next place. -/
theorem value_of_le (huse : place = 0 ∨ f.hidden ≤ significand)
    (hle : significand ≤ 2 * f.hidden) :
    f.value (place * f.hidden + significand) = significand * f.unit place := by
  have hpos := f.hidden_pos
  rcases Nat.lt_or_eq_of_le hle with hlt | rfl
  · have hat : f.IsAt (place * f.hidden + significand) place significand := ⟨rfl, hlt, huse⟩
    exact hat.value_eq
  · have hat : f.IsAt (place * f.hidden + 2 * f.hidden) (place + 1) f.hidden :=
      ⟨by ring, by omega, .inr (le_refl _)⟩
    rw [hat.value_eq, unit_succ]
    push_cast
    ring

/-- The next magnitude is one unit away. -/
theorem IsAt.value_succ (h : f.IsAt magnitude place significand) :
    f.value (magnitude + 1) = (significand + 1) * f.unit place := by
  obtain ⟨rfl, hlt, huse⟩ := h
  have hnext : f.value (place * f.hidden + (significand + 1)) =
      (significand + 1 : Nat) * f.unit place :=
    value_of_le (huse.imp_right fun hall => by omega) (by omega)
  rw [← Nat.add_assoc] at hnext
  rw [hnext]
  push_cast
  rfl

/-- The middle in front of the next magnitude is half a unit away. -/
theorem IsAt.middle_eq (h : f.IsAt magnitude place significand) :
    f.middle magnitude = (significand + 1 / 2) * f.unit place := by
  rw [middle, h.value_eq, h.value_succ]
  ring

/-! ## Order -/

/-- A magnitude stands for less than the next one. -/
theorem value_lt_succ (f : Format) (magnitude : Nat) :
    f.value magnitude < f.value (magnitude + 1) := by
  obtain ⟨place, significand, hat⟩ := f.exists_at magnitude
  rw [hat.value_eq, hat.value_succ]
  have hunit := f.unit_pos place
  linarith

/-- Magnitudes stand in the order of their values. -/
theorem value_strict_mono (f : Format) : StrictMono f.value :=
  strictMono_nat_of_lt_succ f.value_lt_succ

/-- Of two magnitudes the greater one stands for more. -/
theorem value_le_value {m n : Nat} (h : m ≤ n) : f.value m ≤ f.value n :=
  f.value_strict_mono.monotone h

/-- The magnitude zero stands for zero. -/
@[simp]
theorem value_zero (f : Format) : f.value 0 = 0 := by
  have hpos := f.hidden_pos
  have hat : f.IsAt 0 0 0 := ⟨by simp, by omega, .inl rfl⟩
  rw [hat.value_eq]
  simp

/-- No magnitude stands for less than zero. -/
theorem value_nonneg (f : Format) (magnitude : Nat) : 0 ≤ f.value magnitude :=
  f.value_zero ▸ value_le_value (Nat.zero_le magnitude)

/-- A middle is beyond its magnitude. -/
theorem value_lt_middle (f : Format) (magnitude : Nat) :
    f.value magnitude < f.middle magnitude := by
  have hlt := f.value_lt_succ magnitude
  rw [middle]
  linarith

/-- A middle is in front of the next magnitude. -/
theorem middle_lt_value_succ (f : Format) (magnitude : Nat) :
    f.middle magnitude < f.value (magnitude + 1) := by
  have hlt := f.value_lt_succ magnitude
  rw [middle]
  linarith

/-- The middle in front of a magnitude is below that magnitude. -/
theorem middle_lt_value {m n : Nat} (h : m < n) : f.middle m < f.value n :=
  (f.middle_lt_value_succ m).trans_le (value_le_value h)

/-- A significand at any place is the significand of some magnitude, perhaps at a lower place. -/
theorem exists_value (h : significand < 2 * f.hidden) (place : Nat) :
    ∃ magnitude, f.value magnitude = significand * f.unit place := by
  induction place generalizing significand with
  | zero => exact ⟨0 * f.hidden + significand, value_of_le (.inl rfl) h.le⟩
  | succ place ih =>
      by_cases hall : f.hidden ≤ significand
      · exact ⟨(place + 1) * f.hidden + significand, value_of_le (.inr hall) h.le⟩
      · -- There is room for one more bit.
        have hroom : 2 * significand < 2 * f.hidden := by omega
        obtain ⟨magnitude, hvalue⟩ := ih hroom
        refine ⟨magnitude, ?_⟩
        rw [hvalue, unit_succ]
        push_cast
        ring

/-! ## Quotients -/

/-- A quotient times a power of two stands for that product. -/
theorem scaled_by_two_eq (num den : Nat) (exponent : Int) :
    ((scaledByTwo num den exponent).1 : ℚ) / (scaledByTwo num den exponent).2 =
      (num : ℚ) / den * 2 ^ exponent := by
  rw [zpow_eq_div two_ne_zero, scaledByTwo]
  push_cast [Nat.pow_eq]
  rw [div_mul_div_comm]

/-- Scaling keeps a denominator positive. -/
theorem scaled_by_two_pos {num den : Nat} (h : 0 < den) (exponent : Int) :
    0 < (scaledByTwo num den exponent).2 :=
  Nat.mul_pos h (Nat.pow_pos Nat.two_pos)

/-- The quotient of a magnitude stands for the value of the magnitude. -/
theorem quotient_of_value (f : Format) (magnitude : Nat) :
    ((Binary.quotientOf f magnitude).1 : ℚ) / (Binary.quotientOf f magnitude).2 =
      f.value magnitude := by
  rw [Binary.quotientOf]
  simp only [scaled_by_two_eq, value]
  simp

/-- The quotient of a magnitude has a positive denominator. -/
theorem quotient_of_pos (f : Format) (magnitude : Nat) :
    0 < (Binary.quotientOf f magnitude).2 :=
  scaled_by_two_pos Nat.one_pos _

end Format

end ChangeFeed.Number
