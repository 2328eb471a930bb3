import ChangeFeed.Proofs.Number.Rounding

/-!
# Rounding twice

A number that is rounded to a fine format first and then to a coarse one can come out differently
from one that is rounded once: the first rounding may take it into the middle between two numbers
of the coarse format, from where it goes to the even one (`Format.Misleads`). `rounds_twice_iff`
says that this is the only way. `Binary.convert_rounds` says that conversion to another format is
such a second rounding.
-/

namespace ChangeFeed.Number

namespace Format

variable {fine coarse : Format} {q : ℚ} {magnitude : Nat}

/-- A fine format has at least one bit more in its significands than a coarse one, and begins with a
smaller number. -/
structure Refines (fine coarse : Format) : Prop where
  precision_lt : coarse.precision < fine.precision
  precision_pos : 0 < coarse.precision
  exponent_lt : fine.minExponent < coarse.minExponent

/-- Double precision refines single precision. -/
theorem double_refines_single : double.Refines single where
  precision_lt := by decide
  precision_pos := by decide
  exponent_lt := by decide

/-- Halves of coarse units are values of the fine format. -/
theorem Refines.exists_halves (h : fine.Refines coarse) (count : Nat)
    (hcount : count < 4 * coarse.hidden) (place : Nat) :
    ∃ magnitude, fine.value magnitude = count / 2 * coarse.unit place := by
  have hhidden : 2 * coarse.hidden ≤ fine.hidden := by
    have hpositive := h.precision_pos
    have hprecision := h.precision_lt
    have hpower : 2 ^ (coarse.precision - 1 + 1) ≤ 2 ^ (fine.precision - 1) :=
      Nat.pow_le_pow_right Nat.two_pos (by omega)
    rw [hidden, hidden, Nat.pow_eq, Nat.pow_eq]
    omega
  obtain ⟨shift, hshift⟩ := Int.le.dest (Int.add_one_le_of_lt h.exponent_lt)
  have hunit : coarse.unit place = 2 * fine.unit (shift + place) := by
    have hexponent :
        coarse.minExponent + place = 1 + (fine.minExponent + (shift + place : Nat)) := by
      push_cast
      omega
    rw [unit, hexponent, zpow_one_add₀ two_ne_zero, unit]
  have hroom : count < 2 * fine.hidden := by omega
  obtain ⟨magnitude, hvalue⟩ := exists_value hroom (shift + place)
  refine ⟨magnitude, ?_⟩
  rw [hvalue, hunit]
  ring

/-- Every middle of the coarse format is a value of the fine one. -/
theorem Refines.exists_middle (h : fine.Refines coarse) (magnitude : Nat) :
    ∃ middle, fine.value middle = coarse.middle magnitude := by
  obtain ⟨place, significand, hat⟩ := coarse.exists_at magnitude
  have hsignificand := hat.significand_lt
  obtain ⟨middle, hmiddle⟩ := h.exists_halves (2 * significand + 1) (by omega) place
  refine ⟨middle, ?_⟩
  rw [hmiddle, hat.middle_eq]
  push_cast
  ring

/-- Every value of the coarse format is a value of the fine one. -/
theorem Refines.exists_same (h : fine.Refines coarse) (magnitude : Nat) :
    ∃ same, fine.value same = coarse.value magnitude := by
  obtain ⟨place, significand, hat⟩ := coarse.exists_at magnitude
  have hsignificand := hat.significand_lt
  obtain ⟨same, hsame⟩ := h.exists_halves (2 * significand) (by omega) place
  refine ⟨same, ?_⟩
  rw [hsame, hat.value_eq]
  push_cast
  ring

/-- A number is rounded to a middle between two magnitudes from the side of the odd one: the number
itself goes to the odd magnitude, and the middle to the even one. -/
def Misleads (fine coarse : Format) (q : ℚ) : Prop :=
  ∃ middle magnitude, fine.Rounds q middle ∧ fine.value middle = coarse.middle magnitude ∧
    (q < coarse.middle magnitude ∧ magnitude % 2 = 1 ∨
      coarse.middle magnitude < q ∧ magnitude % 2 = 0)

/-- Rounding to the fine format first changes nothing for a middle that is not reached by it. -/
theorem Rounds.passes_iff {first middle : Nat} (h : fine.Rounds q first)
    (hmiddle : fine.value middle = coarse.middle magnitude) (hne : first ≠ middle) :
    coarse.Passes (fine.value first) magnitude ↔ coarse.Passes q magnitude := by
  unfold Passes
  rw [← hmiddle]
  rcases Nat.lt_or_gt_of_ne hne with hlt | hlt
  · have hvalue := fine.value_strict_mono hlt
    have hq : q < fine.value middle := by
      by_contra hle
      exact absurd (h.ge_of_value_le (not_lt.mp hle)) (by omega)
    constructor <;> rintro (hbeyond | ⟨heq, -⟩) <;> linarith
  · have hvalue := fine.value_strict_mono hlt
    have hq : fine.value middle < q := by
      by_contra hle
      exact absurd (h.le_of_le_value (not_lt.mp hle)) (by omega)
    exact ⟨fun _ => .inl hq, fun _ => .inl hvalue⟩

/-- Rounding twice comes to the same as rounding once, unless the first rounding misleads. -/
theorem rounds_twice_iff (hrefines : fine.Refines coarse) {first last : Nat}
    (hfirst : fine.Rounds q first) (hlast : coarse.Rounds (fine.value first) last) :
    coarse.Rounds q last ↔ ¬fine.Misleads coarse q := by
  constructor
  · rintro hdirect ⟨middle, magnitude, hround, hvalue, hside⟩
    obtain rfl := hround.unique hfirst
    have hsame := (hlast magnitude).trans (hdirect magnitude).symm
    rw [hvalue] at hsame
    unfold Passes at hsame
    rcases hside with ⟨hlt, hodd⟩ | ⟨hlt, heven⟩
    · rcases hsame.mp (.inr ⟨rfl, hodd⟩) with hbeyond | ⟨heq, -⟩ <;> linarith
    · rcases hsame.mpr (.inl hlt) with hbeyond | ⟨-, hodd⟩
      · exact absurd hbeyond (lt_irrefl _)
      · omega
  · intro hright magnitude
    rw [← hlast magnitude]
    obtain ⟨middle, hmiddle⟩ := hrefines.exists_middle magnitude
    -- The order to a middle is kept by the first rounding, except where it ends in the middle.
    by_cases hne : first = middle
    · subst hne
      rw [hmiddle]
      unfold Passes
      rcases lt_trichotomy q (coarse.middle magnitude) with hlt | heq | hlt
      · have heven : ¬magnitude % 2 = 1 := fun hodd =>
          hright ⟨first, magnitude, hfirst, hmiddle, .inl ⟨hlt, hodd⟩⟩
        simp [heven, hlt.le]
      · rw [heq]
      · have hodd : ¬magnitude % 2 = 0 := fun heven =>
          hright ⟨first, magnitude, hfirst, hmiddle, .inr ⟨hlt, heven⟩⟩
        simp [hlt, Nat.mod_two_ne_zero.mp hodd]
    · exact (hfirst.passes_iff hmiddle hne).symm

end Format

/-- Conversion of a finite number is rounding its value. -/
theorem Binary.convert_rounds {f g : Format} (heven : g.hidden % 2 = 0) (negative : Bool)
    {magnitude : Nat} (bounded : magnitude ≤ f.infinity) (hfinite : magnitude < f.infinity) :
    ∃ nearest, g.Rounds (f.value magnitude) nearest ∧
      Binary.convert g (.signed negative magnitude bounded) =
        .signed negative (min g.infinity nearest) (Nat.min_le_left _ _) := by
  obtain ⟨nearest, hrounds, hround⟩ := Format.exists_rounds_round heven
    (quotientOf f magnitude).1 (Format.quotient_of_pos f magnitude)
  rw [Format.quotient_of_value] at hrounds
  refine ⟨nearest, hrounds, ?_⟩
  simp only [convert, if_neg hfinite.ne, ofQuotient, hround]

end ChangeFeed.Number
