import ChangeFeed.Proofs.Number.Magnitude
import Mathlib.Algebra.Order.Group.Unbundled.Abs
import Mathlib.Data.Nat.Log

/-!
# Rounding

A number is rounded to a magnitude if it is beyond the middles in front of that magnitude and not
beyond the one behind it (`Format.Rounds`). `exists_rounds_round` says that `Format.round` does so,
and `Binary.is_nearest_iff` that the outcome is the nearest of all finite numbers, of two equally
near ones the even one.
-/

namespace ChangeFeed.Number

namespace Format

variable {f : Format} {q r : ℚ} {magnitude other : Nat}

/-- A number is rounded to a greater magnitude than this one: it is beyond the middle behind the
magnitude, or in that middle while the magnitude is odd. -/
def Passes (f : Format) (q : ℚ) (magnitude : Nat) : Prop :=
  f.middle magnitude < q ∨ f.middle magnitude = q ∧ magnitude % 2 = 1

/-- A number is rounded to a magnitude, where magnitudes go on beyond infinity. -/
def Rounds (f : Format) (q : ℚ) (magnitude : Nat) : Prop :=
  ∀ lower, f.Passes q lower ↔ lower < magnitude

/-! ## What is passed -/

/-- A number that passes a magnitude is beyond its value. -/
theorem Passes.value_lt (h : f.Passes q magnitude) : f.value magnitude < q := by
  have hmiddle := f.value_lt_middle magnitude
  rcases h with hlt | ⟨heq, -⟩ <;> linarith

/-- Up to the value of a magnitude nothing passes it. -/
theorem not_passes_of_le (h : q ≤ f.value magnitude) : ¬f.Passes q magnitude :=
  fun hpasses => absurd hpasses.value_lt (not_lt.mpr h)

/-- The value of a magnitude passes those in front of it. -/
theorem passes_of_value_le (h : f.value magnitude ≤ q) (hlt : other < magnitude) :
    f.Passes q other :=
  .inl ((middle_lt_value hlt).trans_le h)

/-- A greater number passes what a smaller one does. -/
theorem Passes.mono (h : f.Passes q magnitude) (hle : q ≤ r) : f.Passes r magnitude := by
  rcases lt_or_eq_of_le hle with hlt | rfl
  · exact .inl (by rcases h with h | ⟨h, -⟩ <;> linarith)
  · exact h

/-- What passes a magnitude passes those in front of it. -/
theorem Passes.of_lt (h : f.Passes q magnitude) (hlt : other < magnitude) : f.Passes q other :=
  passes_of_value_le h.value_lt.le hlt

/-! ## Rounding as a relation -/

/-- It is enough to look at the two middles next to a magnitude. -/
theorem rounds_of (hbelow : ∀ lower, magnitude = lower + 1 → f.Passes q lower)
    (habove : ¬f.Passes q magnitude) : f.Rounds q magnitude := by
  intro lower
  constructor
  · intro hpasses
    by_contra hle
    rcases Nat.lt_or_eq_of_le (Nat.le_of_not_lt hle) with hlt | rfl
    · exact habove (hpasses.of_lt hlt)
    · exact habove hpasses
  · intro hlt
    obtain ⟨last, rfl⟩ := Nat.exists_eq_add_one_of_ne_zero (Nat.ne_zero_of_lt hlt)
    rcases Nat.lt_or_eq_of_le (Nat.le_of_lt_succ hlt) with hbefore | rfl
    · exact (hbelow last rfl).of_lt hbefore
    · exact hbelow lower rfl

/-- A number is rounded to one magnitude only. -/
theorem Rounds.unique (h : f.Rounds q magnitude) (hother : f.Rounds q other) :
    magnitude = other := by
  have hiff (lower : Nat) : lower < magnitude ↔ lower < other :=
    (h lower).symm.trans (hother lower)
  have hle := (hiff other).mp
  have hge := (hiff magnitude).mpr
  omega

/-- Rounding keeps the order. -/
theorem Rounds.mono (h : f.Rounds q magnitude) (hother : f.Rounds r other) (hle : q ≤ r) :
    magnitude ≤ other := by
  by_contra hlt
  have hpasses : f.Passes q other := (h other).mpr (by omega)
  exact absurd ((hother other).mp (hpasses.mono hle)) (lt_irrefl other)

/-- The value of a magnitude is rounded to that magnitude. -/
theorem rounds_value (f : Format) (magnitude : Nat) : f.Rounds (f.value magnitude) magnitude := by
  refine rounds_of ?_ (not_passes_of_le (le_refl _))
  rintro lower rfl
  exact passes_of_value_le (le_refl _) (Nat.lt_succ_self lower)

/-- What is not beyond a value is not rounded beyond its magnitude. -/
theorem Rounds.le_of_le_value (h : f.Rounds q magnitude) (hle : q ≤ f.value other) :
    magnitude ≤ other :=
  h.mono (f.rounds_value other) hle

/-- What reaches a value is rounded to its magnitude at least. -/
theorem Rounds.ge_of_value_le (h : f.Rounds q magnitude) (hle : f.value other ≤ q) :
    other ≤ magnitude :=
  (f.rounds_value other).mono h hle

end Format

/-! ## Rounding quotients -/

/-- The nearest natural number is beyond those whose half has been passed. -/
theorem lt_nearest_even_iff {num den : Nat} (hden : 0 < den) (lower : Nat) :
    lower < nearestEven num den ↔
      (2 * lower + 1) * den < 2 * num ∨ (2 * lower + 1) * den = 2 * num ∧ lower % 2 = 1 := by
  have hdivmod : num / den * den + num % den = num := Nat.div_add_mod' num den
  have hmod := Nat.mod_lt num hden
  have hwhole : 2 * num = (2 * (num / den)) * den + 2 * (num % den) := by
    rw [Nat.mul_assoc]
    omega
  have hodd : (2 * lower + 1) * den = 2 * lower * den + den := by ring
  simp only [nearestEven]
  rcases Nat.lt_trichotomy lower (num / den) with hlt | rfl | hlt
  · -- A whole number in front of the quotient has its half in front of the quotient, too.
    have hstep : (2 * lower + 2) * den ≤ 2 * (num / den) * den :=
      Nat.mul_le_mul_right den (by omega)
    have hexpand : (2 * lower + 2) * den = 2 * lower * den + 2 * den := by ring
    have hpassed : (2 * lower + 1) * den < 2 * num := by omega
    simp only [hpassed, true_or, iff_true]
    split_ifs <;> omega
  · split_ifs <;> omega
  · have hstep : (2 * (num / den) + 2) * den ≤ 2 * lower * den :=
      Nat.mul_le_mul_right den (by omega)
    have hexpand : (2 * (num / den) + 2) * den = 2 * (num / den) * den + 2 * den := by ring
    have hahead : 2 * num < (2 * lower + 1) * den := by omega
    split_ifs <;> omega

/-- The nearest natural number to a rational one, by the halves that have been passed. -/
theorem lt_nearest_even_iff_half (num : Nat) {den : Nat} (hden : 0 < den) (lower : Nat) :
    lower < nearestEven num den ↔
      (lower + 1 / 2 : ℚ) < num / den ∨ (lower + 1 / 2 : ℚ) = num / den ∧ lower % 2 = 1 := by
  have hpos : (0 : ℚ) < den := Nat.cast_pos.mpr hden
  have hcast : ((2 * lower + 1) * den : Nat) = (lower + 1 / 2 : ℚ) * den * 2 := by
    push_cast
    ring
  have hnum : ((2 * num : Nat) : ℚ) = num * 2 := by
    push_cast
    ring
  rw [lt_nearest_even_iff hden, lt_div_iff₀ hpos, eq_div_iff hpos.ne', ← Nat.cast_lt (α := ℚ),
    ← Nat.cast_inj (R := ℚ), hcast, hnum, mul_lt_mul_iff_left₀ two_pos, mul_left_inj' two_ne_zero]

namespace Format

variable {f : Format} {q : ℚ} {num den : Nat}

/-- A quotient lies between the powers of two that the logarithms of its parts give. -/
theorem quotient_between (hnum : num ≠ 0) (hden : den ≠ 0) :
    (2 : ℚ) ^ ((Nat.log2 num : Int) - Nat.log2 den - 1) < num / den ∧
      (num : ℚ) / den < 2 ^ ((Nat.log2 num : Int) - Nat.log2 den + 1) := by
  have hpos : (0 : ℚ) < den := Nat.cast_pos.mpr (Nat.pos_of_ne_zero hden)
  have hnumLow : (2 : ℚ) ^ (Nat.log2 num : Int) ≤ num := by
    exact_mod_cast Nat.log2_self_le hnum
  have hnumHigh : (num : ℚ) < 2 ^ ((Nat.log2 num : Int) + 1) := by
    exact_mod_cast Nat.lt_log2_self (n := num)
  have hdenLow : (2 : ℚ) ^ (Nat.log2 den : Int) ≤ den := by
    exact_mod_cast Nat.log2_self_le hden
  have hdenHigh : (den : ℚ) < 2 ^ ((Nat.log2 den : Int) + 1) := by
    exact_mod_cast Nat.lt_log2_self (n := den)
  rw [lt_div_iff₀ hpos, div_lt_iff₀ hpos]
  constructor
  · calc (2 : ℚ) ^ ((Nat.log2 num : Int) - Nat.log2 den - 1) * den
        < 2 ^ ((Nat.log2 num : Int) - Nat.log2 den - 1) * 2 ^ ((Nat.log2 den : Int) + 1) :=
          mul_lt_mul_of_pos_left hdenHigh (zpow_pos two_pos _)
      _ = 2 ^ (Nat.log2 num : Int) := by
          rw [← zpow_add₀ two_ne_zero]
          congr 1
          ring
      _ ≤ num := hnumLow
  · calc (num : ℚ) < 2 ^ ((Nat.log2 num : Int) + 1) := hnumHigh
      _ = 2 ^ ((Nat.log2 num : Int) - Nat.log2 den + 1) * 2 ^ (Nat.log2 den : Int) := by
          rw [← zpow_add₀ two_ne_zero]
          congr 1
          ring
      _ ≤ 2 ^ ((Nat.log2 num : Int) - Nat.log2 den + 1) * den :=
          mul_le_mul_of_nonneg_left hdenLow (zpow_pos two_pos _).le

/-- The smallest significand with all bits in use is a power of two. -/
theorem cast_hidden (f : Format) : (f.hidden : ℚ) = 2 ^ ((f.precision - 1 : Nat) : Int) := by
  rw [zpow_natCast, hidden]
  push_cast [Nat.pow_eq]
  rfl

/-- A quotient scaled down by a power of two is below a bound if the quotient is below so many of
that power. -/
theorem scaled_lt_iff (num : Nat) (hden : 0 < den) (exponent : Int) (bound : Nat) :
    (scaledByTwo num den (-exponent)).1 < (scaledByTwo num den (-exponent)).2 * bound ↔
      (num : ℚ) / den < bound * 2 ^ exponent := by
  have hpos : (0 : ℚ) < (scaledByTwo num den (-exponent)).2 :=
    Nat.cast_pos.mpr (scaled_by_two_pos hden _)
  have hpower : (0 : ℚ) < 2 ^ exponent := zpow_pos two_pos _
  have hscaled := scaled_by_two_eq num den (-exponent)
  rw [zpow_neg, ← div_eq_mul_inv] at hscaled
  rw [← div_lt_iff₀ hpower, ← hscaled, div_lt_iff₀ hpos, mul_comm (bound : ℚ)]
  exact_mod_cast Iff.rfl

/-- Before it is kept from falling below the least one, the exponent of a quotient is the one at
which the quotient has all bits of a significand in use. -/
theorem exists_exponent (f : Format) (hnum : num ≠ 0) (hden : den ≠ 0) :
    ∃ exponent : Int, f.exponentOf num den = max f.minExponent exponent ∧
      f.hidden * 2 ^ exponent ≤ (num : ℚ) / den ∧
      (num : ℚ) / den < 2 * f.hidden * 2 ^ exponent := by
  obtain ⟨hlow, hhigh⟩ := quotient_between hnum hden
  -- The guess of the logarithms is one too great at most.
  set guess : Int := (Nat.log2 num : Int) - Nat.log2 den - (f.precision - 1 : Nat) with hguess
  have hsmall := scaled_lt_iff num (Nat.pos_of_ne_zero hden) guess f.hidden
  have hdouble : (2 : ℚ) ^ guess = 2 * 2 ^ (guess - 1) := by
    rw [zpow_sub_one₀ two_ne_zero]
    ring
  have hfirst : (f.hidden : ℚ) * 2 ^ (guess - 1) =
      2 ^ ((Nat.log2 num : Int) - Nat.log2 den - 1) := by
    rw [cast_hidden, ← zpow_add₀ two_ne_zero, hguess]
    congr 1
    ring
  have hlast : (f.hidden : ℚ) * 2 ^ (guess + 1) =
      2 ^ ((Nat.log2 num : Int) - Nat.log2 den + 1) := by
    rw [cast_hidden, ← zpow_add₀ two_ne_zero, hguess]
    congr 1
    ring
  refine ⟨_, rfl, ?_⟩
  split_ifs with hbelow
  · have hlt := hsmall.mp hbelow
    rw [hdouble] at hlt
    exact ⟨by linarith, by linarith⟩
  · have hge := not_lt.mp (mt hsmall.mpr hbelow)
    rw [zpow_add_one₀ two_ne_zero] at hlast
    exact ⟨hge, by linarith⟩

/-- The exponent of a quotient belongs to a place with room for the quotient, at which all bits of
a significand are in use unless the place is the lowest one. -/
theorem exists_place (f : Format) (hnum : num ≠ 0) (hden : den ≠ 0) :
    ∃ place : Nat, f.exponentOf num den = f.minExponent + place ∧
      (num : ℚ) / den < 2 * f.hidden * f.unit place ∧
      (place = 0 ∨ f.hidden * f.unit place ≤ (num : ℚ) / den) := by
  obtain ⟨exponent, hexponent, hlow, hhigh⟩ := f.exists_exponent hnum hden
  by_cases hle : f.minExponent ≤ exponent
  · obtain ⟨place, rfl⟩ := Int.le.dest hle
    exact ⟨place, by rw [hexponent, max_eq_right hle], hhigh, .inr hlow⟩
  · have hpower : (2 : ℚ) ^ exponent ≤ f.unit 0 :=
      zpow_le_zpow_right₀ one_le_two (by omega)
    have hroom := mul_le_mul_of_nonneg_left hpower (by positivity : (0 : ℚ) ≤ 2 * f.hidden)
    exact ⟨0, by rw [hexponent, max_eq_left (by omega)]; simp, hhigh.trans_le hroom, .inl rfl⟩

/-- Over units of a place, a number passes a significand as the number of units passes the half
behind that. -/
theorem IsAt.passes_iff {place significand : Nat} (hat : f.IsAt magnitude place significand)
    (heven : f.hidden % 2 = 0) (count : ℚ) :
    f.Passes (count * f.unit place) magnitude ↔
      (significand + 1 / 2 : ℚ) < count ∨
        (significand + 1 / 2 : ℚ) = count ∧ significand % 2 = 1 := by
  have hunit := f.unit_pos place
  rw [Passes, hat.middle_eq, hat.parity_eq heven, mul_lt_mul_iff_left₀ hunit,
    mul_left_inj' hunit.ne']

/-- A number that has a place is rounded to the nearest natural number of units. -/
theorem rounds_nearest_even {place : Nat} (heven : f.hidden % 2 = 0) (hden : 0 < den)
    (hroom : (num : ℚ) / den < 2 * f.hidden)
    (huse : place = 0 ∨ (f.hidden : ℚ) ≤ num / den) :
    f.Rounds ((num : ℚ) / den * f.unit place) (place * f.hidden + nearestEven num den) := by
  have hnearest := lt_nearest_even_iff_half num hden
  have hhidden := f.hidden_pos
  have hunit := f.unit_pos place
  generalize nearestEven num den = nearest at hnearest ⊢
  have hmost : nearest ≤ 2 * f.hidden := by
    by_contra hlt
    have hhalf := (hnearest (2 * f.hidden)).mp (by omega)
    push_cast at hhalf
    rcases hhalf with hbeyond | ⟨heq, -⟩ <;> linarith
  have hleast : place = 0 ∨ f.hidden ≤ nearest := by
    refine huse.imp_right fun hall => ?_
    have hhalf := (hnearest (f.hidden - 1)).mpr (.inl (by
      push_cast [Nat.cast_sub hhidden]
      linarith))
    omega
  apply rounds_of
  · intro lower hlower
    by_cases hfirst : place ≠ 0 ∧ nearest = f.hidden
    · -- The magnitude in front belongs to the place before, but the quotient has come this far.
      have hreached : f.value (lower + 1) ≤ num / den * f.unit place := by
        rw [← hlower, value_of_le hleast hmost, hfirst.2]
        exact mul_le_mul_of_nonneg_right (huse.resolve_left hfirst.1) hunit.le
      exact passes_of_value_le hreached (Nat.lt_succ_self lower)
    · have hpositive : nearest ≠ 0 := by
        rintro rfl
        rcases hleast with rfl | hall <;> omega
      obtain ⟨last, rfl⟩ := Nat.exists_eq_add_one_of_ne_zero hpositive
      have hat : f.IsAt lower place last :=
        ⟨by omega, by omega, by omega⟩
      exact (hat.passes_iff heven _).mpr ((hnearest last).mp (Nat.lt_succ_self last))
  · rcases Nat.lt_or_eq_of_le hmost with hlt | rfl
    · have hat : f.IsAt (place * f.hidden + nearest) place nearest := ⟨rfl, hlt, hleast⟩
      rw [hat.passes_iff heven, ← hnearest]
      exact lt_irrefl nearest
    · apply not_passes_of_le
      rw [value_of_le hleast (le_refl _)]
      push_cast
      exact mul_le_mul_of_nonneg_right hroom.le hunit.le

/-- A quotient is rounded to the nearest magnitude, or to infinity if that is beyond it. -/
theorem exists_rounds_round (heven : f.hidden % 2 = 0) (num : Nat) (hden : 0 < den) :
    ∃ magnitude, f.Rounds ((num : ℚ) / den) magnitude ∧
      f.round num den = min f.infinity magnitude := by
  by_cases hnum : num = 0
  · subst hnum
    refine ⟨0, ?_, by simp [round]⟩
    have hzero := f.rounds_value 0
    rwa [value_zero, ← zero_div (den : ℚ), ← Nat.cast_zero] at hzero
  · obtain ⟨place, hexponent, hroom, huse⟩ := f.exists_place hnum hden.ne'
    have hunit := f.unit_pos place
    have hscaled := scaled_by_two_eq num den (-(f.minExponent + place))
    rw [zpow_neg, ← unit, ← div_eq_mul_inv] at hscaled
    have hback : ((scaledByTwo num den (-(f.minExponent + place))).1 : ℚ) /
        (scaledByTwo num den (-(f.minExponent + place))).2 * f.unit place = num / den := by
      rw [hscaled, div_mul_cancel₀ _ hunit.ne']
    refine ⟨_, ?_, by simp only [round, if_neg hnum, hexponent]; rfl⟩
    rw [← hback]
    have hplace : (f.minExponent + (place : Int) - f.minExponent).toNat = place := by omega
    rw [hplace]
    apply rounds_nearest_even heven (scaled_by_two_pos hden _)
    · rwa [hscaled, div_lt_iff₀ hunit]
    · rwa [hscaled, le_div_iff₀ hunit]

/-- Rounding quotients keeps their order. -/
theorem round_le_round {num' den' : Nat} (heven : f.hidden % 2 = 0) (hden : 0 < den)
    (hden' : 0 < den') (hle : (num : ℚ) / den ≤ (num' : ℚ) / den') :
    f.round num den ≤ f.round num' den' := by
  obtain ⟨magnitude, hrounds, heq⟩ := exists_rounds_round heven num hden
  obtain ⟨magnitude', hrounds', heq'⟩ := exists_rounds_round heven num' hden'
  rw [heq, heq']
  exact min_le_min_left _ (hrounds.mono hrounds' hle)

/-! ## The nearest number -/

/-- What a number is rounded to is not further away than any other magnitude, and nearer than those
if it is odd. -/
theorem Rounds.nearest {magnitude : Nat} (h : f.Rounds q magnitude) (other : Nat) :
    |f.value magnitude - q| ≤ |f.value other - q| ∧
      (|f.value magnitude - q| = |f.value other - q| → other = magnitude ∨ magnitude % 2 = 0) := by
  rcases Nat.lt_trichotomy other magnitude with hlt | rfl | hlt
  · obtain ⟨lower, rfl⟩ := Nat.exists_eq_add_one_of_ne_zero (Nat.ne_zero_of_lt hlt)
    have hpasses := (h lower).mpr (Nat.lt_succ_self lower)
    have hother : f.value other ≤ f.value lower := value_le_value (by omega)
    have hbetween := f.value_lt_succ lower
    have hdistance : |f.value other - q| = q - f.value other := by
      rw [abs_sub_comm, abs_of_nonneg (by linarith [hpasses.value_lt])]
    rw [hdistance]
    unfold Passes middle at hpasses
    rcases hpasses with hbeyond | ⟨hequal, hodd⟩
    · have hnearer : |f.value (lower + 1) - q| < q - f.value other :=
        abs_lt.mpr ⟨by linarith, by linarith⟩
      exact ⟨hnearer.le, fun hequal => absurd hequal hnearer.ne⟩
    · exact ⟨abs_le.mpr ⟨by linarith, by linarith⟩, fun _ => .inr (by omega)⟩
  · exact ⟨le_refl _, fun _ => .inl rfl⟩
  · have hpasses : ¬f.Passes q magnitude := fun hpasses =>
      absurd ((h magnitude).mp hpasses) (lt_irrefl magnitude)
    have hother : f.value (magnitude + 1) ≤ f.value other := value_le_value hlt
    have hbetween := f.value_lt_succ magnitude
    unfold Passes middle at hpasses
    obtain ⟨hle, heven⟩ := not_or.mp hpasses
    have hdistance : |f.value other - q| = f.value other - q :=
      abs_of_nonneg (by linarith)
    rw [hdistance]
    refine ⟨abs_le.mpr ⟨by linarith, by linarith⟩, fun hequal => .inr ?_⟩
    have hmiddle : (f.value magnitude + f.value (magnitude + 1)) / 2 = q := by
      rcases abs_cases (f.value magnitude - q) with ⟨habs, -⟩ | ⟨habs, -⟩ <;> linarith
    by_contra hodd
    exact heven ⟨hmiddle, by omega⟩

end Format

/-- The largest rational number that a finite number of a format stands for. -/
def Format.largest (f : Format) : ℚ :=
  f.value (f.infinity - 1)

/-- Conversely, a number within the range of a format is rounded to a finite magnitude if no other
one is nearer, and none is as near either, unless the magnitude is even. -/
theorem Format.rounds_of_nearest {f : Format} {q : ℚ} {magnitude : Nat}
    (hfinite : magnitude < f.infinity) (hrange : q ≤ f.largest)
    (h : ∀ other < f.infinity, |f.value magnitude - q| ≤ |f.value other - q| ∧
      (|f.value magnitude - q| = |f.value other - q| → other = magnitude ∨ magnitude % 2 = 0)) :
    f.Rounds q magnitude := by
  apply rounds_of
  · rintro lower rfl
    obtain ⟨hle, heven⟩ := h lower (by omega)
    have hbetween := f.value_lt_succ lower
    unfold Passes middle
    by_cases hbeyond : (f.value lower + f.value (lower + 1)) / 2 < q
    · exact .inl hbeyond
    · have hfront : |f.value (lower + 1) - q| = f.value (lower + 1) - q :=
        abs_of_nonneg (by linarith)
      have hmiddle : (f.value lower + f.value (lower + 1)) / 2 = q := by
        rw [hfront] at hle
        rcases abs_cases (f.value lower - q) with ⟨habs, -⟩ | ⟨habs, -⟩ <;> linarith
      have hback : |f.value lower - q| = q - f.value lower := by
        rw [abs_sub_comm, abs_of_nonneg (by linarith)]
      have hparity := heven (by linarith)
      exact .inr ⟨hmiddle, by omega⟩
  · intro hpasses
    rcases Nat.lt_or_eq_of_le (Nat.succ_le_of_lt hfinite) with hnext | hlast
    · obtain ⟨hle, heven⟩ := h (magnitude + 1) hnext
      have hbetween := f.value_lt_succ magnitude
      have hback : |f.value magnitude - q| = q - f.value magnitude := by
        rw [abs_sub_comm, abs_of_nonneg (by linarith [hpasses.value_lt])]
      rw [hback] at hle heven
      unfold Passes middle at hpasses
      rcases abs_cases (f.value (magnitude + 1) - q) with ⟨habs, -⟩ | ⟨habs, -⟩
      · rcases hpasses with hbeyond | ⟨hmiddle, hodd⟩
        · linarith
        · have hparity := heven (by linarith)
          omega
      · linarith
    · have hlargest : f.infinity - 1 = magnitude := by omega
      exact not_passes_of_le (hlargest ▸ hrange) hpasses

namespace Binary

variable {f : Format} {q : ℚ} {magnitude : Nat}

/-- The rational number that a sign and a finite magnitude stand for. -/
def signedValue (f : Format) (negative : Bool) (magnitude : Nat) : ℚ :=
  if negative then -f.value magnitude else f.value magnitude

/-- A finite number is the nearest one to a rational number: no finite number is nearer, and if
another one is equally near, the significand ends in an even bit. -/
def IsNearest (q : ℚ) : Binary f → Prop
  | .nan => False
  | .signed negative magnitude _ =>
    magnitude < f.infinity ∧ ∀ sign other, other < f.infinity →
      |signedValue f negative magnitude - q| ≤ |signedValue f sign other - q| ∧
        (|signedValue f negative magnitude - q| = |signedValue f sign other - q| →
          signedValue f sign other = signedValue f negative magnitude ∨ magnitude % 2 = 0)

/-- With the sign of the number itself, distances are those of the magnitudes. -/
theorem distance_eq (f : Format) (negative : Bool) (magnitude : Nat) (q : ℚ) :
    |signedValue f negative magnitude - (if negative then -q else q)| =
      |f.value magnitude - q| := by
  cases negative with
  | false => rfl
  | true =>
      have hneg : -f.value magnitude - -q = -(f.value magnitude - q) := by ring
      simp only [signedValue, if_true, hneg, abs_neg]

/-- No sign brings a magnitude nearer than the sign of the number itself. -/
theorem distance_le (f : Format) (negative sign : Bool) (magnitude : Nat) (hq : 0 ≤ q) :
    |f.value magnitude - q| ≤ |signedValue f sign magnitude - (if negative then -q else q)| ∧
      (|f.value magnitude - q| = |signedValue f sign magnitude - (if negative then -q else q)| →
        sign = negative ∨ f.value magnitude = 0 ∨ q = 0) := by
  by_cases hsign : sign = negative
  · subst hsign
    exact ⟨(distance_eq f sign magnitude q).ge, fun _ => .inl rfl⟩
  · have hvalue := f.value_nonneg magnitude
    have hsum : |signedValue f sign magnitude - (if negative then -q else q)| =
        f.value magnitude + q := by
      cases sign <;> cases negative <;> simp only [signedValue, if_true, Bool.false_eq_true,
        if_false, not_true] at hsign ⊢
      · rw [sub_neg_eq_add, abs_of_nonneg (by linarith)]
      · rw [← neg_add', abs_neg, abs_of_nonneg (by linarith)]
    rw [hsum]
    refine ⟨abs_le.mpr ⟨by linarith, by linarith⟩, fun hequal => .inr ?_⟩
    rcases abs_cases (f.value magnitude - q) with ⟨habs, -⟩ | ⟨habs, -⟩
    · exact .inr (by linarith)
    · exact .inl (by linarith)

/-- Within the range of a format, the nearest number is the one that a number is rounded to. -/
theorem is_nearest_iff (negative : Bool) (hpos : 0 < f.infinity) (hq : 0 ≤ q)
    (hrange : q ≤ f.largest) (bounded : magnitude ≤ f.infinity) :
    IsNearest (if negative then -q else q) (.signed negative magnitude bounded) ↔
      f.Rounds q magnitude := by
  constructor
  · rintro ⟨hfinite, hnearest⟩
    refine Format.rounds_of_nearest hfinite hrange fun other hother => ?_
    obtain ⟨hle, heq⟩ := hnearest negative other hother
    rw [distance_eq, distance_eq] at hle heq
    refine ⟨hle, fun hequal => (heq hequal).imp_left fun hvalue => ?_⟩
    apply f.value_strict_mono.injective
    cases negative <;> simpa [signedValue] using hvalue
  · intro hround
    have hfinite : magnitude ≤ f.infinity - 1 := hround.le_of_le_value hrange
    refine ⟨by omega, fun sign other _ => ?_⟩
    obtain ⟨hmagnitude, htie⟩ := hround.nearest other
    obtain ⟨hsign, hflip⟩ := distance_le f negative sign other hq
    rw [distance_eq]
    refine ⟨hmagnitude.trans hsign, fun hequal => ?_⟩
    rcases htie (le_antisymm hmagnitude (hequal ▸ hsign)) with rfl | heven
    · left
      rcases hflip hequal with rfl | hzero | rfl
      · rfl
      · simp [signedValue, hzero]
      · have hnone : other = 0 := Nat.le_zero.mp (hround.le_of_le_value (by simp))
        simp [signedValue, hnone]
    · exact .inr heven

end Binary

end ChangeFeed.Number
