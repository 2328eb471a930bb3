import ChangeFeed.Proofs.Json.Numeral
import ChangeFeed.Proofs.Number.Nearness

/-!
# Powers of ten in rounded steps

A magnitude times a power of ten is one rounded product, or as many rounded quotients as the powers
of ten allow. What comes out is near the exact number by few roundings (`near_scaled_by_ten`): where
the number of steps is not bounded, the first two of them already lead below the least unit. With
few digits and a small power of ten both operands are exact, so there is one rounding only
(`rounds_scaled_by_ten`).
-/

namespace ChangeFeed.Json.Numeral

open Number (Binary Decimal Format)

/-! ## Rounded steps -/

/-- Half the least unit, which a rounding may change a number by if it is very small. -/
def halfLeast : ℚ :=
  Format.double.unit 0 / 2

/-- Half the least unit is positive. -/
theorem half_least_pos : 0 < halfLeast :=
  half_pos (Format.double.unit_pos 0)

/-- Half the least unit is a power of two. -/
theorem half_least_eq : halfLeast = 2 ^ (-1075 : Int) := by
  have hleast : Format.double.minExponent = -1074 := by decide
  rw [halfLeast, Format.unit, hleast, div_eq_mul_inv, ← zpow_sub_one₀ two_ne_zero]
  rfl

/-- A quotient within the range of double precision is rounded to a finite magnitude. -/
theorem rounds_quotient {num den : Nat} (hden : 0 < den)
    (hrange : (num : ℚ) / den ≤ Format.double.largest) :
    Format.double.Rounds ((num : ℚ) / den) (Format.double.round num den) ∧
      Format.double.round num den < Format.double.infinity := by
  obtain ⟨magnitude, hrounds, heq⟩ :=
    Format.exists_rounds_round Format.double_in_range.hidden_even num hden
  have hpos := Format.double_in_range.infinity_pos
  have hle : magnitude ≤ Format.double.infinity - 1 := hrounds.le_of_le_value hrange
  have hsame : Format.double.round num den = magnitude := by omega
  rw [hsame]
  exact ⟨hrounds, by omega⟩

/-- A magnitude stands for every small significand times a power of two. -/
theorem exists_whole {significand : Nat} (h : significand < 2 ^ 53) (place : Nat) :
    ∃ magnitude, Format.double.value magnitude = significand * 2 ^ place := by
  have hunit : Format.double.unit (1074 + place) = 2 ^ place := by
    have hexponent : Format.double.minExponent + ((1074 + place : Nat) : Int) = (place : Int) := by
      have hleast : Format.double.minExponent = -1074 := by decide
      rw [hleast]
      omega
    rw [Format.unit, hexponent, zpow_natCast]
  have hroom : significand < 2 * Format.double.hidden := h
  obtain ⟨magnitude, hvalue⟩ := Format.exists_value hroom (1074 + place)
  exact ⟨magnitude, hvalue.trans (by rw [hunit])⟩

/-- What is rounded to something is at least one if it was before. -/
theorem one_le_value_of_rounds {q : ℚ} {magnitude : Nat}
    (h : Format.double.Rounds q magnitude) (hq : 1 ≤ q) :
    1 ≤ Format.double.value magnitude := by
  obtain ⟨one, hone⟩ := exists_whole (by norm_num : 1 < 2 ^ 53) 0
  have hone : Format.double.value one = 1 := by simpa using hone
  have hle := h.ge_of_value_le (hone.le.trans hq)
  exact hone ▸ Format.value_le_value hle

/-- What zero is rounded to stands for zero. -/
theorem value_of_rounds_zero {q : ℚ} {magnitude : Nat} (h : Format.double.Rounds q magnitude)
    (hq : q = 0) : Format.double.value magnitude = 0 := by
  have hzero : magnitude = 0 :=
    h.unique (by simpa [hq] using Format.double.rounds_value 0)
  rw [hzero, Format.value_zero]

/-- The smallest number that uses all bits of a significand is less than one. -/
theorem least_normal_le_one : Format.double.leastNormal ≤ 1 := by
  have hhidden : (Format.double.hidden : ℚ) = 2 ^ (52 : Int) := by
    rw [Format.cast_hidden]
    rfl
  have hleast : Format.double.minExponent = -1074 := by decide
  rw [Format.leastNormal, hhidden, Format.unit, hleast, ← zpow_add₀ two_ne_zero]
  exact zpow_le_one_of_nonpos₀ one_le_two (by norm_num)

/-- What is zero or not less than one is near to what it is rounded to, without a rest. -/
theorem near_of_rounds {q : ℚ} {magnitude : Nat} (h : Format.double.Rounds q magnitude)
    (hq : q = 0 ∨ 1 ≤ q) : Format.double.Near 1 0 (Format.double.value magnitude) q := by
  rcases hq with hzero | hone
  · simp [Format.Near, value_of_rounds_zero h hzero, hzero]
  · exact h.near_of_normal (least_normal_le_one.trans hone)

/-- A whole number is zero or not less than one. -/
theorem cast_zero_or_one_le (whole : Nat) : (whole : ℚ) = 0 ∨ 1 ≤ (whole : ℚ) := by
  rcases Nat.eq_zero_or_pos whole with rfl | hone
  · exact .inl Nat.cast_zero
  · exact .inr (Nat.one_le_cast.mpr hone)

/-- A whole number within the range of double precision is rounded to a finite magnitude. -/
theorem rounds_whole {whole : Nat} (h : whole ≤ largestWhole) :
    Format.double.Rounds (whole : ℚ) (Format.double.round whole 1) ∧
      Format.double.round whole 1 < Format.double.infinity := by
  have hrange : ((whole : ℚ) / (1 : Nat)) ≤ Format.double.largest := by
    rw [double_largest_eq, Nat.cast_one, div_one]
    exact_mod_cast h
  have hrounds := rounds_quotient Nat.one_pos hrange
  rwa [Nat.cast_one, div_one] at hrounds

/-- Coefficients of 64 bits are within the range. -/
theorem coefficient_le_largest {coefficient : Nat} (h : coefficient < 2 ^ 64) :
    coefficient ≤ largestWhole := by
  have hlarge : 2 ^ 64 ≤ largestWhole := by decide +kernel
  omega

/-- Powers of ten up to the last one are within the range. -/
theorem power_le_largest {n : Nat} (h : n ≤ lastPower) : 10 ^ n ≤ largestWhole := by
  have hlast : 10 ^ lastPower ≤ largestWhole := by decide +kernel
  exact (Nat.pow_le_pow_right (by omega) h).trans hlast

/-- A power of ten is near to its magnitude, which stands for at least one. -/
theorem near_power {n : Nat} (h : n ≤ lastPower) :
    Format.double.Near 1 0 (Format.double.value (powerOfTen n)) (10 ^ n) ∧
      1 ≤ Format.double.value (powerOfTen n) := by
  obtain ⟨hrounds, -⟩ := rounds_whole (power_le_largest h)
  have hcast : ((10 ^ n : Nat) : ℚ) = 10 ^ n := by norm_cast
  have hone : (1 : ℚ) ≤ 10 ^ n := one_le_pow₀ (by norm_num)
  rw [hcast] at hrounds
  exact ⟨near_of_rounds hrounds (.inr hone), one_le_value_of_rounds hrounds hone⟩

variable {a b : Nat}

/-- A product is not beyond infinity. -/
theorem product_le_infinity (a b : Nat) : product a b ≤ Format.double.infinity :=
  Format.round_le_infinity _ _ _

/-- A finite product is the one that is rounded. -/
theorem rounds_product (h : product a b < Format.double.infinity) :
    Format.double.Rounds (Format.double.value a * Format.double.value b) (product a b) := by
  obtain ⟨magnitude, hrounds, heq⟩ :=
    Format.exists_rounds_round Format.double_in_range.hidden_even
      ((Binary.quotientOf Format.double a).1 * (Binary.quotientOf Format.double b).1)
      (product_denominator_pos a b)
  rw [product_quotient_eq] at hrounds
  rw [product_eq, heq] at h ⊢
  have hfinite : min Format.double.infinity magnitude = magnitude := by omega
  rwa [hfinite]

/-- A finite magnitude is within the range. -/
theorem value_le_largest (h : a < Format.double.infinity) :
    Format.double.value a ≤ Format.double.largest :=
  Format.value_le_value (by omega)

/-- A quotient by at least one is rounded to no greater magnitude. -/
theorem rounds_quotient_of (ha : a < Format.double.infinity) (hb : 1 ≤ Format.double.value b) :
    Format.double.Rounds (Format.double.value a / Format.double.value b) (quotient a b) ∧
      quotient a b ≤ a := by
  have hnum : 0 < (Binary.quotientOf Format.double b).1 := by
    by_contra hzero
    rw [← Format.quotient_of_value, Nat.le_zero.mp (not_lt.mp hzero)] at hb
    norm_num at hb
  have hden : 0 < (Binary.quotientOf Format.double a).2 * (Binary.quotientOf Format.double b).1 :=
    Nat.mul_pos (Format.double.quotient_of_pos a) hnum
  have hvalue : (((Binary.quotientOf Format.double a).1 *
      (Binary.quotientOf Format.double b).2 : Nat) : ℚ) /
        ((Binary.quotientOf Format.double a).2 * (Binary.quotientOf Format.double b).1 : Nat) =
      Format.double.value a / Format.double.value b := by
    rw [← Format.quotient_of_value, ← Format.quotient_of_value, div_div_div_eq]
    push_cast
    rfl
  have hle : Format.double.value a / Format.double.value b ≤ Format.double.value a :=
    div_le_self (Format.double.value_nonneg a) hb
  have hrounds : Format.double.Rounds (Format.double.value a / Format.double.value b)
      (quotient a b) := by
    have hquotient := (rounds_quotient hden (hvalue.le.trans (hle.trans (value_le_largest ha)))).1
    rwa [hvalue] at hquotient
  exact ⟨hrounds, hrounds.le_of_le_value hle⟩

/-! ## Scaling -/

/-- A quotient by a power of ten is near by two roundings more. -/
theorem near_quotient {k n : Nat} {rest least x : ℚ} (ha : a < Format.double.infinity)
    (hn : n ≤ lastPower) (hnear : Format.double.Near k rest (Format.double.value a) x)
    (hx : 0 ≤ x) (hrest : 0 ≤ rest) (hleast : 0 < least)
    (hdivisors : least ≤ Format.double.value (powerOfTen n) ∧ least ≤ 10 ^ n) :
    Format.double.Near (k + 2) (Format.double.spread ^ (k + 2) * (halfLeast + rest / least))
      (Format.double.value (quotient a (powerOfTen n))) (x / 10 ^ n) := by
  obtain ⟨hpower, hone⟩ := near_power hn
  obtain ⟨hrounds, -⟩ := rounds_quotient_of ha hone
  have hvalue := Format.double.value_nonneg a
  have hlast := hrounds.near (div_nonneg hvalue (zero_le_one.trans hone))
  have hdiv := hnear.div hpower ⟨hvalue, hx⟩ hrest hleast hdivisors
  have hall := hlast.trans hdiv half_least_pos.le (div_nonneg hrest hleast.le)
  rwa [Nat.add_comm 1 (k + 1)] at hall

/-- Divisions by powers of ten do not lead beyond a magnitude. -/
theorem scaled_down_le_self (ha : a < Format.double.infinity) (n : Nat) :
    scaledDown a n ≤ a := by
  fun_induction scaledDown a n with
  | case1 a n hn => exact (rounds_quotient_of ha (near_power hn).2).2
  | case2 => exact Nat.zero_le _
  | case3 a n _ _ ih =>
      have hle := (rounds_quotient_of ha (near_power (le_refl lastPower)).2).2
      exact (ih (hle.trans_lt ha)).trans hle

/-- The factor of a rounding to double precision. -/
theorem spread_eq : Format.double.spread = 1 + 1 / 2 ^ 53 := by
  have hhidden : Format.double.hidden = 2 ^ 52 := rfl
  rw [Format.spread, hhidden]
  norm_num

/-- The factors of a few roundings are small. -/
theorem spread_pow_le : Format.double.spread ^ 4 ≤ 9 / 8 ∧ Format.double.spread ^ 6 ≤ 9 / 8 := by
  rw [spread_eq]
  norm_num

/-- The first of several divisions is by the last power of ten. -/
theorem scaled_down_step (a : Nat) {n : Nat} (h : lastPower < n) :
    scaledDown a n =
      if a = 0 then 0 else scaledDown (quotient a (powerOfTen lastPower)) (n - lastPower) := by
  rw [scaledDown, dif_neg (Nat.not_le.mpr h)]

/-- What is divided by the last power of ten twice is small against the least unit. -/
theorem divided_twice_le {n : Nat} {x : ℚ} (hx : 0 ≤ x) (hmost : x ≤ 2 ^ 65)
    (hn : lastPower + lastPower ≤ n) : x / 10 ^ n ≤ halfLeast / 16 := by
  have height : (2 : ℚ) ^ (3 * n) ≤ 10 ^ n := by
    rw [pow_mul]
    exact pow_le_pow_left₀ (by norm_num) (by norm_num) n
  have hpos : (0 : ℚ) < 2 ^ (3 * n) := pow_pos two_pos _
  have hfar : 65 - ((3 * n : Nat) : Int) ≤ -1075 - 4 := by
    have hlast : lastPower = 308 := rfl
    omega
  calc x / 10 ^ n ≤ 2 ^ 65 / 2 ^ (3 * n) := div_le_div₀ (hx.trans hmost) hmost hpos height
    _ = 2 ^ (65 - ((3 * n : Nat) : Int)) := by
      rw [zpow_sub₀ two_ne_zero, zpow_natCast]
      rfl
    _ ≤ 2 ^ ((-1075 : Int) - 4) := zpow_le_zpow_right₀ one_le_two hfar
    _ = halfLeast / 16 := by
      rw [zpow_sub₀ two_ne_zero, half_least_eq]
      norm_num

/-- Only zero is near to the magnitude zero, and it stays zero however it is scaled. -/
theorem near_zero_scaled {k : Nat} {x : ℚ} (hzero : a = 0)
    (hnear : Format.double.Near k 0 (Format.double.value a) x) (hx : 0 ≤ x) (factor : ℚ) :
    Format.double.Near 6 (2 * halfLeast) (Format.double.value 0) (x * factor) := by
  have hnone : x ≤ 0 := by simpa [hzero] using hnear.1
  rw [le_antisymm hnone hx, zero_mul, Format.value_zero]
  exact (Format.Near.refl Format.double 0).mono (Nat.zero_le 6)
    (mul_nonneg zero_le_two half_least_pos.le) (le_refl 0) (le_refl 0)

section

variable {x : ℚ} (ha : a < Format.double.infinity)
  (hnear : Format.double.Near 2 0 (Format.double.value a) x) (hx : 0 ≤ x)

include ha hnear hx

/-- Two quotients by powers of ten, the second one not by one, are near by four roundings more. -/
theorem near_two_quotients {m n : Nat} (hm : m ≤ lastPower) (hn : 1 ≤ n ∧ n ≤ lastPower) :
    Format.double.Near 6 (15 / 8 * halfLeast)
      (Format.double.value (quotient (quotient a (powerOfTen m)) (powerOfTen n)))
      (x / 10 ^ (m + n)) := by
  have hpos := half_least_pos
  obtain ⟨hfour, hsix⟩ := spread_pow_le
  obtain ⟨-, hlast⟩ := near_power hm
  obtain ⟨hpower, -⟩ := near_power hn.2
  have hten : (10 : ℚ) ≤ 10 ^ n := le_self_pow₀ (by norm_num) (by omega)
  have htwo : 2 ≤ Format.double.value (powerOfTen n) := by
    have hle := hpower.1
    rw [pow_one, add_zero, spread_eq] at hle
    linarith
  have hfirst := near_quotient ha hm hnear hx (le_refl 0) one_pos
    ⟨hlast, one_le_pow₀ (by norm_num)⟩
  have hfinite := (rounds_quotient_of ha hlast).2.trans_lt ha
  have hfirstRest : 0 ≤ Format.double.spread ^ (2 + 2) * (halfLeast + 0 / 1) := by
    have hspread := Format.double.spread_pow_pos (2 + 2)
    positivity
  have hfirstNonneg : 0 ≤ x / 10 ^ m := div_nonneg hx (pow_nonneg (by norm_num) _)
  have hsecond := near_quotient hfinite hn.2 hfirst hfirstNonneg hfirstRest two_pos
    ⟨htwo, by linarith only [hten]⟩
  rw [div_div, ← pow_add] at hsecond
  refine hsecond.mono (le_refl 6) ?_ (Format.double.value_nonneg _)
    (div_nonneg hx (pow_nonneg (by norm_num) _))
  have hrest : halfLeast + Format.double.spread ^ (2 + 2) * (halfLeast + 0 / 1) / 2 ≤
      25 / 16 * halfLeast := by
    have hscaled := mul_le_mul_of_nonneg_right hfour hpos.le
    rw [zero_div, add_zero]
    linarith only [hscaled]
  calc Format.double.spread ^ 6 *
        (halfLeast + Format.double.spread ^ (2 + 2) * (halfLeast + 0 / 1) / 2)
      ≤ 9 / 8 * (25 / 16 * halfLeast) :=
        mul_le_mul hsix hrest (by positivity) (by norm_num)
    _ ≤ 15 / 8 * halfLeast := by linarith only [hpos]

variable (hmost : x ≤ 2 ^ 65)

include hmost

/-- After two divisions by the last power of ten a magnitude is too small for others to matter. -/
theorem near_scaled_far {n : Nat} (hn : lastPower < n - lastPower) :
    Format.double.Near 6 (2 * halfLeast)
      (Format.double.value (scaledDown (quotient a (powerOfTen lastPower)) (n - lastPower)))
      (x / 10 ^ n) := by
  have hpos := half_least_pos
  have hlast := (near_power (le_refl lastPower)).2
  obtain ⟨-, hfirst⟩ := rounds_quotient_of ha hlast
  obtain ⟨-, hsecond⟩ := rounds_quotient_of (hfirst.trans_lt ha) hlast
  have hle : scaledDown (quotient a (powerOfTen lastPower)) (n - lastPower) ≤
      quotient (quotient a (powerOfTen lastPower)) (powerOfTen lastPower) := by
    rw [scaled_down_step _ hn]
    split
    · exact Nat.zero_le _
    · exact scaled_down_le_self (hsecond.trans_lt (hfirst.trans_lt ha)) _
  have hbound := Format.value_le_value (f := Format.double) hle
  have htwo := (near_two_quotients ha hnear hx (le_refl lastPower) ⟨by decide, le_refl _⟩).2
  have hscaled := mul_le_mul spread_pow_le.2 (divided_twice_le hx hmost (le_refl _))
    (div_nonneg hx (pow_nonneg (by norm_num) _)) (by norm_num)
  have hsmall : x / 10 ^ n ≤ halfLeast / 16 := divided_twice_le hx hmost (by omega)
  have hspread := (Format.double.spread_pow_pos 6).le
  have hleft := mul_nonneg hspread (Format.double.value_nonneg
    (scaledDown (quotient a (powerOfTen lastPower)) (n - lastPower)))
  have hright := mul_nonneg hspread (div_nonneg hx (pow_nonneg (by norm_num : (0 : ℚ) ≤ 10) n))
  constructor
  · linarith only [hsmall, hleft, hpos]
  · linarith only [hbound, htwo, hscaled, hright, hpos]

/-- A magnitude that is divided by a power of ten is near by four roundings more and the least unit,
in however many steps it is divided. -/
theorem near_scaled_down (n : Nat) :
    Format.double.Near 6 (2 * halfLeast) (Format.double.value (scaledDown a n)) (x / 10 ^ n) := by
  have hpos := half_least_pos
  have hquotient : 0 ≤ x / 10 ^ n := div_nonneg hx (pow_nonneg (by norm_num) n)
  rcases le_or_gt n lastPower with hn | hn
  · have hone := near_quotient ha hn hnear hx (le_refl 0) one_pos
      ⟨(near_power hn).2, one_le_pow₀ (by norm_num)⟩
    have hrest : Format.double.spread ^ 4 * (halfLeast + 0 / 1) ≤ 2 * halfLeast := by
      rw [zero_div, add_zero]
      exact mul_le_mul_of_nonneg_right (spread_pow_le.1.trans (by norm_num)) hpos.le
    rw [scaledDown, dif_pos hn]
    exact hone.mono (by omega) hrest (Format.double.value_nonneg _) hquotient
  · rw [scaled_down_step a hn]
    split
    · rename_i hzero
      rw [div_eq_mul_inv]
      exact near_zero_scaled hzero hnear hx _
    · rcases le_or_gt (n - lastPower) lastPower with hrest | hrest
      · have htwo := near_two_quotients ha hnear hx (le_refl lastPower) ⟨by omega, hrest⟩
        rw [Nat.add_sub_cancel' hn.le] at htwo
        rw [scaledDown, dif_pos hrest]
        exact htwo.mono (le_refl 6) (by linarith only [hpos]) (Format.double.value_nonneg _)
          hquotient
      · exact near_scaled_far ha hnear hx hmost hrest

end

/-- A finite product with a power of ten is near by two roundings more. -/
theorem near_product {x : ℚ} (hnear : Format.double.Near 2 0 (Format.double.value a) x)
    (hx : 0 ≤ x) (ha : Format.double.value a = 0 ∨ 1 ≤ Format.double.value a) {n : Nat}
    (hn : n ≤ lastPower) (hfinite : product a (powerOfTen n) < Format.double.infinity) :
    Format.double.Near 4 0 (Format.double.value (product a (powerOfTen n))) (x * 10 ^ n) := by
  obtain ⟨hpower, hone⟩ := near_power hn
  have hvalue := Format.double.value_nonneg a
  have hkind : Format.double.value a * Format.double.value (powerOfTen n) = 0 ∨
      1 ≤ Format.double.value a * Format.double.value (powerOfTen n) :=
    ha.imp (fun hzero => by rw [hzero, zero_mul]) fun hge => one_le_mul_of_one_le_of_one_le hge hone
  have hlast := near_of_rounds (rounds_product hfinite) hkind
  have hmul := hnear.mul hpower ⟨hvalue, hx⟩ ⟨zero_le_one.trans hone, pow_nonneg (by norm_num) n⟩
  simpa using hlast.trans hmul (le_refl 0) (le_refl 0)

/-- The magnitude of no digits stays zero. -/
theorem scaled_by_ten_zero (exponent : Int) : scaledByTen 0 exponent = some 0 := by
  have hpos := Format.double_in_range.infinity_pos
  have hproduct (b : Nat) : product 0 b = 0 := by
    have hnone : (Binary.quotientOf Format.double 0).1 = 0 := rfl
    rw [product_eq, hnone, Nat.zero_mul, Format.round, if_pos rfl]
  rw [scaledByTen]
  split
  · rw [Nat.le_zero.mp (scaled_down_le_self hpos _)]
  · split
    · simp only [hproduct, if_neg hpos.ne]
    · rw [if_pos rfl]

/-- What comes out of a coefficient and a power of ten is near by two roundings more. -/
theorem near_scaled_up {coefficient : Nat} (h : coefficient < 2 ^ 64) {x : ℚ}
    (hnear : Format.double.Near 2 0 (Format.double.value (Format.double.round coefficient 1)) x)
    (hx : 0 ≤ x) {n magnitude : Nat}
    (hscaled : scaledByTen (Format.double.round coefficient 1) n = some magnitude) :
    magnitude < Format.double.infinity ∧
      Format.double.Near 6 (2 * halfLeast) (Format.double.value magnitude) (x * 10 ^ n) := by
  have hpos := half_least_pos
  obtain ⟨hrounds, -⟩ := rounds_whole (coefficient_le_largest h)
  rw [scaledByTen, if_neg (Int.natCast_nonneg n).not_gt, Int.toNat_natCast] at hscaled
  by_cases hn : n ≤ lastPower
  · rw [if_pos hn] at hscaled
    simp only [Option.ite_none_left_eq_some, Option.some.injEq] at hscaled
    obtain ⟨hne, rfl⟩ := hscaled
    have hfinite := lt_of_le_of_ne (product_le_infinity _ _) hne
    have hvalue := (cast_zero_or_one_le coefficient).imp (value_of_rounds_zero hrounds)
      (one_le_value_of_rounds hrounds)
    exact ⟨hfinite, (near_product hnear hx hvalue hn hfinite).mono (by omega) (by linarith)
      (Format.double.value_nonneg _) (mul_nonneg hx (pow_nonneg (by norm_num) n))⟩
  · -- A power of ten beyond the range only leaves a zero.
    rw [if_neg hn] at hscaled
    simp only [Option.ite_none_right_eq_some, Option.some.injEq] at hscaled
    obtain ⟨hzero, rfl⟩ := hscaled
    exact ⟨Format.double_in_range.infinity_pos, near_zero_scaled hzero hnear hx _⟩

/-- What comes out of digits and a power of ten is near the exact number, in whatever steps. -/
theorem near_scaled_by_ten {coefficient : Nat} (h : coefficient < 2 ^ 64) {x : ℚ}
    (hnear : Format.double.Near 1 0 coefficient x) (hx : 0 ≤ x) {exponent : Int} {magnitude : Nat}
    (hscaled : scaledByTen (Format.double.round coefficient 1) exponent = some magnitude) :
    magnitude < Format.double.infinity ∧
      Format.double.Near 6 (2 * halfLeast) (Format.double.value magnitude) (x * 10 ^ exponent) := by
  obtain ⟨hrounds, hfinite⟩ := rounds_whole (coefficient_le_largest h)
  have hnearBoth : Format.double.Near 2 0
      (Format.double.value (Format.double.round coefficient 1)) x := by
    have hone := near_of_rounds hrounds (cast_zero_or_one_le coefficient)
    simpa using hone.trans hnear (le_refl 0) (le_refl 0)
  rcases lt_or_ge exponent 0 with hnegative | hnonneg
  · obtain ⟨n, hn⟩ := Int.eq_ofNat_of_zero_le (neg_nonneg.mpr hnegative.le)
    have hmost : x ≤ 2 ^ 65 := by
      have hdigits : (coefficient : ℚ) ≤ 2 ^ 64 := by exact_mod_cast h.le
      have hle := hnear.1
      rw [spread_eq, pow_one, add_zero] at hle
      linarith
    have hexponent : x / 10 ^ n = x * 10 ^ exponent := by
      rw [← neg_neg exponent, hn, zpow_neg, div_eq_mul_inv]
      rfl
    rw [scaledByTen, if_pos hnegative, hn, Option.some.injEq] at hscaled
    have hnearScaled := near_scaled_down hfinite hnearBoth hx hmost n
    rw [hexponent] at hnearScaled
    subst hscaled
    exact ⟨(scaled_down_le_self hfinite _).trans_lt hfinite, hnearScaled⟩
  · obtain ⟨n, rfl⟩ := Int.eq_ofNat_of_zero_le hnonneg
    rw [zpow_natCast]
    exact near_scaled_up h hnearBoth hx hscaled

/-! ## Exact operands -/

/-- Few bits times a power of two within the range are kept exactly. -/
theorem value_round_whole {significand place : Nat} (h : significand < 2 ^ 53)
    (hrange : significand * 2 ^ place ≤ largestWhole) :
    Format.double.value (Format.double.round (significand * 2 ^ place) 1) =
      (significand * 2 ^ place : Nat) := by
  obtain ⟨magnitude, hvalue⟩ := exists_whole h place
  have hexact : Format.double.value magnitude = (significand * 2 ^ place : Nat) := by
    rw [hvalue, Nat.cast_mul, Nat.cast_pow, Nat.cast_two]
  have hsame := (rounds_whole hrange).1.unique (hexact ▸ Format.double.rounds_value magnitude)
  rw [hsame, hexact]

/-- Coefficients of 53 bits are kept exactly. -/
theorem value_round_coefficient {coefficient : Nat} (h : coefficient < 2 ^ 53) :
    Format.double.value (Format.double.round coefficient 1) = coefficient := by
  have hrange : coefficient * 2 ^ 0 ≤ largestWhole :=
    (Nat.mul_one coefficient).trans_le (coefficient_le_largest (by omega))
  have hexact := value_round_whole h hrange
  rwa [pow_zero, Nat.mul_one] at hexact

/-- The first powers of ten are kept exactly. -/
theorem value_power_of_ten {n : Nat} (h : n ≤ 22) :
    Format.double.value (powerOfTen n) = 10 ^ n := by
  have hten : 5 ^ n * 2 ^ n = 10 ^ n := (Nat.mul_pow 5 2 n).symm
  have hbits : 5 ^ n < 2 ^ 53 := (Nat.pow_le_pow_right (by omega) h).trans_lt (by decide)
  have hrange : 10 ^ n ≤ largestWhole := power_le_largest (h.trans (by decide))
  have hexact := value_round_whole hbits (hten.trans_le hrange)
  rw [hten] at hexact
  rw [powerOfTen]
  exact hexact.trans (Nat.cast_pow 10 n)

/-- What comes out of few digits and a small power of ten is the exact number, rounded once. -/
theorem rounds_scaled_by_ten {coefficient : Nat} (h : coefficient < 2 ^ 53) {exponent : Int}
    (hexponent : -22 ≤ exponent ∧ exponent ≤ 22) {magnitude : Nat}
    (hscaled : scaledByTen (Format.double.round coefficient 1) exponent = some magnitude) :
    Format.double.Rounds (coefficient * 10 ^ exponent) magnitude := by
  have hlast : lastPower = 308 := rfl
  have hcoefficient := value_round_coefficient h
  obtain ⟨-, hfinite⟩ := rounds_whole (coefficient_le_largest (by omega : coefficient < 2 ^ 64))
  rcases lt_or_ge exponent 0 with hnegative | hnonneg
  · obtain ⟨n, hn⟩ := Int.eq_ofNat_of_zero_le (neg_nonneg.mpr hnegative.le)
    obtain ⟨-, hone⟩ := near_power (n := n) (by omega)
    obtain ⟨hrounds, -⟩ := rounds_quotient_of hfinite hone
    have hvalue : (coefficient : ℚ) / 10 ^ n = coefficient * 10 ^ exponent := by
      rw [← neg_neg exponent, hn, zpow_neg, div_eq_mul_inv, zpow_natCast]
    rw [scaledByTen, if_pos hnegative, hn, Int.toNat_natCast, scaledDown, dif_pos (by omega),
      Option.some.injEq] at hscaled
    rw [hcoefficient, value_power_of_ten (by omega), hvalue] at hrounds
    exact hscaled ▸ hrounds
  · obtain ⟨n, rfl⟩ := Int.eq_ofNat_of_zero_le hnonneg
    rw [scaledByTen, if_neg (not_lt.mpr hnonneg), Int.toNat_natCast, if_pos (by omega)] at hscaled
    simp only [Option.ite_none_left_eq_some, Option.some.injEq] at hscaled
    obtain ⟨hne, rfl⟩ := hscaled
    have hrounds := rounds_product (lt_of_le_of_ne (product_le_infinity _ _) hne)
    rwa [hcoefficient, value_power_of_ten (by omega), ← zpow_natCast] at hrounds

end ChangeFeed.Json.Numeral
