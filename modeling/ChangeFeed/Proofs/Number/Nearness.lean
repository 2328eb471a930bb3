import ChangeFeed.Proofs.Number.Rounding

/-!
# Numbers near each other

Two numbers are near each other by some roundings and a rest (`Format.Near`): neither is greater
than the other times a factor for each rounding, and the rest. A number and what it is rounded to
are near by one rounding, and without a rest from the smallest number on that uses all bits of a
significand (`Rounds.near_of_normal`). Products and quotients of near numbers are near, and so is
what is near to something near. `Near.abs_sub_le` turns nearness into a distance.
-/

namespace ChangeFeed.Number.Format

variable {f : Format} {k l : Nat} {a b p q r s rest more : ℚ} {magnitude : Nat}

/-- The factor by which a rounding may change a number. -/
def spread (f : Format) : ℚ :=
  1 + 1 / (2 * f.hidden)

/-- Neither of two numbers is greater than the other by more than some roundings and a rest. -/
def Near (f : Format) (k : Nat) (rest r q : ℚ) : Prop :=
  q ≤ f.spread ^ k * r + rest ∧ r ≤ f.spread ^ k * q + rest

/-- The smallest number that uses all bits of a significand. -/
def leastNormal (f : Format) : ℚ :=
  f.hidden * f.unit 0

/-! ## Factors -/

/-- The factor of a rounding is not less than one. -/
theorem one_le_spread (f : Format) : 1 ≤ f.spread := by
  have hpos : (0 : ℚ) < f.hidden := Nat.cast_pos.mpr f.hidden_pos
  have hunit : (0 : ℚ) ≤ 1 / (2 * f.hidden) := by positivity
  rw [spread]
  linarith

/-- The factors of roundings are not less than one. -/
theorem one_le_spread_pow (f : Format) (k : Nat) : 1 ≤ f.spread ^ k :=
  one_le_pow₀ f.one_le_spread

/-- The factors of roundings are positive. -/
theorem spread_pow_pos (f : Format) (k : Nat) : 0 < f.spread ^ k :=
  zero_lt_one.trans_le (f.one_le_spread_pow k)

/-- Half a unit is at most the share of a number that one rounding may change, if the number has all
bits of a significand in these units. -/
theorem add_half_unit_le {place : Nat} (h : f.hidden * f.unit place ≤ q) :
    q + f.unit place / 2 ≤ f.spread * q := by
  have hpos : (0 : ℚ) < f.hidden := Nat.cast_pos.mpr f.hidden_pos
  have hhalf : f.unit place / 2 = 1 / (2 * f.hidden) * (f.hidden * f.unit place) := by
    field_simp
  have hshare := mul_le_mul_of_nonneg_left h (by positivity : (0 : ℚ) ≤ 1 / (2 * f.hidden))
  rw [spread, hhalf]
  linarith

/-! ## One rounding -/

/-- A magnitude whose significand uses all bits is worth that many of its units. -/
theorem IsAt.all_bits_le {place significand : Nat} (hat : f.IsAt magnitude place significand)
    (hall : f.hidden ≤ significand) : f.hidden * f.unit place ≤ f.value magnitude := by
  rw [hat.value_eq]
  exact mul_le_mul_of_nonneg_right (Nat.cast_le.mpr hall) (f.unit_pos place).le

/-- A number is at most half a unit beyond what it is rounded to. -/
theorem Rounds.le_add_half (h : f.Rounds q magnitude) {place significand : Nat}
    (hat : f.IsAt magnitude place significand) : q ≤ f.value magnitude + f.unit place / 2 := by
  have hnot : ¬f.Passes q magnitude := fun hpasses =>
    absurd ((h magnitude).mp hpasses) (lt_irrefl magnitude)
  have hmiddle : q ≤ f.middle magnitude := not_lt.mp fun hlt => hnot (.inl hlt)
  rw [hat.middle_eq] at hmiddle
  rw [hat.value_eq]
  linarith

/-- What a number is rounded to is at most half a unit beyond the number, in units of the magnitude
before. -/
theorem Rounds.value_le_add_half (h : f.Rounds q (magnitude + 1)) {place significand : Nat}
    (hat : f.IsAt magnitude place significand) :
    f.value (magnitude + 1) ≤ q + f.unit place / 2 ∧ f.value magnitude ≤ q := by
  have hpasses := (h magnitude).mpr (Nat.lt_succ_self magnitude)
  have hmiddle : f.middle magnitude ≤ q := by
    rcases hpasses with hlt | ⟨heq, -⟩
    · exact hlt.le
    · exact heq.le
  refine ⟨?_, hpasses.value_lt.le⟩
  rw [hat.middle_eq] at hmiddle
  rw [hat.value_succ]
  linarith

/-- A number and what it is rounded to are near by one rounding and half the least unit. -/
theorem Rounds.near (h : f.Rounds q magnitude) (hq : 0 ≤ q) :
    f.Near 1 (f.unit 0 / 2) (f.value magnitude) q := by
  have hunit := f.unit_pos 0
  have hvalue := f.value_nonneg magnitude
  have hspread (x : ℚ) (hx : 0 ≤ x) : x ≤ f.spread * x := le_mul_of_one_le_left hx f.one_le_spread
  rw [Near, pow_one]
  constructor
  · obtain ⟨place, significand, hat⟩ := f.exists_at magnitude
    have hle := h.le_add_half hat
    rcases hat.in_use with rfl | hall
    · linarith [hspread _ hvalue]
    · linarith [add_half_unit_le (hat.all_bits_le hall)]
  · cases magnitude with
    | zero =>
        rw [value_zero]
        linarith [hspread q hq]
    | succ lower =>
        obtain ⟨place, significand, hat⟩ := f.exists_at lower
        obtain ⟨hle, hbefore⟩ := h.value_le_add_half hat
        rcases hat.in_use with rfl | hall
        · linarith [hspread q hq]
        · linarith [add_half_unit_le ((hat.all_bits_le hall).trans hbefore)]

/-- From the smallest number on that uses all bits of a significand, a number and what it is rounded
to are near by one rounding. -/
theorem Rounds.near_of_normal (h : f.Rounds q magnitude) (hq : f.leastNormal ≤ q) :
    f.Near 1 0 (f.value magnitude) q := by
  obtain ⟨place, significand, hat⟩ := f.exists_at magnitude
  have hall : f.hidden ≤ significand := by
    rcases hat.in_use with rfl | hall
    · have hleast : f.value (0 * f.hidden + f.hidden) = f.leastNormal :=
        value_of_le (.inl rfl) (by omega)
      have hreached := h.ge_of_value_le (hleast.le.trans hq)
      have hmagnitude := hat.magnitude_eq
      omega
    · exact hall
  rw [Near, pow_one]
  refine ⟨by linarith [h.le_add_half hat, add_half_unit_le (hat.all_bits_le hall)], ?_⟩
  cases magnitude with
  | zero =>
      have hleast : 0 ≤ f.leastNormal := mul_nonneg (Nat.cast_nonneg _) (f.unit_pos 0).le
      have hspread := le_mul_of_one_le_left (hleast.trans hq) f.one_le_spread
      rw [value_zero]
      linarith
  | succ lower =>
      obtain ⟨before, other, hbefore⟩ := f.exists_at lower
      obtain ⟨hle, hlower⟩ := h.value_le_add_half hbefore
      have hshare : f.hidden * f.unit before ≤ q := by
        rcases hbefore.in_use with rfl | hused
        · exact hq
        · exact (hbefore.all_bits_le hused).trans hlower
      linarith [add_half_unit_le hshare]

/-! ## Several roundings -/

/-- A number is near itself. -/
theorem Near.refl (f : Format) (q : ℚ) : f.Near 0 0 q q := by
  simp [Near]

/-- Numbers between the same multiples of a unit are near by one rounding, if the multiples are
great enough. -/
theorem near_of_same_unit {count unit : ℚ} (hcount : 2 * f.hidden ≤ count) (hunit : 0 < unit)
    (hr : count * unit ≤ r ∧ r ≤ (count + 1) * unit)
    (hq : count * unit ≤ q ∧ q ≤ (count + 1) * unit) : f.Near 1 0 r q := by
  have hpos : (0 : ℚ) < 2 * f.hidden := by
    have hhidden : (0 : ℚ) < f.hidden := Nat.cast_pos.mpr f.hidden_pos
    linarith
  have hone : 1 ≤ 1 / (2 * f.hidden) * count := by
    rw [one_div_mul_eq_div, le_div_iff₀ hpos, one_mul]
    exact hcount
  have hspread : (count + 1) * unit ≤ f.spread * (count * unit) :=
    calc (count + 1) * unit ≤ (count + 1 / (2 * f.hidden) * count) * unit :=
          mul_le_mul_of_nonneg_right (by linarith) hunit.le
      _ = f.spread * (count * unit) := by
          rw [spread]
          ring
  have hsteps := f.one_le_spread
  rw [Near, pow_one, add_zero, add_zero]
  constructor
  · exact hq.2.trans (hspread.trans (mul_le_mul_of_nonneg_left hr.1 (by linarith)))
  · exact hr.2.trans (hspread.trans (mul_le_mul_of_nonneg_left hq.1 (by linarith)))

/-- More roundings and a greater rest may be allowed for. -/
theorem Near.mono (h : f.Near k rest r q) (hk : k ≤ l) (hrest : rest ≤ more) (hr : 0 ≤ r)
    (hq : 0 ≤ q) : f.Near l more r q := by
  have hpow : f.spread ^ k ≤ f.spread ^ l := pow_le_pow_right₀ f.one_le_spread hk
  have hscaledR := mul_le_mul_of_nonneg_right hpow hr
  have hscaledQ := mul_le_mul_of_nonneg_right hpow hq
  exact ⟨by linarith [h.1], by linarith [h.2]⟩

/-- What is near to something near is near by all roundings together. The rests grow with the
roundings. -/
theorem Near.trans (h : f.Near k rest r s) (hmore : f.Near l more s q) (hrest : 0 ≤ rest)
    (hmoreRest : 0 ≤ more) : f.Near (k + l) (f.spread ^ (k + l) * (rest + more)) r q := by
  obtain ⟨hsr, hrs⟩ := h
  obtain ⟨hqs, hsq⟩ := hmore
  have hk := f.one_le_spread_pow k
  have hl := f.one_le_spread_pow l
  have hup := mul_le_mul_of_nonneg_left hsr (f.spread_pow_pos l).le
  have hdown := mul_le_mul_of_nonneg_left hsq (f.spread_pow_pos k).le
  rw [Near, pow_add]
  have hgrowK : more ≤ f.spread ^ k * more := le_mul_of_one_le_left hmoreRest hk
  have hgrowL : rest ≤ f.spread ^ l * rest := le_mul_of_one_le_left hrest hl
  have hbothRest : f.spread ^ l * rest ≤ f.spread ^ k * (f.spread ^ l * rest) :=
    le_mul_of_one_le_left (by positivity) hk
  have hbothMore : f.spread ^ k * more ≤ f.spread ^ l * (f.spread ^ k * more) :=
    le_mul_of_one_le_left (by positivity) hl
  constructor <;> nlinarith

/-- Near numbers times near numbers are near by all roundings together. -/
theorem Near.mul (ha : f.Near k 0 a p) (hb : f.Near l 0 b q) (hpos : 0 ≤ a ∧ 0 ≤ p)
    (hposMore : 0 ≤ b ∧ 0 ≤ q) : f.Near (k + l) 0 (a * b) (p * q) := by
  obtain ⟨hpa, hap⟩ := ha
  obtain ⟨hqb, hbq⟩ := hb
  rw [add_zero] at hpa hap hqb hbq
  have hscaled (x y : ℚ) :
      f.spread ^ (k + l) * (x * y) = f.spread ^ k * x * (f.spread ^ l * y) := by
    rw [pow_add]
    ring
  rw [Near, hscaled, hscaled, add_zero, add_zero]
  exact ⟨mul_le_mul hpa hqb hposMore.2 (mul_nonneg (f.spread_pow_pos k).le hpos.1),
    mul_le_mul hap hbq hposMore.1 (mul_nonneg (f.spread_pow_pos k).le hpos.2)⟩

/-- Numbers are near if some multiples of them are. -/
theorem Near.of_scaled {unit : ℚ} (h : f.Near k 0 (r * unit) (q * unit)) (hunit : 0 < unit) :
    f.Near k 0 r q := by
  obtain ⟨hqr, hrq⟩ := h
  rw [add_zero, ← mul_assoc] at hqr hrq
  rw [Near, add_zero, add_zero]
  exact ⟨le_of_mul_le_mul_right hqr hunit, le_of_mul_le_mul_right hrq hunit⟩

/-- Near numbers divided by near numbers are near by all roundings together. The rest is divided by
what the divisors are not less than. -/
theorem Near.div {least : ℚ} (ha : f.Near k rest a p) (hb : f.Near l 0 b q)
    (hpos : 0 ≤ a ∧ 0 ≤ p) (hrest : 0 ≤ rest) (hleast : 0 < least)
    (hdivisors : least ≤ b ∧ least ≤ q) :
    f.Near (k + l) (rest / least) (a / b) (p / q) := by
  obtain ⟨hqb, hbq⟩ := hb
  rw [add_zero] at hqb hbq
  have hside {c d x y : ℚ} (hcd : c ≤ f.spread ^ k * d + rest) (hd : 0 ≤ d) (hx : least ≤ x)
      (hy : least ≤ y) (hyx : y ≤ f.spread ^ l * x) :
      c / x ≤ f.spread ^ (k + l) * (d / y) + rest / least := by
    have hxpos : 0 < x := hleast.trans_le hx
    have hypos : 0 < y := hleast.trans_le hy
    have hratio : d / x ≤ f.spread ^ l * (d / y) := by
      rw [← mul_div_assoc, div_le_div_iff₀ hxpos hypos, mul_right_comm, mul_comm d y]
      exact mul_le_mul_of_nonneg_right hyx hd
    have hscaled := mul_le_mul_of_nonneg_left hratio (f.spread_pow_pos k).le
    calc c / x ≤ (f.spread ^ k * d + rest) / x := div_le_div_of_nonneg_right hcd hxpos.le
      _ = f.spread ^ k * (d / x) + rest / x := by rw [add_div, mul_div_assoc]
      _ ≤ f.spread ^ k * (f.spread ^ l * (d / y)) + rest / least :=
        add_le_add hscaled (div_le_div_of_nonneg_left hrest hleast hx)
      _ = f.spread ^ (k + l) * (d / y) + rest / least := by rw [pow_add, mul_assoc]
  exact ⟨hside ha.1 hpos.1 hdivisors.2 hdivisors.1 hbq,
    hside ha.2 hpos.2 hdivisors.1 hdivisors.2 hqb⟩

/-- The distance of near numbers is the share that their roundings may change, and the rest. -/
theorem Near.abs_sub_le (h : f.Near k rest r q) (hq : 0 ≤ q) :
    |r - q| ≤ (f.spread ^ k - 1) * q + rest := by
  obtain ⟨hqr, hrq⟩ := h
  have hgrow : 0 ≤ f.spread ^ k - 1 := sub_nonneg.mpr (f.one_le_spread_pow k)
  rw [abs_le]
  refine ⟨?_, by linarith⟩
  by_cases hle : r ≤ q
  · have hshare := mul_le_mul_of_nonneg_left hle hgrow
    linarith
  · have hshare := mul_nonneg hgrow hq
    linarith

end ChangeFeed.Number.Format
