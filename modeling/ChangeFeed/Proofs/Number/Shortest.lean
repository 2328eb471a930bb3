import ChangeFeed.Number.Shortest
import ChangeFeed.Proofs.Number.DecimalRounding
import ChangeFeed.Proofs.Number.DecimalText
import Mathlib.Data.Nat.Cast.Order.Field

/-!
# The shortest decimal rounds back

The interval around a magnitude holds exactly what is rounded to the magnitude
(`Format.interval_holds_iff`). Seventeen digits are enough for some decimal of every magnitude to
lie in its interval, so the search for the shortest one finds a decimal, and it is rounded back to
the magnitude (`Format.shortest_rounds`).
-/

namespace ChangeFeed.Number

variable {f : Format} {magnitude place significand lower : Nat}

/-! ## Intervals -/

/-- Whether a quotient lies in an interval, by its bounds. -/
theorem Interval.holds_iff (i : Interval) (num den : Nat) :
    i.holds num den = true ↔
      (i.low * den < num * i.denominator ∨ i.low * den = num * i.denominator ∧ i.closed = true) ∧
        (num * i.denominator < i.high * den ∨
          num * i.denominator = i.high * den ∧ i.closed = true) := by
  cases hclosed : i.closed with
  | true => simp [holds, hclosed, le_iff_lt_or_eq]
  | false => simp [holds, hclosed]

namespace Format

/-- The middle in front of a magnitude is half a unit away, or a quarter of one at the first
significand of a place, except for the lowest one. -/
theorem IsAt.middle_before (h : f.IsAt (lower + 1) place significand) :
    f.middle lower =
      (significand - (if significand = f.hidden ∧ 0 < place then 1 / 4 else 1 / 2)) *
        f.unit place := by
  have hhidden := f.hidden_pos
  obtain ⟨heq, hlt, huse⟩ := h
  by_cases hfirst : significand = f.hidden ∧ 0 < place
  · obtain ⟨rfl, hplace⟩ := hfirst
    obtain ⟨place, rfl⟩ := Nat.exists_eq_add_one_of_ne_zero hplace.ne'
    have hexpand : (place + 1) * f.hidden = place * f.hidden + f.hidden := Nat.succ_mul _ _
    have hat : f.IsAt lower place (2 * f.hidden - 1) := ⟨by omega, by omega, .inr (by omega)⟩
    rw [hat.middle_eq, if_pos ⟨rfl, hplace⟩, unit_succ, Nat.cast_sub (by omega)]
    push_cast
    ring
  · rw [if_neg hfirst]
    have hpositive : significand ≠ 0 := by
      rintro rfl
      rcases huse with rfl | hall <;> omega
    obtain ⟨last, rfl⟩ := Nat.exists_eq_add_one_of_ne_zero hpositive
    have hat : f.IsAt lower place last := ⟨by omega, by omega, by omega⟩
    rw [hat.middle_eq]
    push_cast
    ring

/-- The denominator of an interval is positive. -/
theorem interval_denominator_pos (f : Format) (magnitude : Nat) :
    0 < (f.interval magnitude).denominator :=
  Nat.pow_pos Nat.two_pos

/-- The bounds of an interval are counted in quarters of a unit. -/
theorem quarters_eq (f : Format) (count : Nat) (place : Nat) :
    ((count * Nat.pow 2 (f.minExponent + place - 2).toNat : Nat) : ℚ) /
      (Nat.pow 2 (2 - (f.minExponent + place)).toNat : Nat) = count / 4 * f.unit place := by
  have hneg : 2 - (f.minExponent + (place : Int)) = -(f.minExponent + place - 2) := by ring
  have hquarter : f.unit place = 4 * 2 ^ (f.minExponent + (place : Int) - 2) := by
    rw [unit, zpow_sub₀ two_ne_zero]
    norm_num
    ring
  rw [hquarter, zpow_eq_div two_ne_zero, hneg]
  push_cast [Nat.pow_eq]
  ring

/-- An interval lies around the value of its magnitude. -/
theorem interval_value (f : Format) (magnitude : Nat) :
    ((f.interval magnitude).value : ℚ) / (f.interval magnitude).denominator =
      f.value magnitude := by
  obtain ⟨place, significand, hat⟩ := f.exists_at magnitude
  simp only [interval, hat.decode_eq]
  rw [quarters_eq, hat.value_eq]
  push_cast
  ring

/-- An interval goes up to the middle behind its magnitude. -/
theorem interval_high (f : Format) (magnitude : Nat) :
    ((f.interval magnitude).high : ℚ) / (f.interval magnitude).denominator =
      f.middle magnitude := by
  obtain ⟨place, significand, hat⟩ := f.exists_at magnitude
  simp only [interval, hat.decode_eq]
  rw [quarters_eq, hat.middle_eq]
  push_cast
  ring

/-- An interval begins with the middle in front of its magnitude. -/
theorem interval_low (f : Format) (lower : Nat) :
    ((f.interval (lower + 1)).low : ℚ) / (f.interval (lower + 1)).denominator =
      f.middle lower := by
  obtain ⟨place, significand, hat⟩ := f.exists_at (lower + 1)
  have hpositive : 0 < significand := by
    have heq := hat.magnitude_eq
    rcases hat.in_use with rfl | hall
    · omega
    · exact f.hidden_pos.trans_le hall
  have hfirst : f.minExponent < f.minExponent + (place : Int) ↔ 0 < place := by omega
  simp only [interval, hat.decode_eq, hfirst]
  rw [quarters_eq, hat.middle_before]
  split_ifs <;> rw [Nat.cast_sub (by omega)] <;> push_cast <;> ring

/-- The bounds of an interval belong to it if its magnitude is even. -/
theorem interval_closed (heven : f.hidden % 2 = 0) (magnitude : Nat) :
    (f.interval magnitude).closed = decide (magnitude % 2 = 0) := by
  obtain ⟨place, significand, hat⟩ := f.exists_at magnitude
  simp only [interval, hat.decode_eq, hat.parity_eq heven]

/-- An interval holds exactly what is rounded to its magnitude. -/
theorem interval_holds_iff (heven : f.hidden % 2 = 0) {num den : Nat} (hden : 0 < den) :
    (f.interval (lower + 1)).holds num den = true ↔ f.Rounds ((num : ℚ) / den) (lower + 1) := by
  have hpos : (0 : ℚ) < den := Nat.cast_pos.mpr hden
  have hscale : (0 : ℚ) < (f.interval (lower + 1)).denominator :=
    Nat.cast_pos.mpr (f.interval_denominator_pos _)
  have hlow := f.interval_low lower
  have hhigh := f.interval_high (lower + 1)
  have hrounds : f.Rounds ((num : ℚ) / den) (lower + 1) ↔
      f.Passes ((num : ℚ) / den) lower ∧ ¬f.Passes ((num : ℚ) / den) (lower + 1) := by
    constructor
    · intro hround
      exact ⟨(hround lower).mpr (Nat.lt_succ_self lower),
        fun hpasses => absurd ((hround _).mp hpasses) (lt_irrefl _)⟩
    · rintro ⟨hbelow, habove⟩
      refine rounds_of (fun other hother => ?_) habove
      obtain rfl : other = lower := by omega
      exact hbelow
  have hbeyond (bound : Nat) :
      (bound : ℚ) / (f.interval (lower + 1)).denominator < (num : ℚ) / den ↔
        bound * den < num * (f.interval (lower + 1)).denominator := by
    rw [div_lt_div_iff₀ hscale hpos]
    exact_mod_cast Iff.rfl
  have hequal (bound : Nat) :
      (bound : ℚ) / (f.interval (lower + 1)).denominator = (num : ℚ) / den ↔
        bound * den = num * (f.interval (lower + 1)).denominator := by
    rw [div_eq_div_iff hscale.ne' hpos.ne']
    exact_mod_cast Iff.rfl
  rw [hrounds, Passes, Passes, ← hlow, ← hhigh, hbeyond, hbeyond, hequal, hequal,
    Interval.holds_iff, interval_closed heven, decide_eq_true_eq]
  omega

end Format

/-! ## Grids -/

namespace Interval

variable {i : Interval}

/-- From one on, the exponent of the first digit is counted in digits. -/
theorem order_of_ge (hden : 0 < i.denominator) (h : i.denominator ≤ i.value) :
    (10 : ℚ) ^ i.order ≤ i.value / i.denominator ∧
      (i.value : ℚ) / i.denominator < 10 ^ (i.order + 1) := by
  have hpos : (0 : ℚ) < i.denominator := Nat.cast_pos.mpr hden
  have hwhole : 0 < i.value / i.denominator := Nat.div_pos h hden
  have hlength : (digits 10 (i.value / i.denominator)).length ≠ 0 := fun hnone =>
    digits_ne_nil (i.value / i.denominator) (List.length_eq_zero_iff.mp hnone)
  have horder : i.order = ((digits 10 (i.value / i.denominator)).length - 1 : Nat) := by
    rw [order, if_pos h]
  have hnext : i.order + 1 = ((digits 10 (i.value / i.denominator)).length : Nat) := by omega
  rw [hnext, horder, zpow_natCast, zpow_natCast]
  constructor
  · calc (10 : ℚ) ^ ((digits 10 (i.value / i.denominator)).length - 1)
        ≤ (i.value / i.denominator : Nat) := by exact_mod_cast ten_pow_le_of_length hwhole
      _ ≤ i.value / i.denominator := Nat.cast_div_le
  · rw [div_lt_iff₀ hpos]
    have hbelow : i.value < i.denominator * (i.value / i.denominator + 1) :=
      Nat.lt_mul_div_succ i.value hden
    have hdigits := lt_ten_pow_length (i.value / i.denominator)
    have hproduct := Nat.mul_le_mul_left i.denominator (Nat.succ_le_of_lt hdigits)
    rw [mul_comm]
    exact_mod_cast hbelow.trans_le hproduct

/-- Below one, the exponent of the first digit is found by counting zeros. -/
theorem order_of_lt (hden : 0 < i.denominator) (h : i.value < i.denominator)
    (hleast : (10 : ℚ) ^ (-400 : Int) ≤ i.value / i.denominator) :
    (10 : ℚ) ^ i.order ≤ i.value / i.denominator ∧
      (i.value : ℚ) / i.denominator < 10 ^ (i.order + 1) := by
  have hpos : (0 : ℚ) < i.denominator := Nat.cast_pos.mpr hden
  have hreached (count : Nat) : i.denominator ≤ i.value * Nat.pow 10 count ↔
      (10 : ℚ) ^ (-(count : Int)) ≤ i.value / i.denominator := by
    rw [zpow_neg, zpow_natCast, le_div_iff₀ hpos, inv_mul_le_iff₀ (by positivity), mul_comm]
    exact_mod_cast Iff.rfl
  obtain ⟨zeros, hfind⟩ : ∃ zeros, (List.range 400).find? (fun k =>
      decide (i.denominator ≤ i.value * Nat.pow 10 (k + 1))) = some zeros := by
    rw [← Option.isSome_iff_exists, List.find?_isSome]
    obtain ⟨last, hlast⟩ : ∃ last, last + 1 = 400 := ⟨399, rfl⟩
    exact ⟨last, List.mem_range.mpr (by omega),
      decide_eq_true ((hreached (last + 1)).mpr (by rwa [hlast]))⟩
  have horder : i.order = -(zeros + 1 : Nat) := by
    rw [order, if_neg (not_le.mpr h), hfind]
  obtain ⟨hfound, -, hbefore⟩ := List.find?_range_eq_some.mp hfind
  have hnext : i.order + 1 = -(zeros : Int) := by omega
  rw [hnext, horder]
  constructor
  · exact (hreached (zeros + 1)).mp (by simpa using hfound)
  · rw [← not_le, ← hreached]
    cases zeros with
    | zero => simpa using h
    | succ zeros => simpa using hbefore zeros (Nat.lt_succ_self zeros)

/-- A number that is not too small lies between the power of ten of its order and the next one. -/
theorem order_spec (hden : 0 < i.denominator)
    (hleast : (10 : ℚ) ^ (-400 : Int) ≤ i.value / i.denominator) :
    (10 : ℚ) ^ i.order ≤ i.value / i.denominator ∧
      (i.value : ℚ) / i.denominator < 10 ^ (i.order + 1) := by
  rcases Nat.lt_or_ge i.value i.denominator with hlt | hge
  · exact order_of_lt hden hlt hleast
  · exact order_of_ge hden hge

end Interval

/-- The natural number nearest to a quotient is one of its two neighbours. -/
theorem nearest_even_eq_or (num den : Nat) :
    nearestEven num den = num / den ∨ nearestEven num den = num / den + 1 := by
  simp only [nearestEven]
  split_ifs <;> simp

namespace Format

/-- The neighbour of a magnitude on a grid that is below it. -/
def below (f : Format) (magnitude : Nat) (exponent : Int) : Nat :=
  (f.interval magnitude).value * Nat.pow 10 (-exponent).toNat /
    ((f.interval magnitude).denominator * Nat.pow 10 exponent.toNat)

/-- A magnitude lies between its neighbours on a grid. -/
theorem below_spec (f : Format) (magnitude : Nat) (exponent : Int) :
    (f.below magnitude exponent : ℚ) * 10 ^ exponent ≤ f.value magnitude ∧
      f.value magnitude < (f.below magnitude exponent + 1 : Nat) * 10 ^ exponent := by
  have hvalue := f.interval_value magnitude
  have hdenominator := f.interval_denominator_pos magnitude
  have hgrid : (0 : ℚ) < 10 ^ exponent := zpow_pos (by norm_num) _
  set num := (f.interval magnitude).value * Nat.pow 10 (-exponent).toNat with hnum
  set den := (f.interval magnitude).denominator * Nat.pow 10 exponent.toNat with hden
  have hpos : 0 < den := Nat.mul_pos hdenominator (Nat.pow_pos (by omega))
  have hcast : (0 : ℚ) < den := Nat.cast_pos.mpr hpos
  have hquotient : (num : ℚ) / den * 10 ^ exponent = f.value magnitude := by
    rw [← hvalue, zpow_eq_div (by norm_num), hnum, hden]
    push_cast [Nat.pow_eq]
    field_simp
  have hbelow : ((num / den : Nat) : ℚ) ≤ num / den := Nat.cast_div_le
  have habove : (num : ℚ) / den < (num / den + 1 : Nat) := by
    rw [div_lt_iff₀ hcast, mul_comm]
    exact_mod_cast Nat.lt_mul_div_succ num hpos
  rw [← hquotient]
  exact ⟨mul_le_mul_of_nonneg_right hbelow hgrid.le, mul_lt_mul_of_pos_right habove hgrid⟩

/-- A multiple on a grid lies in an interval if it is rounded to the magnitude. -/
theorem interval_holds_multiple (heven : f.hidden % 2 = 0) (lower multiple : Nat) (exponent : Int) :
    (f.interval (lower + 1)).holds (multiple * Nat.pow 10 exponent.toNat)
        (Nat.pow 10 (-exponent).toNat) = true ↔
      f.Rounds (multiple * 10 ^ exponent) (lower + 1) := by
  have hden : 0 < Nat.pow 10 (-exponent).toNat := Nat.pow_pos (by omega)
  exact (interval_holds_iff heven hden).trans (by rw [multiple_eq])

/-- The search on a grid looks at both neighbours. -/
theorem on_grid_eq (f : Format) (magnitude : Nat) (exponent : Int) :
    (f.interval magnitude).onGrid exponent =
      match (f.interval magnitude).holds (f.below magnitude exponent * Nat.pow 10 exponent.toNat)
          (Nat.pow 10 (-exponent).toNat),
        (f.interval magnitude).holds ((f.below magnitude exponent + 1) * Nat.pow 10 exponent.toNat)
          (Nat.pow 10 (-exponent).toNat) with
      | true, true => some (nearestEven
          ((f.interval magnitude).value * Nat.pow 10 (-exponent).toNat)
          ((f.interval magnitude).denominator * Nat.pow 10 exponent.toNat))
      | true, false => some (f.below magnitude exponent)
      | false, true => some (f.below magnitude exponent + 1)
      | false, false => none :=
  rfl

/-- What is found on a grid is one of the two neighbours, and it is rounded to the magnitude. -/
theorem on_grid_some (heven : f.hidden % 2 = 0) {exponent : Int} {multiple : Nat}
    (h : (f.interval (lower + 1)).onGrid exponent = some multiple) :
    (multiple = f.below (lower + 1) exponent ∨ multiple = f.below (lower + 1) exponent + 1) ∧
      f.Rounds (multiple * 10 ^ exponent) (lower + 1) := by
  have hholds (multiple : Nat) := interval_holds_multiple heven lower multiple exponent
  rw [on_grid_eq] at h
  split at h
  · rename_i hbelow habove
    have hnearest := nearest_even_eq_or
      ((f.interval (lower + 1)).value * Nat.pow 10 (-exponent).toNat)
      ((f.interval (lower + 1)).denominator * Nat.pow 10 exponent.toNat)
    rw [Option.some.inj h] at hnearest
    refine ⟨hnearest, ?_⟩
    rcases hnearest with rfl | rfl
    · exact (hholds _).mp hbelow
    · exact (hholds _).mp habove
  · rename_i hbelow _
    obtain rfl := Option.some.inj h
    exact ⟨.inl rfl, (hholds _).mp hbelow⟩
  · rename_i _ habove
    obtain rfl := Option.some.inj h
    exact ⟨.inr rfl, (hholds _).mp habove⟩
  · exact absurd h (by simp)

/-- If nothing is found on a grid, the interval lies between two neighbours. -/
theorem on_grid_none (heven : f.hidden % 2 = 0) {exponent : Int}
    (h : (f.interval (lower + 1)).onGrid exponent = none) :
    f.middle (lower + 1) - f.middle lower ≤ 10 ^ exponent := by
  have hholds (multiple : Nat) := interval_holds_multiple heven lower multiple exponent
  obtain ⟨hle, hlt⟩ := f.below_spec (lower + 1) exponent
  rw [on_grid_eq] at h
  split at h
  · exact absurd h (by simp)
  · exact absurd h (by simp)
  · exact absurd h (by simp)
  · rename_i hbelow habove
    have hfront : (f.below (lower + 1) exponent : ℚ) * 10 ^ exponent ≤ f.middle lower := by
      by_contra hbeyond
      have hround : f.Rounds (f.below (lower + 1) exponent * 10 ^ exponent) (lower + 1) :=
        rounds_of (fun other hother => by
          obtain rfl : other = lower := by omega
          exact .inl (not_le.mp hbeyond)) (not_passes_of_le hle)
      exact Bool.false_ne_true (hbelow.symm.trans ((hholds _).mpr hround))
    have hback : f.middle (lower + 1) ≤
        (f.below (lower + 1) exponent + 1 : Nat) * (10 : ℚ) ^ exponent := by
      by_contra hbeyond
      have hround : f.Rounds ((f.below (lower + 1) exponent + 1 : Nat) * 10 ^ exponent)
          (lower + 1) :=
        rounds_of (fun other hother => passes_of_value_le hlt.le (by omega)) (by
          rintro (hpassed | ⟨heq, -⟩)
          · exact hbeyond hpassed.le
          · exact hbeyond heq.le)
      exact Bool.false_ne_true (habove.symm.trans ((hholds _).mpr hround))
    push_cast at hback
    linarith

/-- A magnitude is less than `10 ^ 16` times as large as its interval is wide. -/
theorem value_lt_width (hprecision : f.precision ≤ 53) (lower : Nat) :
    f.value (lower + 1) < 10 ^ 16 * (f.middle (lower + 1) - f.middle lower) := by
  obtain ⟨place, significand, hat⟩ := f.exists_at (lower + 1)
  have hunit := f.unit_pos place
  have hhidden : f.hidden ≤ 2 ^ 52 := Nat.pow_le_pow_right Nat.two_pos (by omega)
  have hmost : (f.hidden : ℚ) ≤ 2 ^ 52 := by exact_mod_cast hhidden
  have hsignificand : (significand : ℚ) < 2 * f.hidden := by exact_mod_cast hat.significand_lt
  rw [hat.value_eq, hat.middle_eq, hat.middle_before, ← sub_mul, ← mul_assoc]
  apply mul_lt_mul_of_pos_right _ hunit
  split_ifs with hfirst
  · rw [hfirst.1]
    linarith
  · linarith

end Format

/-! ## The shortest decimal -/

/-- The rational number that digits and an exponent stand for. -/
def Scientific.value (s : Scientific) : ℚ :=
  Decimal.ofDigits s.digits * 10 ^ (s.exponent + 1 - s.digits.length)

/-- Digits of a positive number, up to `10 ^ 17`, that do not start with a zero. -/
structure Scientific.IsProper (s : Scientific) : Prop where
  only_digits : OnlyDigits s.digits
  head_ne : ∃ c rest, s.digits = c :: rest ∧ c ≠ '0'
  positive : 0 < Decimal.ofDigits s.digits
  bounded : Decimal.ofDigits s.digits ≤ 10 ^ 17

/-- Digits are what is left without the zeros at their end, and these zeros. -/
theorem stripped_append (ds : List Char) :
    ∃ zeros, (ds.reverse.dropWhile (· == '0')).reverse ++ List.replicate zeros '0' = ds := by
  have hzeros : ∀ c ∈ ds.reverse.takeWhile (· == '0'), c = '0' := fun c hc =>
    beq_iff_eq.mp (List.all_eq_true.mp List.all_takeWhile c hc)
  refine ⟨(ds.reverse.takeWhile (· == '0')).length, ?_⟩
  rw [← List.reverse_replicate, ← List.eq_replicate_of_mem hzeros, ← List.reverse_append,
    List.takeWhile_append_dropWhile, List.reverse_reverse]

namespace Scientific

/-- A multiple of a power of ten has the digits of the number, but for zeros at their end. -/
theorem exists_zeros (multiple : Nat) (exponent : Int) :
    ∃ zeros, (ofMultiple multiple exponent).digits ++ List.replicate zeros '0' =
        Number.digits 10 multiple ∧
      Decimal.ofDigits (ofMultiple multiple exponent).digits * 10 ^ zeros = multiple := by
  obtain ⟨zeros, hzeros⟩ := stripped_append (Number.digits 10 multiple)
  refine ⟨zeros, hzeros, ?_⟩
  have hdigits := Decimal.of_digits_digits multiple
  rwa [← hzeros, Decimal.of_digits_append_eq, Decimal.of_digits_zeros, List.length_replicate,
    Nat.add_zero] at hdigits

/-- A positive multiple of a power of ten is written properly. -/
theorem of_multiple_is_proper {multiple : Nat} (hpos : 0 < multiple) (hbound : multiple ≤ 10 ^ 17)
    (exponent : Int) : (ofMultiple multiple exponent).IsProper := by
  obtain ⟨zeros, hdigits, hworth⟩ := exists_zeros multiple exponent
  generalize hds : (ofMultiple multiple exponent).digits = ds at hdigits hworth
  have hpositive : 0 < Decimal.ofDigits ds := by
    by_contra hzero
    rw [Nat.le_zero.mp (not_lt.mp hzero), Nat.zero_mul] at hworth
    omega
  obtain ⟨c, rest, heq⟩ : ∃ c rest, ds = c :: rest :=
    List.exists_cons_of_ne_nil fun hnil => by
      rw [hnil] at hpositive
      exact absurd hpositive (by decide)
  have hfirst : Number.digits 10 multiple = c :: (rest ++ List.replicate zeros '0') := by
    rw [← hdigits, heq, List.cons_append]
  constructor <;> rw [hds]
  · exact fun d hd => is_digit_of_mem_digits (hdigits ▸ List.mem_append_left _ hd)
  · exact ⟨c, rest, heq, head_digits_ne_zero hpos hfirst⟩
  · exact hpositive
  · calc Decimal.ofDigits ds ≤ Decimal.ofDigits ds * 10 ^ zeros :=
          Nat.le_mul_of_pos_right _ (Nat.pow_pos (by omega))
      _ = multiple := hworth
      _ ≤ 10 ^ 17 := hbound

/-- A multiple of a power of ten stands for what it is. -/
theorem of_multiple_value (multiple : Nat) (exponent : Int) :
    (ofMultiple multiple exponent).value = multiple * 10 ^ exponent := by
  obtain ⟨zeros, hdigits, hworth⟩ := exists_zeros multiple exponent
  have hlength : (Number.digits 10 multiple).length =
      (ofMultiple multiple exponent).digits.length + zeros := by
    rw [← hdigits, List.length_append, List.length_replicate]
  have hpositive : 0 < (Number.digits 10 multiple).length :=
    List.length_pos_iff.mpr (digits_ne_nil multiple)
  have hexponent : (ofMultiple multiple exponent).exponent + 1 -
      (ofMultiple multiple exponent).digits.length = zeros + exponent := by
    show exponent + ((Number.digits 10 multiple).length - 1 : Nat) + 1 - _ = _
    omega
  rw [value, hexponent, zpow_add₀ (by norm_num), zpow_natCast, ← mul_assoc]
  congr 1
  exact_mod_cast hworth

end Scientific

/-- Between two powers of ten, the neighbours on a finer grid are as many units as there are between
these powers. -/
theorem Format.below_bounds {exponent : Int} (finer : Nat)
    (hlow : (10 : ℚ) ^ exponent ≤ f.value magnitude)
    (hhigh : f.value magnitude < 10 ^ (exponent + 1)) :
    10 ^ finer ≤ f.below magnitude (exponent - finer) ∧
      f.below magnitude (exponent - finer) < 10 ^ (finer + 1) := by
  obtain ⟨hle, hlt⟩ := f.below_spec magnitude (exponent - finer)
  have hgrid : (0 : ℚ) < 10 ^ (exponent - finer) := zpow_pos (by norm_num) _
  have hsplit (count : Nat) :
      (10 : ℚ) ^ (exponent - finer + count) =
        ((10 ^ count : Nat) : ℚ) * 10 ^ (exponent - finer) := by
    rw [add_comm, zpow_add₀ (by norm_num), zpow_natCast]
    push_cast
    rfl
  constructor
  · have hfirst := hlow.trans_lt hlt
    have hexponent : exponent = exponent - finer + (finer : Nat) := by ring
    rw [hexponent, hsplit, add_sub_cancel_right] at hfirst
    exact Nat.le_of_lt_succ (Nat.cast_lt.mp (lt_of_mul_lt_mul_right hfirst hgrid.le))
  · have hlast := hle.trans_lt hhigh
    have hexponent : exponent + 1 = exponent - finer + (finer + 1 : Nat) := by
      push_cast
      ring
    rw [hexponent, hsplit] at hlast
    exact Nat.cast_lt.mp (lt_of_mul_lt_mul_right hlast hgrid.le)

/-- A positive magnitude lies between the power of ten of its order and the next one. -/
theorem Format.value_order (h : f.IsInRange) (lower : Nat) :
    (10 : ℚ) ^ (f.interval (lower + 1)).order ≤ f.value (lower + 1) ∧
      f.value (lower + 1) < 10 ^ ((f.interval (lower + 1)).order + 1) := by
  have hleast : (10 : ℚ) ^ (-400 : Int) ≤ f.value (lower + 1) :=
    calc (10 : ℚ) ^ (-400 : Int) ≤ f.middle 0 := h.ten_pow_le_middle
      _ ≤ f.value (lower + 1) := (middle_lt_value (Nat.succ_pos lower)).le
  have horder := Interval.order_spec (f.interval_denominator_pos (lower + 1))
    (by rwa [interval_value])
  rwa [interval_value] at horder

/-- With seventeen digits, the search finds something. -/
theorem Format.on_finest_grid (h : f.IsInRange) (hprecision : f.precision ≤ 53) (lower : Nat) :
    (f.interval (lower + 1)).onGrid ((f.interval (lower + 1)).order - (16 : Nat)) ≠ none := by
  intro hnone
  have hlow := (f.value_order h lower).1
  have hwidth := on_grid_none h.hidden_even hnone
  have hvalue := f.value_lt_width hprecision lower
  -- The grid would be coarser than the interval is wide, but it is `10 ^ 16` times finer than the
  -- magnitude.
  generalize (f.interval (lower + 1)).order = order at hlow hwidth
  have hsplit : (10 : ℚ) ^ order = 10 ^ 16 * 10 ^ (order - (16 : Nat)) := by
    rw [zpow_sub₀ (by norm_num)]
    norm_num
    ring
  linarith

/-- Some decimal with at most seventeen digits is rounded to a positive magnitude, and the search
finds one. -/
theorem Format.exists_shortest (h : f.IsInRange) (hprecision : f.precision ≤ 53) (lower : Nat) :
    ∃ multiple exponent, f.shortest (lower + 1) = Scientific.ofMultiple multiple exponent ∧
      0 < multiple ∧ multiple ≤ 10 ^ 17 ∧ f.Rounds (multiple * 10 ^ exponent) (lower + 1) := by
  obtain ⟨hlow, hhigh⟩ := f.value_order h lower
  have hfinest := on_finest_grid h hprecision lower
  set order := (f.interval (lower + 1)).order with horder
  set search := fun (n : Nat) => ((f.interval (lower + 1)).onGrid (order - (n : Int))).map
    fun multiple => Scientific.ofMultiple multiple (order - (n : Int)) with hsearch
  obtain ⟨found, hfound⟩ : ∃ found, (List.range 17).findSome? search = some found := by
    rw [← Option.isSome_iff_exists, List.findSome?_isSome_iff]
    refine ⟨16, by simp, ?_⟩
    rw [hsearch, Option.isSome_map, Option.isSome_iff_ne_none]
    exact hfinest
  obtain ⟨finer, hfiner, hgrid⟩ := List.exists_of_findSome?_eq_some hfound
  obtain ⟨multiple, hmultiple, rfl⟩ := Option.map_eq_some_iff.mp hgrid
  obtain ⟨hneighbour, hrounds⟩ := on_grid_some h.hidden_even hmultiple
  obtain ⟨hleastMultiple, hmostMultiple⟩ := below_bounds finer hlow hhigh
  have hpow : 0 < 10 ^ finer := Nat.pow_pos (by omega)
  have htop : 10 ^ (finer + 1) ≤ 10 ^ 17 :=
    Nat.pow_le_pow_right (by omega) (by have := List.mem_range.mp hfiner; omega)
  refine ⟨multiple, order - finer, ?_, by omega, by omega, hrounds⟩
  show ((List.range 17).findSome? search).getD _ = _
  rw [hfound]
  rfl

/-- The shortest decimal of a positive magnitude is written properly and is rounded to the
magnitude. -/
theorem Format.shortest_rounds (h : f.IsInRange) (hprecision : f.precision ≤ 53) (lower : Nat) :
    (f.shortest (lower + 1)).IsProper ∧ f.Rounds (f.shortest (lower + 1)).value (lower + 1) := by
  obtain ⟨multiple, exponent, heq, hpos, hbound, hrounds⟩ := exists_shortest h hprecision lower
  rw [heq, Scientific.of_multiple_value]
  exact ⟨Scientific.of_multiple_is_proper hpos hbound exponent, hrounds⟩

/-- The rational number that a magnitude is written as. -/
def Format.writtenValue (f : Format) (magnitude : Nat) : ℚ :=
  if magnitude = 0 then 0 else (f.shortest magnitude).value

/-- What a magnitude is written as is rounded to the magnitude. -/
theorem Format.written_value_rounds (h : f.IsInRange) (hprecision : f.precision ≤ 53)
    (magnitude : Nat) : f.Rounds (f.writtenValue magnitude) magnitude := by
  cases magnitude with
  | zero =>
      have hzero := f.rounds_value 0
      rwa [value_zero] at hzero
  | succ lower => exact (shortest_rounds h hprecision lower).2

/-- What a magnitude is written as is less than the next magnitude. -/
theorem Format.written_value_lt (h : f.IsInRange) (hprecision : f.precision ≤ 53)
    (magnitude : Nat) : f.writtenValue magnitude < f.value (magnitude + 1) := by
  have hrounds := written_value_rounds h hprecision magnitude
  have hmiddle := f.middle_lt_value_succ magnitude
  by_contra hge
  have hpasses : f.Passes (f.writtenValue magnitude) magnitude :=
    .inl (hmiddle.trans_le (not_lt.mp hge))
  exact absurd ((hrounds magnitude).mp hpasses) (lt_irrefl magnitude)

end ChangeFeed.Number
