import ChangeFeed.Proofs.Json.Scaling

/-!
# How accurate JSON numbers are

What a document keeps of a number (`Numeral.Kept`): integers that fit 64 bits exactly, and any other
number as one of double precision nearby. Read `Numeral.value_kept` first, which says so of every
number that has a value. Of the digits the first ones are kept, as many as fit 64 bits
(`Numeral.exists_kept`); the others change a number by less than one rounding does.
-/

namespace ChangeFeed

open Number (Binary Decimal Format OnlyDigits)

/-- The rational number that a binary number stands for, if it is finite. -/
def Number.Binary.rational? {f : Format} : Binary f → Option ℚ
  | .nan => none
  | .signed negative magnitude _ =>
    if magnitude < f.infinity then some (Binary.signedValue f negative magnitude) else none

namespace Json

/-- The rational number that a document stands for, if it is a finite number. -/
def rational? : Json → Option ℚ
  | .integer z => some z
  | .real x => x.rational?
  | .single x => x.rational?
  | _ => none

namespace Numeral

variable {n : Numeral}

/-! ## Digits that are kept -/

/-- The digits of a number are worth the first one at its place, and the others. -/
theorem of_digits_cons (c : Char) (ds : List Char) :
    Decimal.ofDigits (c :: ds) =
      (c.toNat - '0'.toNat) * 10 ^ ds.length + Decimal.ofDigits ds := by
  have hsplit := Decimal.of_digits_append_eq [c] ds
  rw [List.singleton_append] at hsplit
  rw [hsplit]
  simp [Decimal.ofDigits]

/-- Of digits behind a coefficient the first ones are kept, all of them unless the coefficient has
become large. -/
theorem exists_absorbed {ds : List Char} (hds : OnlyDigits ds) {coefficient : Nat}
    (h : coefficient < 2 ^ 64) :
    ∃ final count, absorb coefficient ds = (final, count) ∧ count ≤ ds.length ∧
      final = coefficient * 10 ^ count + Decimal.ofDigits (ds.take count) ∧ final < 2 ^ 64 ∧
      (count = ds.length ∨ 2 ^ 60 ≤ final) := by
  induction ds generalizing coefficient with
  | nil => exact ⟨coefficient, 0, rfl, Nat.le_refl 0, by simp [Decimal.ofDigits], h, .inl rfl⟩
  | cons c ds ih =>
      obtain ⟨hc, hrest⟩ := List.forall_mem_cons.mp hds
      have hdigit := Number.digit_le hc
      by_cases hnext : 10 * coefficient + (c.toNat - '0'.toNat) < Nat.pow 2 64
      · obtain ⟨final, count, hread, hcount, hfinal, hlt, hall⟩ := ih hrest hnext
        refine ⟨final, count + 1, by simp only [absorb, if_pos hnext, hread],
          Nat.succ_le_succ hcount, ?_, hlt, hall.imp_left (congrArg (· + 1))⟩
        rw [hfinal, List.take_succ_cons, of_digits_cons, List.length_take_of_le hcount,
          Nat.pow_succ]
        ring
      · have hlarge : Nat.pow 2 64 = 2 ^ 64 := rfl
        exact ⟨coefficient, 0, by simp only [absorb, if_neg hnext], Nat.zero_le _,
          by simp [Decimal.ofDigits], h, .inr (by omega)⟩

/-- The fraction that digits stand for behind a point. -/
def fractionOf (ds : List Char) : ℚ :=
  Decimal.ofDigits ds / 10 ^ ds.length

/-- A fraction is less than one. -/
theorem fraction_bounds {ds : List Char} (hds : OnlyDigits ds) :
    0 ≤ fractionOf ds ∧ fractionOf ds < 1 := by
  have hlt : (Decimal.ofDigits ds : ℚ) < 10 ^ ds.length := by
    exact_mod_cast Decimal.of_digits_lt hds
  have hpos : (0 : ℚ) < 10 ^ ds.length := by positivity
  exact ⟨div_nonneg (Nat.cast_nonneg _) hpos.le, (div_lt_one hpos).mpr hlt⟩

/-- Digits split behind some of them. -/
theorem fraction_append (front back : List Char) :
    (Decimal.ofDigits (front ++ back) : ℚ) =
      (Decimal.ofDigits front + fractionOf back) * 10 ^ back.length := by
  rw [Decimal.of_digits_append_eq, fractionOf]
  push_cast
  field_simp

/-- A magnitude is a coefficient and a fraction behind it, wherever the digits are split. -/
theorem magnitude_split {front back : List Char} (h : n.whole ++ n.fraction = front ++ back) :
    n.decimal.magnitude = (Decimal.ofDigits front + fractionOf back) *
      10 ^ (n.shownExponent + back.length - n.fraction.length) := by
  have hexponent : n.shownExponent + back.length - n.fraction.length =
      (back.length : Int) + (n.shownExponent - n.fraction.length) := by
    omega
  rw [Decimal.magnitude, decimal, h, fraction_append, hexponent, zpow_add₀ (by norm_num),
    zpow_natCast, mul_assoc]

/-- What follows the digits of a large coefficient changes it by less than one rounding. -/
theorem near_of_large {coefficient : Nat} (h : 2 ^ 60 ≤ coefficient) {unit x y : ℚ}
    (hunit : 0 < unit) (hx : 0 ≤ x ∧ x < 1) (hy : 0 ≤ y ∧ y < 1) :
    Format.double.Near 1 0 ((coefficient + x) * unit) ((coefficient + y) * unit) := by
  have hcount : (2 * Format.double.hidden : ℚ) ≤ coefficient := by
    have hhidden : Format.double.hidden = 2 ^ 52 := rfl
    have hle : 2 * 2 ^ 52 ≤ coefficient := by omega
    rw [hhidden]
    exact_mod_cast hle
  have hbetween {z : ℚ} (hz : 0 ≤ z ∧ z < 1) : coefficient * unit ≤ (coefficient + z) * unit ∧
      (coefficient + z) * unit ≤ (coefficient + 1) * unit :=
    ⟨mul_le_mul_of_nonneg_right (by linarith) hunit.le,
      mul_le_mul_of_nonneg_right (by linarith) hunit.le⟩
  exact Format.near_of_same_unit hcount hunit (hbetween hx) (hbetween hy)

/-- If all digits in front of the point are kept, and behind it enough of them, what is kept is near
to the number. -/
theorem near_of_whole_kept (hfraction : OnlyDigits n.fraction) {coefficient count : Nat}
    (hcount : count ≤ n.fraction.length)
    (hkept : Decimal.ofDigits (n.whole ++ n.fraction.take count) = coefficient)
    (hall : count = n.fraction.length ∨ 2 ^ 60 ≤ coefficient) :
    Format.double.Near 1 0 (coefficient * 10 ^ (n.shownExponent - count)) n.decimal.magnitude := by
  have hsplit : n.whole ++ n.fraction =
      (n.whole ++ n.fraction.take count) ++ n.fraction.drop count := by
    rw [List.append_assoc, List.take_append_drop]
  have hexponent : n.shownExponent + (n.fraction.drop count).length - n.fraction.length =
      n.shownExponent - count := by
    rw [List.length_drop]
    omega
  have hunit : (0 : ℚ) < 10 ^ (n.shownExponent - count) := zpow_pos (by norm_num) _
  rw [magnitude_split hsplit, hkept, hexponent]
  rcases hall with rfl | hlarge
  · have hnone : fractionOf (n.fraction.drop n.fraction.length) = 0 := by
      rw [List.drop_length]
      simp [fractionOf, Decimal.ofDigits]
    rw [hnone, add_zero]
    exact (Format.Near.refl Format.double _).mono (Nat.zero_le 1) (le_refl 0)
      (by positivity) (by positivity)
  · have hbounds := fraction_bounds (fun c hc => hfraction c (List.mem_of_mem_drop hc) :
      OnlyDigits (n.fraction.drop count))
    have hnear := near_of_large hlarge hunit ⟨le_refl 0, zero_lt_one⟩ hbounds
    rwa [add_zero] at hnear

/-- If enough digits in front of the point are kept, what is kept is near to the number, however
many of those behind the point are kept too. -/
theorem near_of_some_kept (hwhole : OnlyDigits n.whole) (hfraction : OnlyDigits n.fraction)
    {wholeCount count : Nat} (hcount : count ≤ n.fraction.length)
    (hlarge : 2 ^ 60 ≤ Decimal.ofDigits (n.whole.take wholeCount)) :
    Format.double.Near 1 0
      ((Decimal.ofDigits (n.whole.take wholeCount) * 10 ^ count +
        Decimal.ofDigits (n.fraction.take count) : Nat) *
          10 ^ (n.shownExponent + (n.whole.length - wholeCount : Nat) - count))
      n.decimal.magnitude := by
  have hsplit : n.whole ++ n.fraction =
      n.whole.take wholeCount ++ (n.whole.drop wholeCount ++ n.fraction) := by
    rw [← List.append_assoc, List.take_append_drop]
  have hrest : OnlyDigits (n.whole.drop wholeCount ++ n.fraction) :=
    List.forall_mem_append.mpr ⟨fun c hc => hwhole c (List.mem_of_mem_drop hc), hfraction⟩
  have hfront : OnlyDigits (n.fraction.take count) :=
    fun c hc => hfraction c (List.mem_of_mem_take hc)
  have hexponent : n.shownExponent +
      (n.whole.drop wholeCount ++ n.fraction).length - n.fraction.length =
        n.shownExponent + (n.whole.length - wholeCount : Nat) := by
    rw [List.length_append, List.length_drop]
    omega
  have hunit := zpow_pos (by norm_num : (0 : ℚ) < 10)
    (n.shownExponent + (n.whole.length - wholeCount : Nat))
  have hread : (Decimal.ofDigits (n.whole.take wholeCount) * 10 ^ count +
        Decimal.ofDigits (n.fraction.take count) : Nat) *
          (10 : ℚ) ^ (n.shownExponent + (n.whole.length - wholeCount : Nat) - count) =
      (Decimal.ofDigits (n.whole.take wholeCount) + fractionOf (n.fraction.take count)) *
        10 ^ (n.shownExponent + (n.whole.length - wholeCount : Nat)) := by
    rw [zpow_sub₀ (by norm_num), zpow_natCast, fractionOf, List.length_take_of_le hcount]
    push_cast
    field_simp
  rw [magnitude_split hsplit, hexponent, hread]
  exact near_of_large hlarge hunit (fraction_bounds hfront) (fraction_bounds hrest)

/-- What is read of a number is a coefficient of 64 bits times a power of ten, which is near to the
number by one rounding. -/
theorem exists_kept (hwhole : OnlyDigits n.whole) (hfraction : OnlyDigits n.fraction) :
    ∃ (coefficient : Nat) (exponent : Int), coefficient < 2 ^ 64 ∧
      n.toBinary = ((scaledByTen (Format.double.round coefficient 1) exponent).bind
        fun magnitude =>
          if h : magnitude ≤ Format.double.infinity then some (.signed n.negative magnitude h)
          else none) ∧
      Format.double.Near 1 0 (coefficient * 10 ^ exponent) n.decimal.magnitude := by
  obtain ⟨kept, wholeCount, hreadWhole, -, hkept, hkeptLt, hkeptAll⟩ :=
    exists_absorbed hwhole (show 0 < 2 ^ 64 by omega)
  obtain ⟨coefficient, count, hreadFraction, hcount, hcoefficient, hlt, hall⟩ :=
    exists_absorbed hfraction hkeptLt
  rw [Nat.zero_mul, Nat.zero_add] at hkept
  refine ⟨coefficient, n.shownExponent + (n.whole.length - wholeCount : Nat) - count, hlt, ?_, ?_⟩
  · have hexponent : n.shownExponent + (n.whole.length - wholeCount : Nat) - count =
        ((n.whole.length - wholeCount : Nat) : Int) - count + n.shownExponent := by
      omega
    rw [hexponent, toBinary, hreadWhole, shownExponent]
    simp only [hreadFraction]
    cases n.exponent with
    | none => simp
    | some exponent =>
        obtain ⟨negative, ds⟩ := exponent
        cases negative <;> rfl
  · rcases hkeptAll with rfl | hlarge
    · have hfirst : Decimal.ofDigits (n.whole ++ n.fraction.take count) = coefficient := by
        rw [List.take_length] at hkept
        rw [Decimal.of_digits_append_eq, List.length_take_of_le hcount, hcoefficient, hkept]
      rw [Nat.sub_self, Nat.cast_zero, add_zero]
      exact near_of_whole_kept hfraction hcount hfirst hall
    · rw [hcoefficient, hkept]
      exact near_of_some_kept hwhole hfraction hcount (hkept ▸ hlarge)

/-! ## What comes out -/

/-- What comes out of a number is finite and near to it. -/
theorem to_binary_near (hwhole : OnlyDigits n.whole) (hfraction : OnlyDigits n.fraction)
    {x : Binary Format.double} (h : n.toBinary = some x) :
    ∃ magnitude bounded, x = .signed n.negative magnitude bounded ∧
      magnitude < Format.double.infinity ∧
      Format.double.Near 6 (2 * halfLeast) (Format.double.value magnitude) n.decimal.magnitude := by
  obtain ⟨coefficient, exponent, hlt, heq, hnear⟩ := exists_kept hwhole hfraction
  rw [heq] at h
  obtain ⟨magnitude, hscaled, hx⟩ := Option.bind_eq_some_iff.mp h
  have hpower : (0 : ℚ) < 10 ^ exponent := zpow_pos (by norm_num) exponent
  have hexact : n.decimal.magnitude / 10 ^ exponent * 10 ^ exponent = n.decimal.magnitude :=
    div_mul_cancel₀ _ hpower.ne'
  rw [← hexact] at hnear
  obtain ⟨hfinite, hresult⟩ := near_scaled_by_ten hlt (hnear.of_scaled hpower)
    (div_nonneg n.decimal.magnitude_nonneg hpower.le) hscaled
  rw [hexact] at hresult
  rw [dif_pos hfinite.le] at hx
  exact ⟨magnitude, hfinite.le, (Option.some.inj hx).symm, hfinite, hresult⟩

/-- What comes out of no digits but zeros is zero. -/
theorem to_binary_zero (hzero : n.decimal.coefficient = 0) {x : Binary Format.double}
    (h : n.toBinary = some x) : x = Binary.zero Format.double n.negative := by
  rw [to_binary_eq (by omega), hzero] at h
  obtain ⟨magnitude, hscaled, hx⟩ := Option.bind_eq_some_iff.mp h
  obtain rfl := Option.some.inj ((scaled_by_ten_zero n.decimal.exponent).symm.trans hscaled)
  rw [dif_pos (Nat.zero_le _)] at hx
  exact (Option.some.inj hx).symm

/-- What comes out of few digits and a small power of ten is the nearest finite number. -/
theorem to_binary_nearest (hdigits : n.decimal.coefficient < 2 ^ 53)
    (hexponent : -22 ≤ n.decimal.exponent ∧ n.decimal.exponent ≤ 22) {x : Binary Format.double}
    (h : n.toBinary = some x) : Binary.IsNearest n.decimal.value x := by
  rw [to_binary_eq (by omega)] at h
  obtain ⟨magnitude, hscaled, hx⟩ := Option.bind_eq_some_iff.mp h
  have hrange : n.decimal.magnitude ≤ Format.double.largest := by
    have hwhole : 2 ^ 53 * 10 ^ 22 ≤ largestWhole := by decide +kernel
    have hpower : (10 : ℚ) ^ n.decimal.exponent ≤ 10 ^ (22 : Int) :=
      zpow_le_zpow_right₀ (by norm_num) hexponent.2
    have hcoefficient : (n.decimal.coefficient : ℚ) ≤ 2 ^ 53 := by exact_mod_cast hdigits.le
    calc n.decimal.magnitude ≤ 2 ^ 53 * 10 ^ (22 : Int) :=
          mul_le_mul hcoefficient hpower (zpow_nonneg (by norm_num) _) (by positivity)
      _ = (2 ^ 53 * 10 ^ 22 : Nat) := by norm_num
      _ ≤ largestWhole := Nat.cast_le.mpr hwhole
      _ = Format.double.largest := double_largest_eq.symm
  have hrounds : Format.double.Rounds n.decimal.magnitude magnitude :=
    rounds_scaled_by_ten hdigits hexponent hscaled
  have hbounded : magnitude ≤ Format.double.infinity := by
    by_contra hbeyond
    rw [dif_neg hbeyond] at hx
    cases hx
  rw [dif_pos hbounded] at hx
  obtain rfl := Option.some.inj hx
  exact (Binary.is_nearest_iff n.negative Format.double_in_range.infinity_pos
    n.decimal.magnitude_nonneg hrange hbounded).mpr hrounds

/-! ## Numbers of documents -/

/-- A number is spelled as an integer that fits 64 bits, signed or not. -/
def IsWhole (n : Numeral) : Prop :=
  n.fraction = [] ∧ n.exponent = none ∧ -2 ^ 63 ≤ n.decimal.value ∧ n.decimal.value < 2 ^ 64

/-- How a rational number stands for a number of a document. -/
structure Kept (n : Numeral) (q : ℚ) : Prop where
  /-- An integer that fits 64 bits is kept as it is. -/
  whole : n.IsWhole → q = n.decimal.value
  /-- Any other number becomes a finite number of double precision. -/
  rounded : ¬n.IsWhole → ∃ sign magnitude, magnitude < Format.double.infinity ∧
    q = Binary.signedValue Format.double sign magnitude
  /-- The distance is a small share of the number and at most one least unit more. -/
  near : |q - n.decimal.value| ≤ |n.decimal.value| / 2 ^ 50 + 2 ^ (-1074 : Int)
  zero : n.decimal.coefficient = 0 → q = 0
  /-- For few digits and a small power of ten no number of double precision is nearer. -/
  nearest : n.decimal.coefficient < 2 ^ 53 → -22 ≤ n.decimal.exponent → n.decimal.exponent ≤ 22 →
    ∀ sign other, other < Format.double.infinity →
      |q - n.decimal.value| ≤ |Binary.signedValue Format.double sign other - n.decimal.value|

/-- No digits but zeros stand for zero. -/
theorem decimal_value_zero (h : n.decimal.coefficient = 0) : n.decimal.value = 0 := by
  simp [Decimal.value, Decimal.magnitude, h]

/-- An integer is worth its digits. -/
theorem integral_value (hfraction : n.fraction = []) (hexponent : n.exponent = none) :
    n.decimal.coefficient = Decimal.ofDigits n.whole ∧
      n.decimal.value =
        if n.negative then -(Decimal.ofDigits n.whole : ℚ) else Decimal.ofDigits n.whole := by
  have hshown : n.shownExponent = 0 := by rw [shownExponent, hexponent]
  have hcoefficient : n.decimal.coefficient = Decimal.ofDigits n.whole := by
    rw [decimal, hfraction, List.append_nil]
  have hpower : n.decimal.exponent = 0 := by
    rw [decimal, hshown, hfraction]
    rfl
  have hsign : n.decimal.negative = n.negative := rfl
  refine ⟨hcoefficient, ?_⟩
  rw [Decimal.value, Decimal.magnitude, hcoefficient, hpower, zpow_zero, mul_one, hsign]

/-- A number is an integer that fits 64 bits, or what comes out of its digits. -/
theorem value_eq (n : Numeral) :
    n.value =
      if (n.fraction = [] ∧ n.exponent = none) ∧ n.negative = false ∧
          Decimal.ofDigits n.whole < 2 ^ 64 then .integer (Decimal.ofDigits n.whole)
      else if (n.fraction = [] ∧ n.exponent = none) ∧ n.negative = true ∧
          0 < Decimal.ofDigits n.whole ∧ Decimal.ofDigits n.whole ≤ 2 ^ 63 then
        .integer (-Decimal.ofDigits n.whole)
      else (n.toBinary.map .real).getD .unusable := by
  have hbits : Nat.pow 2 64 = 2 ^ 64 ∧ Nat.pow 2 63 = 2 ^ 63 := ⟨rfl, rfl⟩
  simp only [value, hbits, Bool.and_eq_true, List.isEmpty_iff, Option.isNone_iff_eq_none,
    Bool.not_eq_true', decide_eq_true_eq, and_assoc]
  cases n.toBinary <;> rfl

/-- Only a zero behind a minus sign fits 64 bits and is none of the integers. -/
theorem value_cases (n : Numeral) :
    (∃ z : Int, n.value = .integer z ∧ (z : ℚ) = n.decimal.value ∧ n.IsWhole) ∨
      (n.IsWhole → n.decimal.coefficient = 0) ∧
        n.value = (n.toBinary.map .real).getD .unusable := by
  rw [value_eq]
  split_ifs with hplain hminus
  · obtain ⟨⟨hfraction, hexponent⟩, hsign, hfits⟩ := hplain
    obtain ⟨-, hvalue⟩ := integral_value hfraction hexponent
    rw [hsign, if_neg Bool.false_ne_true] at hvalue
    have hnonneg : (0 : ℚ) ≤ n.decimal.value := hvalue ▸ Nat.cast_nonneg _
    refine .inl ⟨_, rfl, by rw [hvalue, Int.cast_natCast], hfraction, hexponent, by linarith, ?_⟩
    rw [hvalue]
    exact_mod_cast hfits
  · obtain ⟨⟨hfraction, hexponent⟩, hsign, -, hfits⟩ := hminus
    obtain ⟨-, hvalue⟩ := integral_value hfraction hexponent
    rw [hsign, if_pos rfl] at hvalue
    have hbound : (Decimal.ofDigits n.whole : ℚ) ≤ 2 ^ 63 := by exact_mod_cast hfits
    have hnonneg : (0 : ℚ) ≤ Decimal.ofDigits n.whole := Nat.cast_nonneg _
    exact .inl ⟨_, rfl, by rw [hvalue, Int.cast_neg, Int.cast_natCast], hfraction, hexponent,
      by linarith, by linarith⟩
  · refine .inr ⟨fun hwhole => ?_, rfl⟩
    obtain ⟨hfraction, hexponent, hleast, hmost⟩ := hwhole
    obtain ⟨hcoefficient, hvalue⟩ := integral_value hfraction hexponent
    rw [hvalue] at hleast hmost
    rw [hcoefficient]
    cases hsign : n.negative with
    | false =>
        rw [hsign, if_neg Bool.false_ne_true] at hmost
        exact absurd ⟨⟨hfraction, hexponent⟩, hsign, by exact_mod_cast hmost⟩ hplain
    | true =>
        rw [hsign, if_pos rfl, neg_le_neg_iff] at hleast
        have hfits : Decimal.ofDigits n.whole ≤ 2 ^ 63 := by exact_mod_cast hleast
        by_contra hne
        exact hminus ⟨⟨hfraction, hexponent⟩, hsign, Nat.pos_of_ne_zero hne, hfits⟩

/-- What is exact is kept. -/
theorem kept_of_eq {q : ℚ} (hwhole : n.IsWhole) (h : q = n.decimal.value) : n.Kept q := by
  have hnone : |q - n.decimal.value| = 0 := by rw [h, sub_self, abs_zero]
  refine ⟨fun _ => h, fun hnot => absurd hwhole hnot, ?_, fun hzero => ?_, fun _ _ _ _ _ _ => ?_⟩
  · rw [hnone]
    positivity
  · rw [h, decimal_value_zero hzero]
  · rw [hnone]
    exact abs_nonneg _

/-- Six roundings change a number by a small share of it at most. -/
theorem six_roundings_share {q : ℚ} (hq : 0 ≤ q) :
    (Format.double.spread ^ 6 - 1) * q ≤ q / 2 ^ 50 := by
  have hfactor : Format.double.spread ^ 6 - 1 ≤ 1 / 2 ^ 50 := by
    rw [spread_eq]
    norm_num
  rw [div_eq_mul_one_div, mul_comm q]
  exact mul_le_mul_of_nonneg_right hfactor hq

/-- Two halves of the least unit are a power of two. -/
theorem two_half_least_eq : 2 * halfLeast = 2 ^ (-1074 : Int) := by
  rw [half_least_eq, ← zpow_one_add₀ two_ne_zero]
  rfl

/-- What comes out of the digits of a number is kept, if zeros are the only ones that fit 64
bits. -/
theorem kept_of_to_binary (hwhole : OnlyDigits n.whole) (hfraction : OnlyDigits n.fraction)
    (hzero : n.IsWhole → n.decimal.coefficient = 0) {x : Binary Format.double}
    (h : n.toBinary = some x) : ∃ q, x.rational? = some q ∧ n.Kept q := by
  obtain ⟨magnitude, bounded, rfl, hfinite, hnear⟩ := to_binary_near hwhole hfraction h
  have hnothing (hnone : n.decimal.coefficient = 0) :
      Binary.signedValue Format.double n.negative magnitude = 0 := by
    have hsame := to_binary_zero hnone h
    simp only [Binary.zero, Binary.signed.injEq, true_and] at hsame
    simp [Binary.signedValue, hsame]
  refine ⟨Binary.signedValue Format.double n.negative magnitude, if_pos hfinite, ?_, ?_, ?_, ?_, ?_⟩
  · intro hfits
    rw [hnothing (hzero hfits), decimal_value_zero (hzero hfits)]
  · exact fun _ => ⟨n.negative, magnitude, hfinite, rfl⟩
  · have hdistance := hnear.abs_sub_le n.decimal.magnitude_nonneg
    have hshare := six_roundings_share n.decimal.magnitude_nonneg
    have hsame := Binary.distance_eq Format.double n.negative magnitude n.decimal.magnitude
    rw [n.decimal.abs_value, ← two_half_least_eq]
    calc |Binary.signedValue Format.double n.negative magnitude - n.decimal.value|
        = |Format.double.value magnitude - n.decimal.magnitude| := hsame
      _ ≤ n.decimal.magnitude / 2 ^ 50 + 2 * halfLeast := hdistance.trans (by linarith)
  · exact hnothing
  · intro hdigits hleast hmost sign other hother
    exact ((to_binary_nearest hdigits ⟨hleast, hmost⟩ h).2 sign other hother).1

/-- Behind the point of a number there are only digits. -/
theorem only_digits_fraction {cs : List Char} (h : SpellsNumeral n cs) : OnlyDigits n.fraction := by
  obtain ⟨fraction, -, hspells, -⟩ := h.parts
  generalize n.fraction = ds at hspells
  cases hspells with
  | none => exact List.forall_mem_nil _
  | digits hds => exact hds.2

/-- A number of a document that has a value is kept. -/
theorem value_kept {cs : List Char} (h : SpellsNumeral n cs) (husable : n.value ≠ .unusable) :
    ∃ q, n.value.rational? = some q ∧ n.Kept q := by
  have hfraction := only_digits_fraction h
  rcases value_cases n with ⟨z, hvalue, hexact, hwhole⟩ | ⟨hzero, hvalue⟩
  · rw [hvalue]
    exact ⟨z, rfl, kept_of_eq hwhole hexact⟩
  · rw [hvalue] at husable ⊢
    cases hbinary : n.toBinary with
    | none => exact absurd (by rw [hbinary]; rfl) husable
    | some x => exact kept_of_to_binary h.digits.2 hfraction hzero hbinary

end Numeral

end Json

end ChangeFeed
