import ChangeFeed.Json.Write
import ChangeFeed.Proofs.Json.Numeral
import ChangeFeed.Proofs.Number.Shortest

/-!
# Numbers with a point in documents

Every finite number is written as a number of a document (`exists_is_real_written`) that is rounded
to it, so no two of them are written alike (`written_eq_iff`), and what is written has some value
when it is read (`spells_real_or_null`). What is no finite number is written as no value.
-/

namespace ChangeFeed.Json

open Number (Binary Decimal Format Layout OnlyDigits Scientific)

/-- The minus sign of a negative number. -/
def signOf (negative : Bool) : List Char :=
  if negative then ['-'] else []

/-- A text spells a number that is no integer, has few digits, and stands for some rational number
behind its sign. -/
structure IsReal (n : Numeral) (negative : Bool) (q : ℚ) (cs : List Char) : Prop where
  spells : SpellsNumeral n (signOf negative ++ cs)
  negative_eq : n.negative = negative
  magnitude_eq : n.decimal.magnitude = q
  bounded : n.decimal.coefficient ≤ 10 ^ 17
  not_integral : n.fraction ≠ [] ∨ n.exponent ≠ none

variable {s : Scientific} (negative : Bool)

/-- The digits of a proper decimal are digits. -/
theorem are_digits_of_proper (h : s.IsProper) : AreDigits s.digits := by
  obtain ⟨c, rest, heq, -⟩ := h.head_ne
  exact ⟨by rw [heq]; exact List.cons_ne_nil _ _, h.only_digits⟩

/-- A zero is a digit. -/
theorem are_digits_zero : AreDigits ['0'] :=
  ⟨List.cons_ne_nil _ _, List.forall_mem_singleton.mpr rfl⟩

/-- Zeros are digits. -/
theorem is_digit_of_mem_zeros {count : Nat} {c : Char} (h : c ∈ List.replicate count '0') :
    c.isDigit = true := by
  rw [List.eq_of_mem_replicate h]
  rfl

/-- Digits on both sides of a point spell a number that is no integer. -/
theorem is_real_of_point {whole fraction : List Char} {q : ℚ} (hwhole : AreDigits whole)
    (hzero : whole.head? = some '0' → whole = ['0']) (hfraction : AreDigits fraction)
    (hvalue : (Decimal.ofDigits (whole ++ fraction) : ℚ) * 10 ^ (-(fraction.length : Int)) = q)
    (hbound : Decimal.ofDigits (whole ++ fraction) ≤ 10 ^ 17) :
    IsReal ⟨negative, whole, fraction, none⟩ negative q (whole ++ '.' :: fraction) where
  spells := ⟨hwhole, hzero, '.' :: fraction, [], .digits hfraction, .none, by simp [signOf]⟩
  negative_eq := rfl
  magnitude_eq := by
    show (Decimal.ofDigits (whole ++ fraction) : ℚ) * 10 ^ ((0 : Int) - fraction.length) = q
    rw [zero_sub, hvalue]
  bounded := hbound
  not_integral := .inl hfraction.1

/-- A number below one has zeros behind its point and then its digits. -/
theorem is_real_below_one (h : s.IsProper) (hexponent : s.exponent < 0) :
    ∃ n, IsReal n negative s.value (Layout.positional s) := by
  have hdigits := are_digits_of_proper h
  set zeros := List.replicate (-s.exponent - 1).toNat '0' with hzeros
  have htext : Layout.positional s = ['0'] ++ '.' :: (zeros ++ s.digits) := by
    simp [Layout.positional, hexponent, hzeros]
  have hfraction : AreDigits (zeros ++ s.digits) :=
    ⟨by simp [hdigits.1],
      List.forall_mem_append.mpr ⟨fun _ => is_digit_of_mem_zeros, hdigits.2⟩⟩
  have hcoefficient :
      Decimal.ofDigits (['0'] ++ (zeros ++ s.digits)) = Decimal.ofDigits s.digits := by
    rw [Decimal.of_digits_append_eq, Decimal.of_digits_append_eq zeros, hzeros,
      Decimal.of_digits_zeros]
    simp [Decimal.ofDigits]
  have hshift : -((zeros ++ s.digits).length : Int) = s.exponent + 1 - s.digits.length := by
    rw [List.length_append, hzeros, List.length_replicate]
    omega
  rw [htext]
  refine ⟨_, is_real_of_point negative are_digits_zero (fun _ => rfl) hfraction ?_ ?_⟩
  · rw [hcoefficient, hshift, Scientific.value]
  · exact hcoefficient.trans_le h.bounded

/-- A whole number has a zero behind its point. -/
theorem is_real_whole (h : s.IsProper) (hexponent : 0 ≤ s.exponent) (hmost : s.exponent < 16)
    (hlength : s.digits.length ≤ s.exponent.toNat + 1) :
    ∃ n, IsReal n negative s.value (Layout.positional s) := by
  have hdigits := are_digits_of_proper h
  obtain ⟨c, rest, heq, hne⟩ := h.head_ne
  obtain ⟨count, hcount⟩ := Nat.exists_eq_add_of_le hlength
  set zeros := List.replicate count '0' with hzeros
  have htext : Layout.positional s = (s.digits ++ zeros) ++ '.' :: ['0'] := by
    have hfill : s.exponent.toNat + 1 - s.digits.length = count := by omega
    simp [Layout.positional, not_lt.mpr hexponent, hlength, hfill, hzeros]
  have hwhole : AreDigits (s.digits ++ zeros) :=
    ⟨by simp [hdigits.1],
      List.forall_mem_append.mpr ⟨hdigits.2, fun _ => is_digit_of_mem_zeros⟩⟩
  have hcoefficient : Decimal.ofDigits ((s.digits ++ zeros) ++ ['0']) =
      Decimal.ofDigits s.digits * 10 ^ (count + 1) := by
    rw [Decimal.of_digits_append_eq, Decimal.of_digits_append_eq s.digits, hzeros,
      Decimal.of_digits_zeros, List.length_replicate, Nat.pow_succ]
    simp [Decimal.ofDigits, Nat.mul_assoc]
  rw [htext]
  refine ⟨_, is_real_of_point negative hwhole (fun hzero => ?_) are_digits_zero ?_ ?_⟩
  · simp [heq, hne] at hzero
  · have hshift : s.exponent + 1 - s.digits.length = count := by omega
    have htenth : -(['0'].length : Int) = -1 := rfl
    rw [hcoefficient, Scientific.value, hshift, zpow_natCast, htenth, zpow_neg_one]
    push_cast
    rw [pow_succ]
    ring
  · have hlt : Decimal.ofDigits s.digits < 10 ^ s.digits.length :=
      Decimal.of_digits_lt h.only_digits
    calc Decimal.ofDigits ((s.digits ++ zeros) ++ ['0'])
        = Decimal.ofDigits s.digits * 10 ^ (count + 1) := hcoefficient
      _ ≤ 10 ^ s.digits.length * 10 ^ (count + 1) := Nat.mul_le_mul_right _ hlt.le
      _ = 10 ^ (s.digits.length + (count + 1)) := (Nat.pow_add _ _ _).symm
      _ ≤ 10 ^ 17 := Nat.pow_le_pow_right (by omega) (by omega)

/-- Any other number up to there has its point among its digits. -/
theorem is_real_mixed (h : s.IsProper) (hexponent : 0 ≤ s.exponent)
    (hlength : s.exponent.toNat + 1 < s.digits.length) :
    ∃ n, IsReal n negative s.value (Layout.positional s) := by
  obtain ⟨c, rest, heq, hne⟩ := h.head_ne
  set before := s.exponent.toNat + 1 with hbefore
  have htext : Layout.positional s = s.digits.take before ++ '.' :: s.digits.drop before := by
    simp [Layout.positional, not_lt.mpr hexponent, ← hbefore, not_le.mpr hlength]
  have hjoin : s.digits.take before ++ s.digits.drop before = s.digits :=
    List.take_append_drop before s.digits
  have hwhole : AreDigits (s.digits.take before) :=
    ⟨by simp [hbefore, heq], fun d hd => h.only_digits d (List.mem_of_mem_take hd)⟩
  have hfraction : AreDigits (s.digits.drop before) :=
    ⟨by simpa using hlength, fun d hd => h.only_digits d (List.mem_of_mem_drop hd)⟩
  rw [htext]
  refine ⟨_, is_real_of_point negative hwhole (fun hzero => ?_) hfraction ?_ ?_⟩
  · simp [heq, hbefore, hne] at hzero
  · have hshift : -((s.digits.drop before).length : Int) = s.exponent + 1 - s.digits.length := by
      rw [List.length_drop]
      omega
    rw [hjoin, hshift, Scientific.value]
  · exact hjoin.symm ▸ h.bounded

/-- A number beyond these carries its exponent. -/
theorem is_real_with_exponent (h : s.IsProper) :
    ∃ n, IsReal n negative s.value (Layout.withExponent s) := by
  have hdigits := are_digits_of_proper h
  obtain ⟨c, rest, heq, hne⟩ := h.head_ne
  have hexponent : (if s.exponent < 0 then -(s.exponent.natAbs : Int) else s.exponent.natAbs) =
      s.exponent := by
    split_ifs <;> omega
  refine ⟨⟨negative, [c], rest, some (decide (s.exponent < 0), Number.digits 10 s.exponent.natAbs)⟩,
    ?_, rfl, ?_, ?_, ?_⟩
  · have hshown : AreDigits (Number.digits 10 s.exponent.natAbs) :=
      ⟨Number.digits_ne_nil _, fun d hd => Number.is_digit_of_mem_digits hd⟩
    have htail : SpellsExponent
        (some (decide (s.exponent < 0), Number.digits 10 s.exponent.natAbs))
        ('e' :: ([if s.exponent < 0 then '-' else '+'] ++ Number.digits 10 s.exponent.natAbs)) := by
      refine .digits (.inl rfl) ?_ hshown
      by_cases hnegative : s.exponent < 0 <;> simp [hnegative]
    have hfirst : AreDigits [c] :=
      ⟨by simp, fun d hd => hdigits.2 d (by rw [heq]; simp_all)⟩
    refine ⟨hfirst, fun hzero => by simp [hne] at hzero, ?_⟩
    cases rest with
    | nil => exact ⟨[], _, .none, htail, by simp [signOf, Layout.withExponent, heq]⟩
    | cons second more =>
        have hmore : AreDigits (second :: more) :=
          ⟨by simp, fun d hd => hdigits.2 d (by rw [heq]; exact List.mem_cons_of_mem c hd)⟩
        exact ⟨_, _, .digits hmore, htail, by simp [signOf, Layout.withExponent, heq]⟩
  · show (Decimal.ofDigits ([c] ++ rest) : ℚ) *
      10 ^ ((if decide (s.exponent < 0) = true then
        -(Decimal.ofDigits (Number.digits 10 s.exponent.natAbs) : Int)
        else Decimal.ofDigits (Number.digits 10 s.exponent.natAbs)) - rest.length) = s.value
    simp only [decide_eq_true_eq, Decimal.of_digits_digits, hexponent]
    have hshift : s.exponent - rest.length = s.exponent + 1 - s.digits.length := by
      rw [heq, List.length_cons]
      push_cast
      ring
    rw [List.singleton_append, ← heq, hshift, Scientific.value]
  · show Decimal.ofDigits ([c] ++ rest) ≤ 10 ^ 17
    rw [List.singleton_append, ← heq]
    exact h.bounded
  · right
    simp

/-! ## What is written -/

/-- Some decimal number is spelled by every way of writing. -/
theorem exists_is_real (l : Layout) (hbeyond : l.beyond ≤ 16) (h : s.IsProper) :
    ∃ n, IsReal n negative s.value
      (if l.plain ≤ s.exponent ∧ s.exponent < l.beyond then Layout.positional s
        else Layout.withExponent s) := by
  by_cases hplain : l.plain ≤ s.exponent ∧ s.exponent < l.beyond
  · rw [if_pos hplain]
    rcases lt_or_ge s.exponent 0 with hbelow | hnonneg
    · exact is_real_below_one negative h hbelow
    · rcases Nat.lt_or_ge (s.exponent.toNat + 1) s.digits.length with hmixed | hwhole
      · exact is_real_mixed negative h hnonneg hmixed
      · exact is_real_whole negative h hnonneg (by omega) hwhole
  · rw [if_neg hplain]
    exact is_real_with_exponent negative h

/-- A zero has one digit on each side of its point. -/
theorem is_real_zero : IsReal ⟨negative, ['0'], ['0'], none⟩ negative 0 ['0', '.', '0'] := by
  have hnone : Decimal.ofDigits (['0'] ++ ['0']) = 0 := rfl
  apply is_real_of_point negative are_digits_zero (fun _ => rfl) are_digits_zero
  · rw [hnone, Nat.cast_zero, zero_mul]
  · rw [hnone]
    exact Nat.zero_le _

/-- Every finite number is written as a number of a document. -/
theorem exists_is_real_written (l : Layout) (hbeyond : l.beyond ≤ 16) {f : Format}
    (h : f.IsInRange) (hprecision : f.precision ≤ 53) (magnitude : Nat) :
    ∃ n, IsReal n negative (f.writtenValue magnitude) (l.writeMagnitude f magnitude) := by
  cases magnitude with
  | zero => exact ⟨_, is_real_zero negative⟩
  | succ lower =>
      exact exists_is_real negative l hbeyond (Format.shortest_rounds h hprecision lower).1

/-- Writing a finite number puts its sign in front of its magnitude. -/
theorem write_signed (l : Layout) {f : Format} {magnitude : Nat} {bounded : magnitude ≤ f.infinity}
    (hfinite : magnitude < f.infinity) :
    l.write (.signed negative magnitude bounded) =
      some (signOf negative ++ l.writeMagnitude f magnitude) := by
  simp [Layout.write, hfinite.ne, signOf]

/-- Only finite numbers are written. -/
theorem write_eq_none_iff (l : Layout) {f : Format} (x : Binary f) :
    l.write x = none ↔ x.isFinite = false := by
  cases x with
  | nan => simp [Layout.write, Binary.isFinite]
  | signed negative magnitude bounded =>
      by_cases hinfinite : magnitude = f.infinity
      · simp [Layout.write, Binary.isFinite, hinfinite]
      · have hfinite : magnitude < f.infinity := lt_of_le_of_ne bounded hinfinite
        simp [write_signed negative l hfinite, Binary.isFinite, hfinite]

/-- What is written for a number is read as that number. -/
theorem read_written (l : Layout) (hbeyond : l.beyond ≤ 16) {f : Format} (h : f.IsInRange)
    (hprecision : f.precision ≤ 53) {x : Binary f} {cs : List Char} (hwrite : l.write x = some cs) :
    Number.readBinary f cs = .ok x := by
  cases x with
  | nan => exact absurd hwrite (by simp [Layout.write])
  | signed negative magnitude bounded =>
      have hfinite : magnitude < f.infinity := by
        refine lt_of_le_of_ne bounded fun hinfinite => ?_
        simp [Layout.write, hinfinite] at hwrite
      rw [write_signed negative l hfinite] at hwrite
      obtain rfl := Option.some.inj hwrite
      obtain ⟨n, hreal⟩ := exists_is_real_written negative l hbeyond h hprecision magnitude
      obtain ⟨nearest, hnearest, hbinary⟩ := n.decimal.to_binary_rounds h
      rw [hreal.magnitude_eq] at hnearest
      obtain rfl := hnearest.unique (Format.written_value_rounds h hprecision magnitude)
      rw [Number.read_binary_spelled f (Numeral.spells_decimal hreal.spells), hbinary]
      have hsign : n.decimal.negative = negative := hreal.negative_eq
      simp [hsign, bounded]

/-- The word for no value is read as no number. -/
theorem read_null (f : Format) :
    Number.readBinary f ['n', 'u', 'l', 'l'] = .error .malformed :=
  rfl

/-- Two numbers are written alike only if they are the same, or if neither of them is finite. -/
theorem written_eq_iff (l : Layout) (hbeyond : l.beyond ≤ 16) {f : Format} (h : f.IsInRange)
    (hprecision : f.precision ≤ 53) (x y : Binary f) :
    (l.write x).getD ['n', 'u', 'l', 'l'] = (l.write y).getD ['n', 'u', 'l', 'l'] ↔
      x = y ∨ x.isFinite = false ∧ y.isFinite = false := by
  have hread {x : Binary f} {cs : List Char} (hwrite : l.write x = some cs) :
      Number.readBinary f cs = .ok x := read_written l hbeyond h hprecision hwrite
  have hnull {x : Binary f} {cs : List Char} (hwrite : l.write x = some cs) :
      ['n', 'u', 'l', 'l'] ≠ cs := by
    rintro rfl
    exact absurd ((read_null f).symm.trans (hread hwrite)) (by simp)
  rw [← write_eq_none_iff l x, ← write_eq_none_iff l y]
  cases hx : l.write x with
  | none =>
      cases hy : l.write y with
      | none => simp
      | some ds =>
          have hne : x ≠ y := by
            rintro rfl
            exact absurd (hx.symm.trans hy) (by simp)
          simp [hnull hy, hne]
  | some cs =>
      cases hy : l.write y with
      | none =>
          have hne : x ≠ y := by
            rintro rfl
            exact absurd (hx.symm.trans hy) (by simp)
          simp [(hnull hx).symm, hne]
      | some ds =>
          constructor
          · rintro hsame
            have hsame : cs = ds := hsame
            exact .inl (Except.ok.inj ((hread hx).symm.trans (hsame ▸ hread hy)))
          · rintro (rfl | ⟨hnone, -⟩)
            · obtain rfl := Option.some.inj (hx.symm.trans hy)
              rfl
            · exact absurd hnone (by simp)

/-- A number with a point, or with an exponent, has the value that its digits have. -/
theorem value_of_real {n : Numeral} {negative : Bool} {q : ℚ} {cs : List Char}
    (hreal : IsReal n negative q cs) (hrange : q ≤ Format.double.largest) :
    ∃ y, n.value = .real y := by
  obtain ⟨y, hy⟩ := Numeral.exists_to_binary hreal.bounded (hreal.magnitude_eq.trans_le hrange)
  refine ⟨y, ?_⟩
  have hintegral : (n.fraction.isEmpty && n.exponent.isNone) = false := by
    rcases hreal.not_integral with hfraction | hexponent
    · simp [hfraction]
    · simp [Option.isSome_iff_ne_none.mpr hexponent]
  simp [Numeral.value, hintegral, hy]

/-- The largest number of double precision is written as less than it is. -/
theorem shortest_largest :
    Format.double.shortest (Format.double.infinity - 1) =
      ⟨Number.digits 10 17976931348623157, 308⟩ := by
  decide +kernel

/-- What is written for a number of double precision is within the range. -/
theorem written_value_double_le {magnitude : Nat} (h : magnitude < Format.double.infinity) :
    Format.double.writtenValue magnitude ≤ Format.double.largest := by
  by_cases hlast : magnitude = Format.double.infinity - 1
  · have hne : Format.double.infinity - 1 ≠ 0 := by decide
    have hlength : (Number.digits 10 17976931348623157).length = 17 := by decide +kernel
    have hexponent : (308 : Int) + 1 - (17 : Nat) = (292 : Nat) := by decide
    have hle : 17976931348623157 * 10 ^ 292 ≤ Numeral.largestWhole := by decide +kernel
    have hcast (top : Nat) :
        ((17976931348623157 * 10 ^ top : Nat) : ℚ) = (17976931348623157 : Nat) * 10 ^ top := by
      push_cast
      rfl
    rw [hlast, Format.writtenValue, if_neg hne, shortest_largest, Scientific.value,
      Decimal.of_digits_digits, hlength, hexponent, zpow_natCast, Numeral.double_largest_eq,
      ← hcast]
    exact Nat.cast_le.mpr hle
  · have hlt := Format.written_value_lt Format.double_in_range (by decide) magnitude
    exact hlt.le.trans (Format.value_le_value (by omega))

/-- What is written for a number of single precision is within the range of double precision. -/
theorem written_value_single_le {magnitude : Nat} (h : magnitude < Format.single.infinity) :
    Format.single.writtenValue magnitude ≤ Format.double.largest := by
  have hlt := Format.written_value_lt Format.single_in_range (by decide) magnitude
  have hle : 2 ^ 2 ^ (Format.single.exponentBits - 1) ≤ Numeral.largestWhole := by decide +kernel
  calc Format.single.writtenValue magnitude ≤ Format.single.value (magnitude + 1) := hlt.le
    _ ≤ Format.single.value Format.single.infinity := Format.value_le_value h
    _ = ((2 ^ 2 ^ (Format.single.exponentBits - 1) : Nat) : ℚ) := by
        rw [Format.single_in_range.value_infinity, zpow_natCast]
        push_cast
        rfl
    _ ≤ Numeral.largestWhole := Nat.cast_le.mpr hle
    _ = Format.double.largest := Numeral.double_largest_eq.symm

/-- What stands for a number spells some number if the number is finite, and else no value. -/
theorem spells_real_or_null (l : Layout) (hbeyond : l.beyond ≤ 16) {f : Format} (h : f.IsInRange)
    (hprecision : f.precision ≤ 53)
    (hrange : ∀ magnitude < f.infinity, f.writtenValue magnitude ≤ Format.double.largest)
    (x : Binary f) (depth : Nat) :
    ∃ value, Spells depth value ((l.write x).getD ['n', 'u', 'l', 'l']) ∧
      (x.isFinite = true ∧ (∃ y, value = .real y) ∨ x.isFinite = false ∧ value = .null) := by
  cases hx : x.isFinite with
  | false =>
      rw [(write_eq_none_iff l x).mpr hx]
      exact ⟨.null, .null, .inr ⟨rfl, rfl⟩⟩
  | true =>
      cases x with
      | nan => exact absurd hx (by simp [Binary.isFinite])
      | signed negative magnitude bounded =>
          have hfinite : magnitude < f.infinity := by simpa [Binary.isFinite] using hx
          obtain ⟨n, hreal⟩ := exists_is_real_written negative l hbeyond h hprecision magnitude
          obtain ⟨y, hy⟩ := value_of_real hreal (hrange magnitude hfinite)
          rw [write_signed negative l hfinite]
          exact ⟨n.value, .numeral hreal.spells, .inl ⟨rfl, y, hy⟩⟩

end ChangeFeed.Json
