import ChangeFeed.Proofs.Except
import ChangeFeed.Proofs.Number.Digits
import Mathlib.Data.Nat.Digits.Lemmas
import Mathlib.Tactic.SplitIfs

/-!
# Positional numerals

Digits of a base are worth the number that Mathlib's `Nat.ofDigits` gives them, first digit last
(`IsWorth`). Reading accepts exactly the texts that spell a number within its bounds, and gives
that number (`read_nat_iff`, `read_int_iff`), however many zeros stand in front. A number is
written in the digits that Mathlib's `Nat.digits` gives it (`digits_eq_map`).
-/

namespace ChangeFeed.Number

variable {base bound soFar n : Nat} {overflow : IntegerFault} {cs ds : List Char}

/-! ## What digits are worth -/

/-- The digits of a base are worth a number. -/
def IsWorth (base : Nat) (ds : List Char) (n : Nat) : Prop :=
  ∃ values : List Nat, ds.map (digitValue? base) = values.map some ∧
    n = Nat.ofDigits base values.reverse

/-- No digits are worth nothing. -/
@[simp]
theorem is_worth_nil : IsWorth base [] n ↔ n = 0 := by
  simp [IsWorth]

/-- The first value counts as often as there are numbers in the values behind it. -/
theorem of_digits_reverse_cons (digit : Nat) (values : List Nat) :
    Nat.ofDigits base (digit :: values).reverse =
      digit * base ^ values.length + Nat.ofDigits base values.reverse := by
  rw [List.reverse_cons, Nat.ofDigits_append, Nat.ofDigits_singleton, List.length_reverse,
    Nat.add_comm, Nat.mul_comm]

/-- The first digit counts as often as there are numbers in the digits behind it. -/
theorem is_worth_cons {c : Char} :
    IsWorth base (c :: ds) n ↔
      ∃ digit rest, digitValue? base c = some digit ∧ IsWorth base ds rest ∧
        n = digit * base ^ ds.length + rest := by
  have hlength {values : List Nat} (h : ds.map (digitValue? base) = values.map some) :
      values.length = ds.length := by
    simpa using (congrArg List.length h).symm
  constructor
  · rintro ⟨values, hvalues, rfl⟩
    cases values with
    | nil => exact absurd hvalues (by simp)
    | cons digit values =>
        obtain ⟨hdigit, hrest⟩ := List.cons.inj hvalues
        refine ⟨digit, _, hdigit, ⟨values, hrest, rfl⟩, ?_⟩
        rw [of_digits_reverse_cons, hlength hrest]
  · rintro ⟨digit, _, hdigit, ⟨values, hrest, rfl⟩, rfl⟩
    refine ⟨digit :: values, by simp [hdigit, hrest], ?_⟩
    rw [of_digits_reverse_cons, hlength hrest]

/-- A sign is no digit. -/
theorem digit_value_sign : digitValue? base '+' = none ∧ digitValue? base '-' = none := by
  simp [digitValue?]

/-- No digits start with a sign. -/
theorem not_is_worth_sign {c : Char} (hc : c = '+' ∨ c = '-') : ¬ IsWorth base (c :: ds) n := by
  rw [is_worth_cons]
  rintro ⟨digit, rest, hdigit, -⟩
  obtain ⟨hplus, hminus⟩ := @digit_value_sign base
  rcases hc with rfl | rfl
  · exact absurd (hplus.symm.trans hdigit) (by simp)
  · exact absurd (hminus.symm.trans hdigit) (by simp)

/-- A character between two others stands some places behind the first. -/
theorem exists_places {low high c : Char} (h : low ≤ c ∧ c ≤ high) :
    ∃ k ≤ high.toNat - low.toNat, c.toNat - low.toNat = k ∧ c = Char.ofNat (low.toNat + k) := by
  have hlow : low.toNat ≤ c.toNat := UInt32.le_iff_toNat_le.mp (Char.le_def.mp h.1)
  have hhigh : c.toNat ≤ high.toNat := UInt32.le_iff_toNat_le.mp (Char.le_def.mp h.2)
  refine ⟨c.toNat - low.toNat, Nat.sub_le_sub_right hhigh _, rfl, ?_⟩
  rw [Nat.add_sub_cancel' hlow, Char.ofNat_toNat]

/-- A hexadecimal digit is written in small or in capital letters. -/
theorem hex_digit_iff {c : Char} {digit : Nat} :
    digitValue? 16 c = some digit ↔
      digit < 16 ∧ (c = digitChar digit ∨ c = (digitChar digit).toUpper) := by
  constructor
  · intro h
    obtain ⟨hvalue, hlt⟩ := Option.filter_eq_some_iff.mp h
    refine ⟨of_decide_eq_true hlt, ?_⟩
    split_ifs at hvalue with hdigit hsmall hcapital
    · obtain ⟨k, hk, hplaces, rfl⟩ := exists_places hdigit
      obtain rfl : k = digit := Option.some.inj (hplaces ▸ hvalue)
      have hdigits : ∀ k ≤ 9, Char.ofNat ('0'.toNat + k) = digitChar k := by decide
      exact .inl (hdigits k hk)
    · obtain ⟨k, hk, hplaces, rfl⟩ := exists_places hsmall
      obtain rfl : k + 10 = digit := Option.some.inj (hplaces ▸ hvalue)
      have hletters : ∀ k ≤ 5, Char.ofNat ('a'.toNat + k) = digitChar (k + 10) := by decide
      exact .inl (hletters k hk)
    · obtain ⟨k, hk, hplaces, rfl⟩ := exists_places hcapital
      obtain rfl : k + 10 = digit := Option.some.inj (hplaces ▸ hvalue)
      have hletters : ∀ k ≤ 5,
          Char.ofNat ('A'.toNat + k) = (digitChar (k + 10)).toUpper := by decide
      exact .inr (hletters k hk)
  · have hvalues : ∀ digit < 16, digitValue? 16 (digitChar digit) = some digit ∧
        digitValue? 16 (digitChar digit).toUpper = some digit := by decide
    rintro ⟨hlt, rfl | rfl⟩
    · exact (hvalues digit hlt).1
    · exact (hvalues digit hlt).2

/-- A decimal digit is written in one way. -/
theorem decimal_digit {c : Char} {digit : Nat} (h : digitValue? 10 c = some digit) :
    digit < 10 ∧ c = digitChar digit := by
  obtain ⟨hvalue, hlt⟩ := Option.filter_eq_some_iff.mp h
  have hdigit : digit < 10 := of_decide_eq_true hlt
  have hhex : digitValue? 16 c = some digit :=
    Option.filter_eq_some_iff.mpr ⟨hvalue, decide_eq_true (Nat.lt_trans hdigit (by decide))⟩
  have hcapital : ∀ digit < 10, (digitChar digit).toUpper = digitChar digit := by decide
  obtain ⟨-, rfl | rfl⟩ := hex_digit_iff.mp hhex
  · exact ⟨hdigit, rfl⟩
  · exact ⟨hdigit, hcapital digit hdigit⟩

/-- What is worth something consists of digits. -/
theorem digit_of_is_worth (h : IsWorth base ds n) {c : Char} (hc : c ∈ ds) :
    ∃ digit, digitValue? base c = some digit := by
  obtain ⟨values, hvalues, -⟩ := h
  have hmem : digitValue? base c ∈ values.map some := hvalues ▸ List.mem_map_of_mem hc
  obtain ⟨digit, -, hdigit⟩ := List.mem_map.mp hmem
  exact ⟨digit, hdigit.symm⟩

/-! ## Reading -/

/-- Digits are read behind others if all of them together are worth no more than the bound. -/
theorem read_digits_iff (hbase : 0 < base) (hsoFar : soFar ≤ bound) :
    readDigits base bound overflow soFar ds = .ok n ↔
      ∃ rest, IsWorth base ds rest ∧ n = soFar * base ^ ds.length + rest ∧ n ≤ bound := by
  induction ds generalizing soFar with
  | nil =>
      simp only [readDigits, Except.ok.injEq, is_worth_nil, exists_eq_left, List.length_nil,
        Nat.pow_zero, Nat.mul_one, Nat.add_zero]
      exact ⟨fun h => ⟨h.symm, h ▸ hsoFar⟩, fun h => h.1.symm⟩
  | cons c ds ih =>
      simp only [is_worth_cons]
      cases hdigit : digitValue? base c with
      | none => simp [readDigits, hdigit]
      | some digit =>
          have hsplit (rest : Nat) :
              soFar * base ^ (ds.length + 1) + (digit * base ^ ds.length + rest) =
                (soFar * base + digit) * base ^ ds.length + rest := by ring
          simp only [readDigits, hdigit, List.length_cons]
          split
          · rename_i hnext
            rw [ih hnext]
            constructor
            · rintro ⟨rest, hrest, rfl, hbound⟩
              exact ⟨_, ⟨digit, rest, rfl, hrest, rfl⟩, (hsplit rest).symm, hbound⟩
            · rintro ⟨_, ⟨_, rest, heq, hrest, rfl⟩, rfl, hbound⟩
              obtain rfl := Option.some.inj heq
              exact ⟨rest, hrest, hsplit rest, hbound⟩
          · -- What is too large already stays so with further digits.
            rename_i hlarge
            refine iff_of_false (by simp) ?_
            rintro ⟨_, ⟨_, rest, heq, -, rfl⟩, rfl, hbound⟩
            obtain rfl := Option.some.inj heq
            rw [hsplit] at hbound
            have hpow : 0 < base ^ ds.length := Nat.pow_pos hbase
            have hle : soFar * base + digit ≤ (soFar * base + digit) * base ^ ds.length :=
              Nat.le_mul_of_pos_right _ hpow
            omega

/-- Digits are read if they are worth no more than the bound. -/
theorem read_digits_zero_iff (hbase : 0 < base) :
    readDigits base bound overflow 0 ds = .ok n ↔ IsWorth base ds n ∧ n ≤ bound := by
  simp [read_digits_iff hbase (Nat.zero_le bound)]

/-- The texts of a natural number in a base: digits, perhaps behind a plus sign. -/
def SpellsNatural (base : Nat) (cs : List Char) (n : Nat) : Prop :=
  ∃ ds, ds ≠ [] ∧ (cs = ds ∨ cs = '+' :: ds) ∧ IsWorth base ds n

/-- The texts of an integer: those of a natural number, or digits behind a minus sign. -/
inductive SpellsInteger : List Char → Int → Prop where
  | natural {cs : List Char} {n : Nat} (h : SpellsNatural 10 cs n) : SpellsInteger cs n
  | negative {ds : List Char} {n : Nat} (hne : ds ≠ []) (h : IsWorth 10 ds n) :
      SpellsInteger ('-' :: ds) (-n)

/-- Without a sign, a natural number is spelled by its digits. -/
theorem spells_natural_unsigned {c : Char} (hc : c ≠ '+') :
    SpellsNatural base (c :: ds) n ↔ IsWorth base (c :: ds) n := by
  constructor
  · rintro ⟨es, -, rfl | heq, hworth⟩
    · exact hworth
    · exact absurd (List.cons.inj heq).1 hc
  · exact fun h => ⟨c :: ds, by simp, .inl rfl, h⟩

/-- Behind a plus sign, a natural number is spelled by its digits. -/
theorem spells_natural_plus :
    SpellsNatural base ('+' :: ds) n ↔ ds ≠ [] ∧ IsWorth base ds n := by
  constructor
  · rintro ⟨es, hne, rfl | heq, hworth⟩
    · exact absurd hworth (not_is_worth_sign (.inl rfl))
    · obtain ⟨-, rfl⟩ := List.cons.inj heq
      exact ⟨hne, hworth⟩
  · rintro ⟨hne, hworth⟩
    exact ⟨ds, hne, .inr rfl, hworth⟩

/-- An empty text spells no number. -/
theorem not_spells_natural_nil : ¬ SpellsNatural base [] n := by
  rintro ⟨es, hne, rfl | heq, -⟩
  · exact hne rfl
  · exact absurd heq (by simp)

/-- A text is read as a natural number exactly if it spells it and it is not above the bound. -/
theorem read_nat_iff (hbase : 0 < base) :
    readNat base bound cs = .ok n ↔ SpellsNatural base cs n ∧ n ≤ bound := by
  cases cs with
  | nil => exact iff_of_false (by simp [readNat]) fun h => not_spells_natural_nil h.1
  | cons c rest =>
      by_cases hc : c = '+'
      · subst hc
        rw [spells_natural_plus]
        cases rest with
        | nil => simp [readNat]
        | cons d rest => simpa [readNat] using read_digits_zero_iff hbase
      · rw [spells_natural_unsigned hc, readNat, read_digits_zero_iff hbase]
        all_goals simp [hc]

/-- What spells an integer behind no minus sign spells a natural number. -/
theorem spells_integer_unsigned {c : Char} {n : Int} (hc : c ≠ '-') :
    SpellsInteger (c :: ds) n ↔ ∃ m : Nat, n = m ∧ SpellsNatural 10 (c :: ds) m := by
  constructor
  · intro h
    cases h with
    | natural h => exact ⟨_, rfl, h⟩
    | negative _ _ => exact absurd rfl hc
  · rintro ⟨m, rfl, h⟩
    exact .natural h

/-- What spells an integer behind a minus sign are the digits of its opposite. -/
theorem spells_integer_minus {n : Int} :
    SpellsInteger ('-' :: ds) n ↔ ∃ m : Nat, n = -m ∧ ds ≠ [] ∧ IsWorth 10 ds m := by
  constructor
  · intro h
    cases h with
    | natural h =>
        exact absurd ((spells_natural_unsigned (by decide)).mp h) (not_is_worth_sign (.inr rfl))
    | negative hne h => exact ⟨_, rfl, hne, h⟩
  · rintro ⟨m, rfl, hne, h⟩
    exact .negative hne h

/-- Behind no minus sign, an integer is read as a natural number. -/
theorem read_int_unsigned {lowest highest : Nat} {c : Char} (hc : c ≠ '-') :
    readInt lowest highest (c :: ds) = (readNat 10 highest (c :: ds)).map Int.ofNat := by
  by_cases hplus : c = '+'
  · subst hplus
    cases ds <;> rfl
  · rw [readInt, readNat]
    all_goals simp [hc, hplus]

/-- A text is read as an integer exactly if it spells it and it is within the bounds. -/
theorem read_int_iff {lowest highest : Nat} {n : Int} :
    readInt lowest highest cs = .ok n ↔
      SpellsInteger cs n ∧ -(lowest : Int) ≤ n ∧ n ≤ highest := by
  cases cs with
  | nil =>
      refine iff_of_false (by simp [readInt]) ?_
      rintro ⟨h, -⟩
      cases h with
      | natural h => exact not_spells_natural_nil h
  | cons c rest =>
      by_cases hminus : c = '-'
      · subst hminus
        rw [spells_integer_minus]
        cases rest with
        | nil => simp [readInt]
        | cons d rest =>
            simp only [readInt, Except.map_eq_ok, read_digits_zero_iff (by omega : 0 < 10)]
            constructor
            · rintro ⟨m, ⟨hworth, hbound⟩, rfl⟩
              exact ⟨⟨m, rfl, by simp, hworth⟩, by simpa using hbound, by simp⟩
            · rintro ⟨⟨m, rfl, -, hworth⟩, hbound, -⟩
              exact ⟨m, ⟨hworth, by simpa using hbound⟩, rfl⟩
      · rw [spells_integer_unsigned hminus, read_int_unsigned hminus, Except.map_eq_ok]
        simp only [read_nat_iff (by omega : 0 < 10)]
        constructor
        · rintro ⟨m, ⟨hspells, hbound⟩, rfl⟩
          exact ⟨⟨m, rfl, hspells⟩, by simp, by simpa using hbound⟩
        · rintro ⟨⟨m, rfl, hspells⟩, -, hbound⟩
          exact ⟨m, ⟨hspells, by simpa using hbound⟩, rfl⟩

/-! ## Writing -/

/-- The digits of a number are those of Mathlib, first digit last. -/
theorem digits_eq_map (hbase : 2 ≤ base) (hpos : 0 < n) :
    digits base n = (Nat.digits base n).reverse.map digitChar := by
  -- Digits are put in front of those already there, which the induction has to carry along.
  have hbefore (m : Nat) (hm : 0 < m) (rest : List Char) :
      digitsBefore base m rest = (Nat.digits base m).reverse.map digitChar ++ rest := by
    induction m using Nat.strongRecOn generalizing rest with
    | ind m ih =>
        rw [digitsBefore, Nat.digits_def' (by omega) hm, List.reverse_cons, List.map_append]
        split
        · rw [ih _ (Nat.div_lt_self hm (by omega)) (Nat.div_pos (by omega) (by omega))]
          simp
        · have hdiv : m / base = 0 := Nat.div_eq_of_lt (by omega)
          simp [hdiv]
  rw [digits, hbefore n hpos, List.append_nil]

/-- The digits of a number are worth that number, also after a change that keeps their values. -/
theorem is_worth_digits {change : Char → Char} (hbase : 2 ≤ base)
    (hchange : KeepsDigits base change) (n : Nat) :
    IsWorth base ((digits base n).map change) n := by
  have hread : readDigits base n .tooLarge 0 ((digits base n).map change) = .ok n := by
    rw [digits, read_digits_before hbase hchange n (Nat.le_refl n)]
    rfl
  exact ((read_digits_zero_iff (by omega)).mp hread).1

/-- An integer is spelled by what is written for it. -/
theorem spells_decimal_int (n : Int) : SpellsInteger (decimalInt n).toList n := by
  have hworth (m : Nat) : IsWorth 10 (digits 10 m) m := by
    have hchange : KeepsDigits 10 id := by
      unfold KeepsDigits
      decide
    simpa using is_worth_digits (by decide) hchange m
  cases n with
  | ofNat m =>
      have hcs : (decimalInt (Int.ofNat m)).toList = digits 10 m := String.toList_ofList
      rw [hcs]
      exact .natural ⟨digits 10 m, digits_ne_nil m, .inl rfl, hworth m⟩
  | negSucc m =>
      have hcs : (decimalInt (Int.negSucc m)).toList = '-' :: digits 10 (m + 1) := by
        simp [decimalInt, decimal]
      rw [hcs]
      exact .negative (digits_ne_nil (m + 1)) (hworth (m + 1))

end ChangeFeed.Number
