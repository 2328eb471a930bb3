import ChangeFeed.Proofs.Number.Decimal
import ChangeFeed.Proofs.Number.DecimalText

/-!
# Decimal integers read within bounds

Decimal digits read as the number they stand for exactly if that is at most the bound
(`read_digits_decimal`). `read_nat_decimal_int` says what becomes of any printed integer that is
read as a natural number.
-/

namespace ChangeFeed.Number

variable {bound : Nat} {overflow : IntegerFault}

/-- The value of a decimal digit. -/
theorem digit_value_of_is_digit {c : Char} (h : c.isDigit = true) :
    digitValue? 10 c = some (c.toNat - '0'.toNat) := by
  obtain ⟨hlow, hhigh⟩ : '0' ≤ c ∧ c ≤ '9' := by
    simpa [Char.isDigit, Char.le_def] using h
  have hlow' : '0'.toNat ≤ c.toNat := UInt32.le_iff_toNat_le.mp (Char.le_def.mp hlow)
  have hhigh' : c.toNat ≤ '9'.toNat := UInt32.le_iff_toNat_le.mp (Char.le_def.mp hhigh)
  have hnine : '9'.toNat = '0'.toNat + 9 := rfl
  have hlt : c.toNat - '0'.toNat < 10 := by omega
  rw [digitValue?, if_pos ⟨hlow, hhigh⟩]
  simpa [Option.filter] using hlt

/-- A last digit counts once, and the digits in front of it ten times. -/
theorem of_digits_concat (front : List Char) (c : Char) :
    Decimal.ofDigits (front ++ [c]) =
      10 * Decimal.ofDigits front + (c.toNat - '0'.toNat) := by
  rw [Decimal.of_digits_append]
  rfl

/-- Further digits do not make a number smaller. -/
theorem of_digits_le_append (front back : List Char) :
    Decimal.ofDigits front ≤ Decimal.ofDigits (front ++ back) := by
  induction back generalizing front with
  | nil => simp
  | cons c back ih =>
      have hfront := of_digits_concat front c
      have hback := ih (front ++ [c])
      rw [List.append_assoc, List.singleton_append] at hback
      omega

/-- Digits behind others that are within the bound are read with them, if they stay within it. -/
theorem read_digits_behind {front back : List Char} (hback : OnlyDigits back)
    (hfront : Decimal.ofDigits front ≤ bound) :
    readDigits 10 bound overflow (Decimal.ofDigits front) back =
      if Decimal.ofDigits (front ++ back) ≤ bound then .ok (Decimal.ofDigits (front ++ back))
      else .error overflow := by
  induction back generalizing front with
  | nil => rw [List.append_nil, if_pos hfront, readDigits]
  | cons c back ih =>
      obtain ⟨hc, hrest⟩ := List.forall_mem_cons.mp hback
      have hnext : Decimal.ofDigits front * 10 + (c.toNat - '0'.toNat) =
          Decimal.ofDigits (front ++ [c]) := by
        rw [of_digits_concat, Nat.mul_comm]
      have hsplit : front ++ c :: back = (front ++ [c]) ++ back := by simp
      simp only [readDigits, digit_value_of_is_digit hc, hnext, hsplit]
      by_cases hwithin : Decimal.ofDigits (front ++ [c]) ≤ bound
      · rw [if_pos hwithin, ih hrest hwithin]
      · -- What is too large already stays so with further digits.
        have hlarge := of_digits_le_append (front ++ [c]) back
        rw [if_neg hwithin, if_neg (by omega)]

/-- Decimal digits are read exactly if they stand for a number within the bound. -/
theorem read_digits_decimal {ds : List Char} (hds : OnlyDigits ds) :
    readDigits 10 bound overflow 0 ds =
      if Decimal.ofDigits ds ≤ bound then .ok (Decimal.ofDigits ds) else .error overflow :=
  have hnone : Decimal.ofDigits [] ≤ bound := Nat.zero_le bound
  read_digits_behind hds hnone

/-- The digits of a number are digits. -/
theorem only_digits_digits (n : Nat) : OnlyDigits (digits 10 n) :=
  fun _ => is_digit_of_mem_digits

/-- The text of an integer: a minus sign in front of the digits of a negative one. -/
theorem to_list_decimal_int (n : Int) :
    (decimalInt n).toList = if n < 0 then '-' :: digits 10 n.natAbs else digits 10 n.natAbs := by
  cases n with
  | ofNat n =>
      have hneg : ¬ (Int.ofNat n < 0) := by simp
      rw [if_neg hneg]
      simp [decimalInt, decimal]
  | negSucc n =>
      rw [if_pos (Int.negSucc_lt_zero n)]
      simp [decimalInt, decimal]

/-- A printed integer reads as a natural number exactly if it is one within the bound. -/
theorem read_nat_decimal_int (n : Int) :
    readNat 10 bound (decimalInt n).toList =
      if n < 0 then .error .invalidDigit
      else if n.natAbs ≤ bound then .ok n.natAbs else .error .tooLarge := by
  rw [to_list_decimal_int]
  by_cases hneg : n < 0
  · rw [if_pos hneg, if_pos hneg, readNat, readDigits]
    · rfl
    all_goals simp
  · have hsign : ∀ c ∈ digits 10 n.natAbs, c ≠ '+' := fun c hc =>
      (digit_ne (is_digit_of_mem_digits hc)).2.1
    rw [if_neg hneg, if_neg hneg, read_nat_unsigned (digits_ne_nil _) hsign,
      read_digits_decimal (only_digits_digits _), Decimal.of_digits_digits]

end ChangeFeed.Number
