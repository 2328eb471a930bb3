import ChangeFeed.Number.Decimal
import ChangeFeed.Proofs.Number.Digits
import Mathlib.Algebra.Group.Int.Defs
import Mathlib.Algebra.Group.Nat.Defs

/-!
# Decimal digits read back

The decimal digits of a number are worth that number (`Decimal.of_digits_digits`), also behind
zeros, and but for zero itself they do not start with a zero (`head_digits_ne_zero`).
-/

namespace ChangeFeed.Number

/-- What is known of the characters of decimal digits. -/
theorem digit_char_facts : ∀ digit < 10, (digitChar digit).isDigit = true ∧
    (digitChar digit).toNat - '0'.toNat = digit ∧ (digitChar digit = '0' → digit = 0) := by
  decide

/-- The decimal digits of a number are digits. -/
theorem is_digit_of_mem_digits {n : Nat} {c : Char} (h : c ∈ digits 10 n) : c.isDigit = true := by
  obtain ⟨digit, hdigit, rfl⟩ := mem_digits (by omega) h
  exact (digit_char_facts digit hdigit).1

/-- But for zero, the digits of a number do not start with a zero. -/
theorem head_digits_ne_zero {n : Nat} {c : Char} {rest : List Char} (hpos : 0 < n)
    (h : digits 10 n = c :: rest) : c ≠ '0' := by
  have hhead (m : Nat) (hm : 0 < m) (tail : List Char) :
      (digitsBefore 10 m tail).head? ≠ some '0' := by
    induction m using Nat.strongRecOn generalizing tail with
    | ind m ih =>
        rw [digitsBefore]
        split
        · exact ih _ (Nat.div_lt_self hm (by omega)) (Nat.div_pos (by omega) (by omega)) _
        · intro hzero
          have hdigit := (digit_char_facts (m % 10) (Nat.mod_lt _ (by omega))).2.2
          have hmod : m % 10 = 0 := hdigit (Option.some.inj hzero)
          omega
  rintro rfl
  exact hhead n hpos [] (congrArg List.head? h)

namespace Decimal

/-- Digits behind others. -/
theorem of_digits_append (front back : List Char) :
    ofDigits (front ++ back) =
      back.foldl (fun n c => 10 * n + (c.toNat - '0'.toNat)) (ofDigits front) :=
  List.foldl_append

/-- The digits of a number are worth that number. -/
@[simp]
theorem of_digits_digits (n : Nat) : ofDigits (digits 10 n) = n := by
  have hbefore (m : Nat) (rest : List Char) :
      ofDigits (digitsBefore 10 m rest) =
        rest.foldl (fun n c => 10 * n + (c.toNat - '0'.toNat)) m := by
    induction m using Nat.strongRecOn generalizing rest with
    | ind m ih =>
        have hvalue := (digit_char_facts (m % 10) (Nat.mod_lt _ (by omega))).2.1
        rw [digitsBefore]
        split
        · rw [ih _ (Nat.div_lt_self (by omega) (by omega)), List.foldl_cons, hvalue]
          exact congrArg (rest.foldl _) (by omega)
        · rw [ofDigits, List.foldl_cons, hvalue]
          exact congrArg (rest.foldl _) (by omega)
  exact hbefore n []

/-- Zeros are worth nothing. -/
@[simp]
theorem of_digits_zeros (count : Nat) : ofDigits (List.replicate count '0') = 0 := by
  induction count with
  | zero => rfl
  | succ count ih => exact ih

/-- Zeros in front of digits are worth nothing. -/
@[simp]
theorem of_digits_zero_filled (width : Nat) (cs : List Char) :
    ofDigits (zeroFilled width cs) = ofDigits cs := by
  rw [zeroFilled, of_digits_append, of_digits_zeros]
  rfl

end Decimal

/-- A number in at least some width of decimal digits consists of digits. -/
theorem is_digit_of_mem_zero_filled {width n : Nat} {c : Char}
    (h : c ∈ zeroFilled width (digits 10 n)) : c.isDigit = true := by
  rcases List.mem_append.mp h with h | h
  · obtain rfl := List.eq_of_mem_replicate h
    rfl
  · exact is_digit_of_mem_digits h

end ChangeFeed.Number
