import ChangeFeed.Number.Integer
import Mathlib.Algebra.Group.Nat.Defs

/-!
# Digits read back

`read_digits_before` says that the digits of a number are worth that number when they are read.
They may be changed one by one on the way, as long as their values stay: capital letters read like
small ones.
-/

namespace ChangeFeed.Number

variable {base bound : Nat}

/-- A change of characters that keeps the value of every digit of a base. -/
def KeepsDigits (base : Nat) (change : Char → Char) : Prop :=
  ∀ digit < base, digitValue? base (change (digitChar digit)) = some digit

/-- Capital letters keep the values of hexadecimal digits. -/
theorem keeps_digits_to_upper : KeepsDigits 16 Char.toUpper := by
  unfold KeepsDigits
  decide

/-- Digits keep their values if they are not changed. -/
theorem keeps_digits_id : KeepsDigits 16 id := by
  unfold KeepsDigits
  decide

/-- Reading on behind the first digit is reading on with its value. -/
theorem read_digits_cons {overflow : IntegerFault} {change : Char → Char}
    (hchange : KeepsDigits base change) {soFar digit : Nat} (hdigit : digit < base)
    (hbound : soFar * base + digit ≤ bound) (rest : List Char) :
    readDigits base bound overflow soFar (change (digitChar digit) :: rest) =
      readDigits base bound overflow (soFar * base + digit) rest := by
  simp [readDigits, hchange digit hdigit, hbound]

/-- The digits before a text are worth their number when the text is reached. -/
theorem read_digits_before {overflow : IntegerFault} {change : Char → Char}
    (hbase : 2 ≤ base) (hchange : KeepsDigits base change) (n : Nat) (hbound : n ≤ bound)
    (rest : List Char) :
    readDigits base bound overflow 0 ((digitsBefore base n rest).map change) =
      readDigits base bound overflow n (rest.map change) := by
  induction n using Nat.strongRecOn generalizing rest with
  | ind n ih =>
      have hdigit : n % base < base := Nat.mod_lt _ (by omega)
      have hdivmod : n / base * base + n % base = n := Nat.div_add_mod' n base
      rw [digitsBefore]
      split
      · -- The digits before the last one are those of the quotient.
        have hlt : n / base < n := Nat.div_lt_self (by omega) (by omega)
        rw [ih _ hlt (by omega), List.map_cons,
          read_digits_cons hchange hdigit (by omega), hdivmod]
      · have hsmall : n % base = n := Nat.mod_eq_of_lt (by omega)
        rw [List.map_cons, read_digits_cons hchange hdigit (by omega), hsmall]
        simp

/-- Every digit of a number is the character of some digit of the base. -/
theorem mem_digits_before (hbase : 2 ≤ base) {n : Nat} {rest : List Char} {c : Char}
    (h : c ∈ digitsBefore base n rest) : (∃ digit < base, c = digitChar digit) ∨ c ∈ rest := by
  induction n using Nat.strongRecOn generalizing rest with
  | ind n ih =>
      have hdigit : n % base < base := Nat.mod_lt _ (by omega)
      rw [digitsBefore] at h
      split at h
      · rcases ih _ (Nat.div_lt_self (by omega) (by omega)) h with h | h
        · exact .inl h
        · rcases List.mem_cons.mp h with rfl | h
          · exact .inl ⟨_, hdigit, rfl⟩
          · exact .inr h
      · rcases List.mem_cons.mp h with rfl | h
        · exact .inl ⟨_, hdigit, rfl⟩
        · exact .inr h

/-- Every character of a number's digits is the character of some digit of the base. -/
theorem mem_digits (hbase : 2 ≤ base) {n : Nat} {c : Char} (h : c ∈ digits base n) :
    ∃ digit < base, c = digitChar digit := by
  rcases mem_digits_before hbase h with h | h
  · exact h
  · exact absurd h List.not_mem_nil

/-- There is at least one digit. -/
theorem digits_ne_nil (n : Nat) : digits base n ≠ [] := by
  have hne (m : Nat) (rest : List Char) : digitsBefore base m rest ≠ [] := by
    induction m using Nat.strongRecOn generalizing rest with
    | ind m ih =>
        rw [digitsBefore]
        split
        · exact ih _ (Nat.div_lt_self (by omega) (by omega)) _
        · exact List.cons_ne_nil _ _
  exact hne n []

/-- A text that is not empty and does not start with a sign is read digit by digit. -/
theorem read_nat_unsigned {cs : List Char} (hne : cs ≠ []) (hsign : ∀ c ∈ cs, c ≠ '+') :
    readNat base bound cs = readDigits base bound .tooLarge 0 cs := by
  cases cs with
  | nil => exact absurd rfl hne
  | cons c rest =>
      have hc : c ≠ '+' := hsign c List.mem_cons_self
      simp [readNat, hc]

/-! ## Digits of some width -/

/-- A number below a power of its base has no more digits than that power has factors. -/
theorem length_digits_le {width n : Nat} (hwidth : 0 < width) (h : n < base ^ width) :
    (digits base n).length ≤ width := by
  have hbefore (width m : Nat) (hwidth : 0 < width) (hm : m < base ^ width) (rest : List Char) :
      (digitsBefore base m rest).length ≤ width + rest.length := by
    induction width generalizing m rest with
    | zero => exact absurd hwidth (Nat.lt_irrefl 0)
    | succ width ih =>
        rw [digitsBefore]
        split
        · rename_i hlarge
          have hpos : 0 < width := by
            rcases Nat.eq_zero_or_pos width with rfl | hpos
            · rw [Nat.zero_add, Nat.pow_one] at hm
              omega
            · exact hpos
          have hdiv : m / base < base ^ width :=
            Nat.div_lt_of_lt_mul (by rwa [← Nat.pow_succ'])
          have hlength := ih (m / base) hpos hdiv (digitChar (m % base) :: rest)
          rw [List.length_cons] at hlength
          omega
        · rw [List.length_cons]
          omega
  exact hbefore width n hwidth h []

/-- A number below a power of its base has the width that it is filled up to. -/
theorem length_zero_filled {width n : Nat} (hwidth : 0 < width) (h : n < base ^ width) :
    (zeroFilled width (digits base n)).length = width := by
  have hle := length_digits_le hwidth h
  rw [zeroFilled, List.length_append, List.length_replicate]
  omega

/-- Zeros in front of digits do not count. -/
theorem read_digits_zero_filled {overflow : IntegerFault} (hbase : 2 ≤ base) (width : Nat)
    (cs : List Char) :
    readDigits base bound overflow 0 (zeroFilled width cs) =
      readDigits base bound overflow 0 cs := by
  have hzero : digitValue? base '0' = some 0 := by
    simpa [digitValue?, Option.filter] using Nat.ne_of_gt (Nat.lt_of_lt_of_le Nat.two_pos hbase)
  rw [zeroFilled]
  induction width - cs.length with
  | zero => rfl
  | succ count ih => simpa [List.replicate_succ, readDigits, hzero] using ih

end ChangeFeed.Number
