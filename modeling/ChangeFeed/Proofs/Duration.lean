import ChangeFeed.Duration

/-!
# Durations of no length

Which texts are read as a duration of zero: zeros in front of any unit, perhaps after a plus sign.
`Duration.read_eq_zero_iff` says so.
-/

namespace ChangeFeed

namespace Number

variable {bound : Nat}

/-- Zero is the value of one digit only. -/
theorem digit_value_eq_zero_iff {c : Char} : digitValue? 10 c = some 0 ↔ c = '0' := by
  constructor
  · intro h
    obtain ⟨hvalue, -⟩ := Option.filter_eq_some_iff.mp h
    have hle : '0'.toNat ≤ c.toNat ∧ c.toNat - '0'.toNat = 0 := by
      split at hvalue
      · rename_i hdigit
        exact ⟨hdigit.1, Option.some.inj hvalue⟩
      · split at hvalue
        · exact absurd (Option.some.inj hvalue) (Nat.succ_ne_zero _)
        · split at hvalue
          · exact absurd (Option.some.inj hvalue) (Nat.succ_ne_zero _)
          · exact absurd hvalue (Option.some_ne_none _).symm
    exact Char.toNat_inj.mp (by omega)
  · rintro rfl
    rfl

/-- Digits are worth nothing in the end if they all are zeros behind nothing. -/
theorem read_digits_eq_zero_iff {overflow : IntegerFault} {soFar : Nat} {cs : List Char} :
    readDigits 10 bound overflow soFar cs = .ok 0 ↔ soFar = 0 ∧ ∀ c ∈ cs, c = '0' := by
  induction cs generalizing soFar with
  | nil => simp [readDigits]
  | cons c rest ih =>
      rw [List.forall_mem_cons, ← digit_value_eq_zero_iff, readDigits]
      cases hdigit : digitValue? 10 c with
      | none => simp
      | some digit =>
          dsimp only
          split
          · rw [ih, Option.some.injEq]
            constructor
            · rintro ⟨hnext, hrest⟩
              exact ⟨by omega, by omega, hrest⟩
            · rintro ⟨rfl, rfl, hrest⟩
              exact ⟨rfl, hrest⟩
          · rename_i hlarge
            simp only [reduceCtorEq, Option.some.injEq, false_iff]
            rintro ⟨rfl, rfl, -⟩
            exact hlarge (Nat.zero_le _)

/-- The texts that spell zero. -/
def SpellsZero (cs : List Char) : Prop :=
  ∃ zeros, zeros ≠ [] ∧ (∀ c ∈ zeros, c = '0') ∧ (cs = zeros ∨ cs = '+' :: zeros)

/-- The texts that are read as zero are those that spell zero. -/
theorem read_nat_eq_zero_iff {cs : List Char} :
    readNat 10 bound cs = .ok 0 ↔ SpellsZero cs := by
  constructor
  · intro h
    unfold readNat at h
    split at h
    · exact absurd h (by simp)
    · exact absurd h (by simp)
    · rename_i rest hrest
      exact ⟨rest, hrest, (read_digits_eq_zero_iff.mp h).2, .inr rfl⟩
    · rename_i hnil _ _
      exact ⟨cs, fun h => hnil h, (read_digits_eq_zero_iff.mp h).2, .inl rfl⟩
  · rintro ⟨zeros, hne, hzeros, rfl | rfl⟩
    · obtain ⟨c, rest, rfl⟩ := List.exists_cons_of_ne_nil hne
      obtain rfl := hzeros c List.mem_cons_self
      exact read_digits_eq_zero_iff.mpr ⟨rfl, hzeros⟩
    · obtain ⟨c, rest, rfl⟩ := List.exists_cons_of_ne_nil hne
      exact read_digits_eq_zero_iff.mpr ⟨rfl, hzeros⟩

end Number

namespace Duration

/-- The number in front of the unit of a text. -/
def numberOf (text : String) : List Char :=
  Text.trim (splitUnit (Text.trim text.toList)).1

/-- A unit has some length. -/
theorem split_unit_pos (cs : List Char) : 0 < (splitUnit cs).2 := by
  have hunits : ∀ entry ∈ units, 0 < entry.2 := by decide
  unfold splitUnit
  generalize hfound : units.findSome? _ = found
  cases found with
  | none => exact Nat.succ_pos _
  | some found =>
      obtain ⟨⟨unit, millis⟩, hmem, hentry⟩ := List.exists_of_findSome?_eq_some hfound
      obtain ⟨number, -, rfl⟩ := Option.map_eq_some_iff.mp hentry
      exact hunits (unit, millis) hmem

/-- The texts that are durations of no length are those with no number but zero. -/
theorem read_eq_zero_iff {text : String} :
    read text = .ok 0 ↔ Number.SpellsZero (numberOf text) := by
  have hunit := split_unit_pos (Text.trim text.toList)
  rw [← @Number.read_nat_eq_zero_iff (Nat.pow 2 64 - 1), read, numberOf]
  dsimp only
  split
  · rename_i hempty
    rw [List.isEmpty_iff.mp hempty]
    exact iff_of_false (by simp) nofun
  · split
    · rename_i fault hfault
      rw [hfault]
      simp
    · rename_i n hn
      rw [hn, Except.ok.injEq]
      split
      · rw [Except.ok.injEq, Nat.mul_eq_zero]
        omega
      · rename_i hlarge
        have hn : n ≠ 0 := by
          rintro rfl
          exact hlarge (by simp)
        exact iff_of_false (by simp) hn

end Duration

end ChangeFeed
