import ChangeFeed.Json.Write
import ChangeFeed.Proofs.Json.Grammar
import ChangeFeed.Proofs.Number.Decimal

/-!
# JSON texts and integers as they are written

What is written for a text or an integer of 64 bits spells it: `Json.spells_quoted_text` and
`Json.spells_integer`.
-/

namespace ChangeFeed.Json

/-! ## Texts -/

/-- The digits of a control character are worth that character. -/
theorem spells_unit_control {n : Nat} (h : n < 0x20) :
    SpellsUnit n ['0', '0', Number.digitChar (n / 16), Number.digitChar (n % 16)] := by
  have hdigits : ∀ n < 0x20, Number.digitValue? 16 (Number.digitChar (n / 16)) = some (n / 16) ∧
      Number.digitValue? 16 (Number.digitChar (n % 16)) = some (n % 16) := by decide
  refine ⟨0, 0, n / 16, n % 16, ?_, by omega⟩
  rw [List.map_cons, List.map_cons, List.map_cons, List.map_cons, (hdigits n h).1,
    (hdigits n h).2]
  rfl

/-- A written character stands for itself in front of a text. -/
theorem spells_text_escaped (c : Char) {cs text : List Char} (h : SpellsText (some cs) text) :
    SpellsText (some (c :: cs)) (escaped c ++ text) := by
  unfold escaped
  split
  · exact .short rfl h
  · exact .short rfl h
  · exact .short rfl h
  · exact .short rfl h
  · exact .short rfl h
  · exact .short rfl h
  · exact .short rfl h
  · rename_i hquote hslash _ _ _ _ _
    split
    · -- A control character is no half of a surrogate pair.
      rename_i hcontrol
      have hhigh : isHighSurrogate c.toNat = false := by
        simp [isHighSurrogate]
        omega
      have hlow : isLowSurrogate c.toNat = false := by
        simp [isLowSurrogate]
        omega
      have hunit := SpellsText.unit (spells_unit_control hcontrol) ⟨hhigh, hlow⟩ h
      rwa [Char.ofNat_toNat] at hunit
    · rename_i hcontrol
      exact .plain ⟨hquote, hslash, Nat.not_lt.mp hcontrol⟩ h

/-- What is written for a text spells it. -/
theorem spells_text_written (cs : List Char) : SpellsText (some cs) (cs.flatMap escaped) := by
  induction cs with
  | nil => exact .nil
  | cons c cs ih => exact spells_text_escaped c ih

/-- A text between quotes spells that text. -/
theorem spells_quoted_text (depth : Nat) (text : String) :
    Spells depth (.text text) (quotedText text) := by
  have hspells : Spells depth _ _ := .text (spells_text_written text.toList)
  rwa [ofCharacters, String.ofList_toList] at hspells

/-! ## Integers -/

/-- The integers that a document can hold. -/
def IsWhole (value : Int) : Prop :=
  -2 ^ 63 ≤ value ∧ value < 2 ^ 64

/-- Natural numbers of 64 bits are among them. -/
theorem is_whole_of_lt {n : Nat} (h : n < 2 ^ 64) : IsWhole n :=
  ⟨by omega, Int.ofNat_lt.mpr h⟩

/-- Integers of 64 bits are among them. -/
theorem is_whole_of_bounds {n : Int} (hlow : -2 ^ 63 ≤ n) (hhigh : n < 2 ^ 63) : IsWhole n :=
  ⟨hlow, by omega⟩

/-- The digits of a natural number are a number. -/
theorem spells_numeral_digits (negative : Bool) (n : Nat) :
    SpellsNumeral ⟨negative, Number.digits 10 n, [], none⟩
      ((if negative then ['-'] else []) ++ Number.digits 10 n) where
  digits := ⟨Number.digits_ne_nil n, fun _ hc => Number.is_digit_of_mem_digits hc⟩
  zero := by
    intro hzero
    rcases Nat.eq_zero_or_pos n with rfl | hpos
    · rw [Number.digits, Number.digitsBefore]
      rfl
    · obtain ⟨ds, hds⟩ := List.head?_eq_some_iff.mp hzero
      exact absurd rfl (Number.head_digits_ne_zero hpos hds)
  parts := ⟨[], [], .none, .none, by simp⟩

/-- A written integer spells that integer. -/
theorem spells_integer {value : Int} (h : IsWhole value) (depth : Nat) :
    Spells depth (.integer value) (Number.decimalInt value).toList := by
  obtain ⟨hlow, hhigh⟩ := h
  cases value with
  | ofNat n =>
      have hhigh : (n : Int) < 2 ^ 64 := hhigh
      have hbound : n < Nat.pow 2 64 := by
        simp only [Nat.pow_eq]
        omega
      have hspells : Spells depth _ _ := .numeral (spells_numeral_digits false n)
      simpa [Numeral.value, hbound, Number.decimalInt, Number.decimal] using hspells
  | negSucc n =>
      have hbound : n + 1 ≤ Nat.pow 2 63 := by
        simp only [Nat.pow_eq]
        omega
      have hvalue : Int.negSucc n = -((n + 1 : Nat) : Int) := rfl
      have hspells : Spells depth _ _ := .numeral (spells_numeral_digits true (n + 1))
      simpa [Numeral.value, hbound, hvalue, Number.decimalInt, Number.decimal] using hspells

end ChangeFeed.Json
