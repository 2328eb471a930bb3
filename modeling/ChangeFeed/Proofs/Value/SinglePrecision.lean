import ChangeFeed.Proofs.Number.DecimalRounding
import ChangeFeed.Proofs.Number.DecimalText
import ChangeFeed.Proofs.Number.TwoRoundings
import ChangeFeed.Proofs.Value.Typing

/-!
# Literals of single precision

A literal of single precision is read in double precision and then rounded once more.
`Value.single_of_literal_nearest_iff` says when the outcome is the number of single precision that
is nearest to the literal: always, unless the first rounding takes the literal into the middle
between two of them. `Value.single_of_literal_beside` is a literal with seven digits for which it
is not.
-/

namespace ChangeFeed

open Number (Binary Decimal Format)

namespace Number

/-- A finite number of single precision is within the range of double precision. -/
theorem Format.largest_single_le_double : single.largest ≤ double.largest := by
  obtain ⟨same, hsame⟩ := double_refines_single.exists_same (single.infinity - 1)
  have hsingle := single_in_range
  have hdouble := double_in_range
  have hbelow : single.largest < double.value double.infinity :=
    calc single.largest < single.value single.infinity :=
          single.value_strict_mono (Nat.sub_lt hsingle.infinity_pos Nat.one_pos)
      _ = 2 ^ ((2 ^ (single.exponentBits - 1) : Nat) : Int) := hsingle.value_infinity
      _ ≤ 2 ^ ((2 ^ (double.exponentBits - 1) : Nat) : Int) :=
          zpow_le_zpow_right₀ one_le_two (by decide)
      _ = double.value double.infinity := hdouble.value_infinity.symm
  have hfinite : same < double.infinity :=
    double.value_strict_mono.lt_iff_lt.mp (by rw [hsame]; exact hbelow)
  calc single.largest = double.value same := hsame.symm
    _ ≤ double.largest := value_le_value (by omega)

end Number

namespace Value

open Number (SpellsWord)

/-- Within the range of single precision, a decimal number is rounded to a finite number twice. -/
theorem exists_two_roundings {d : Decimal} (hrange : d.magnitude ≤ Format.single.largest) :
    ∃ first last hfirst hlast,
      Format.double.Rounds d.magnitude first ∧
      Format.single.Rounds (Format.double.value first) last ∧
      Format.double.value first ≤ Format.single.largest ∧
      d.toBinary Format.double = .signed d.negative first hfirst ∧
      (d.toBinary Format.double).convert Format.single = .signed d.negative last hlast := by
  obtain ⟨first, hbounded, hfirst, hfinite, hbinary⟩ :=
    Decimal.to_binary_within Format.double_in_range
      (hrange.trans Format.largest_single_le_double)
  obtain ⟨last, hlast, hconvert⟩ := Binary.convert_rounds (g := Format.single)
    Format.single_in_range.hidden_even d.negative hbounded hfinite
  obtain ⟨same, hsame⟩ :=
    Format.double_refines_single.exists_same (Format.single.infinity - 1)
  have hle : Format.double.value first ≤ Format.single.largest :=
    calc Format.double.value first ≤ Format.double.value same :=
          Format.value_le_value (hfirst.le_of_le_value (hsame ▸ hrange))
      _ = Format.single.largest := hsame
  have hwithin : last ≤ Format.single.infinity - 1 := hlast.le_of_le_value hle
  refine ⟨first, last, hbounded, by omega, hfirst, hlast, hle, hbinary, ?_⟩
  rw [hbinary, hconvert]
  simp only [Binary.signed.injEq, true_and]
  omega

/-- Every decimal literal of single precision is accepted, and beside them only words are. Up to the
largest number of single precision, a decimal literal is rounded to double precision and from there
to single precision. What is stored is the nearest number to the literal itself, with ties going
to the even one, unless the first rounding leads into the middle between two numbers of single
precision, and the literal is on the side of the odd one. -/
theorem single_of_literal_nearest_iff (text : String) :
    (∀ value, ofLiteral .float32 text = .ok value →
      (∃ d : Decimal, d.Spells text.toList) ∨
        ∃ word negative, word ∈ ["nan", "inf", "infinity"] ∧
          SpellsWord word negative text.toList) ∧
    ∀ d : Decimal, d.Spells text.toList → |d.value| ≤ Format.single.largest →
      ∃ first last hfirst hlast,
        Binary.IsNearest (f := Format.double) d.value (.signed d.negative first hfirst) ∧
        Binary.IsNearest (Binary.signedValue Format.double d.negative first)
          (.signed d.negative last hlast) ∧
        ofLiteral .float32 text = .ok (.float32 (.signed d.negative last hlast)) ∧
        (Binary.IsNearest d.value (.signed d.negative last hlast) ↔
          ¬Format.double.Misleads Format.single |d.value|) := by
  constructor
  · intro value haccepted
    obtain ⟨x, hread, -⟩ := of_literal_single.mp haccepted
    rcases Number.spelled_or_word hread with ⟨d, hd, -⟩ | ⟨negative, hword, -⟩ |
      ⟨negative, hword | hword, -⟩
    · exact .inl ⟨d, hd⟩
    · exact .inr ⟨_, negative, by simp, hword⟩
    · exact .inr ⟨_, negative, by simp, hword⟩
    · exact .inr ⟨_, negative, by simp, hword⟩
  · intro d hd hrange
    rw [Decimal.abs_value] at hrange ⊢
    obtain ⟨first, last, hboundedFirst, hboundedLast, hfirst, hlast, hle, -, hconvert⟩ :=
      exists_two_roundings hrange
    refine ⟨first, last, hboundedFirst, hboundedLast, ?_, ?_, ?_, ?_⟩
    · have hwide := hrange.trans Format.largest_single_le_double
      exact (Binary.is_nearest_iff _ Format.double_in_range.infinity_pos d.magnitude_nonneg hwide
        hboundedFirst).mpr hfirst
    · exact (Binary.is_nearest_iff _ Format.single_in_range.infinity_pos
        (Format.double.value_nonneg first) hle hboundedLast).mpr hlast
    · exact of_literal_single.mpr
        ⟨_, Number.read_binary_spelled Format.double hd, hconvert ▸ rfl⟩
    · have hdirect := Binary.is_nearest_iff d.negative
        Format.single_in_range.infinity_pos d.magnitude_nonneg hrange hboundedLast
      exact hdirect.trans
        (Format.rounds_twice_iff Format.double_refines_single hfirst hlast)

/-- Numbers up to `2 ^ 25` are within the range of single precision. -/
theorem single_within {q : ℚ} (h : q ≤ 2 ^ 25) : q ≤ Format.single.largest := by
  have hat : Format.single.IsAt 0x4C000000 151 0x800000 := ⟨by decide, by decide, by decide⟩
  have hunit : Format.single.unit 151 = 4 := by
    have hexponent : Format.single.minExponent + (151 : Nat) = 2 := by decide
    rw [Format.unit, hexponent]
    norm_num
  calc q ≤ 2 ^ 25 := h
    _ = Format.single.value 0x4C000000 := by
        rw [hat.value_eq, hunit]
        norm_num
    _ ≤ Format.single.largest := Format.value_le_value (by decide)

/-- The first whole number that single precision lacks is in the middle between two numbers, also
after its first rounding, and goes to the even one. -/
theorem single_of_literal_nearest_iff_tie :
    Decimal.Spells ⟨false, 16777217, 0⟩ "16777217".toList ∧
    |Decimal.value ⟨false, 16777217, 0⟩| ≤ Format.single.largest ∧
    ∃ first last hfirst hlast,
      Binary.IsNearest (f := Format.double) (Decimal.value ⟨false, 16777217, 0⟩)
        (.signed false first hfirst) ∧
      Binary.IsNearest (Binary.signedValue Format.double false first) (.signed false last hlast) ∧
      ofLiteral .float32 "16777217" = .ok (.float32 (.signed false last hlast)) ∧
      (Binary.IsNearest (Decimal.value ⟨false, 16777217, 0⟩) (.signed false last hlast) ↔
        ¬Format.double.Misleads Format.single |Decimal.value ⟨false, 16777217, 0⟩|) := by
  have hspells : Decimal.Spells ⟨false, 16777217, 0⟩ "16777217".toList :=
    ⟨[], _, .none, Decimal.read_magnitude_iff.mp (by decide +kernel), rfl⟩
  have hwithin : |Decimal.value ⟨false, 16777217, 0⟩| ≤ Format.single.largest := by
    apply single_within
    rw [Decimal.abs_value, Decimal.magnitude]
    norm_num
  exact ⟨hspells, hwithin, (single_of_literal_nearest_iff "16777217").2 _ hspells hwithin⟩

/-- A decimal number that is a little less than the middle behind an odd number of single precision,
and becomes this middle when it is rounded to double precision. -/
def besideMiddle : Decimal := ⟨false, 7038531, -32⟩

/-- It is rounded to the odd number. -/
theorem beside_middle_rounds : Format.single.Rounds besideMiddle.magnitude 0x15AE43FD := by
  have hmagnitude : besideMiddle.magnitude = 7038531 / 10 ^ 32 := by
    rw [Decimal.magnitude, besideMiddle]
    norm_num
  have hat : Format.single.IsAt 0x15AE43FD 42 0xAE43FD := ⟨by decide, by decide, by decide⟩
  have hbefore : Format.single.IsAt 0x15AE43FC 42 0xAE43FC := ⟨by decide, by decide, by decide⟩
  have hunit : Format.single.unit 42 = 1 / 2 ^ 107 := by
    have hexponent : Format.single.minExponent + (42 : Nat) = -107 := by decide
    rw [Format.unit, hexponent]
    norm_num
  apply Format.rounds_of
  · intro lower hlower
    obtain rfl : lower = 0x15AE43FC := by omega
    left
    rw [hbefore.middle_eq, hunit, hmagnitude]
    norm_num
  · rintro (hlt | ⟨heq, -⟩)
    · rw [hat.middle_eq, hunit, hmagnitude] at hlt
      norm_num at hlt
    · rw [hat.middle_eq, hunit, hmagnitude] at heq
      norm_num at heq

/-- Stored is the even number behind the middle, which is not the nearest one. -/
theorem single_of_literal_beside :
    besideMiddle.Spells "7.038531e-26".toList ∧
    |besideMiddle.value| ≤ Format.single.largest ∧
    ofLiteral .float32 "7.038531e-26" = .ok (.float32 (.signed false 0x15AE43FE (by decide))) ∧
    ¬Binary.IsNearest besideMiddle.value
      (.signed (f := Format.single) false 0x15AE43FE (by decide)) ∧
    Binary.IsNearest besideMiddle.value
      (.signed (f := Format.single) false 0x15AE43FD (by decide)) := by
  have hwithin : besideMiddle.magnitude ≤ Format.single.largest := by
    apply single_within
    rw [Decimal.magnitude, besideMiddle]
    norm_num
  have hnearest {magnitude : Nat} (bounded : magnitude ≤ Format.single.infinity) :
      Binary.IsNearest besideMiddle.value (.signed false magnitude bounded) ↔
        Format.single.Rounds besideMiddle.magnitude magnitude :=
    Binary.is_nearest_iff false Format.single_in_range.infinity_pos
      besideMiddle.magnitude_nonneg hwithin bounded
  refine ⟨⟨[], _, .none, Decimal.read_magnitude_iff.mp (by decide +kernel), rfl⟩,
    besideMiddle.abs_value ▸ hwithin, ?_, ?_, ?_⟩
  · exact of_literal_single.mpr
      ⟨.signed false 0x3AB5C87FB0000000 (by decide), by decide +kernel,
        congrArg Value.float32 (by decide +kernel)⟩
  · rw [hnearest]
    intro hround
    exact absurd (hround.unique beside_middle_rounds) (by decide)
  · rw [hnearest]
    exact beside_middle_rounds

end Value

end ChangeFeed
