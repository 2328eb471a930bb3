import ChangeFeed.Position
import Mathlib.Order.Basic
import Mathlib.Order.Defs.LinearOrder
import Mathlib.Order.MinMax

/-!
# The order of positions

Positions are ordered like the numbers they hold. The instance keeps the comparisons and the
maximum that the library computes with, so the facts about linear orders hold of those.
-/

namespace ChangeFeed.Position

/-- A position is before another when its number is smaller. -/
theorem lt_iff_toNat_lt {a b : Position} : a < b ↔ a.lsn.toNat < b.lsn.toNat :=
  UInt64.lt_iff_toNat_lt

/-- A position is not behind another when its number is not greater. -/
theorem le_iff_toNat_le {a b : Position} : a ≤ b ↔ a.lsn.toNat ≤ b.lsn.toNat :=
  UInt64.le_iff_toNat_le

/-- Positions with equal numbers are equal. -/
theorem eq_of_toNat_eq {a b : Position} (h : a.lsn.toNat = b.lsn.toNat) : a = b := by
  cases a
  cases b
  exact congrArg Position.mk (UInt64.toNat_inj.mp h)

instance : LinearOrder Position where
  le := (· ≤ ·)
  lt := (· < ·)
  max := max
  min a b := if a ≤ b then a else b
  le_refl _ := le_iff_toNat_le.mpr (Nat.le_refl _)
  le_trans _ _ _ hab hbc :=
    le_iff_toNat_le.mpr (Nat.le_trans (le_iff_toNat_le.mp hab) (le_iff_toNat_le.mp hbc))
  le_antisymm _ _ hab hba :=
    eq_of_toNat_eq (Nat.le_antisymm (le_iff_toNat_le.mp hab) (le_iff_toNat_le.mp hba))
  le_total a b := by
    simp only [le_iff_toNat_le]
    exact Nat.le_total _ _
  lt_iff_le_not_ge a b := by
    simp only [le_iff_toNat_le, lt_iff_toNat_lt]
    omega
  toDecidableLE := fun a b => inferInstance
  toDecidableLT := fun a b => inferInstance
  toDecidableEq := inferInstance
  max_def _ _ := rfl

/-- Nothing is before the start of the log. -/
theorem zero_le (p : Position) : zero ≤ p :=
  le_iff_toNat_le.mpr (Nat.zero_le _)

end ChangeFeed.Position
