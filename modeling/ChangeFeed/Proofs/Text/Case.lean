import ChangeFeed.Proofs.Text.Trim
import Mathlib

/-!
# Small letters

The case of letters and the blanks of a text are independent of each other: it does not matter
whether a text is trimmed before or after its letters become small (`lower_trim`).
-/

namespace ChangeFeed.Text

variable {cs : List Char}

/-- Neither letters nor digits are blanks. -/
theorem not_blank_of_alphanum {c : Char} (h : c.isAlphanum = true) : isBlank c = false := by
  have hcode : (65 ≤ c.toNat ∧ c.toNat ≤ 90 ∨ 97 ≤ c.toNat ∧ c.toNat ≤ 122) ∨
      48 ≤ c.toNat ∧ c.toNat ≤ 57 := by
    simpa [Char.isAlphanum, Char.isAlpha, Char.isUpper, Char.isLower, Char.isDigit,
      UInt32.le_iff_toNat_le] using h
  simp only [isBlank, Bool.or_eq_false_iff, Bool.and_eq_false_iff, decide_eq_false_iff_not,
    beq_eq_false_iff_ne]
  omega

/-- A letter is no blank. -/
theorem not_blank_of_alpha {c : Char} (h : c.isAlpha = true) : isBlank c = false :=
  not_blank_of_alphanum (by simp [Char.isAlphanum, h])

/-- What is no letter comes from no other character. -/
theorem to_lower_eq_iff {c d : Char} (hd : d.isAlpha = false) : c.toLower = d ↔ c = d := by
  have hself {e : Char} (he : e.isAlpha = false) : e.toLower = e := by
    refine Char.toLower_eq_of_not_isUpper fun hupper => ?_
    exact absurd he (by simp [Char.isAlpha, hupper])
  constructor
  · rintro rfl
    rw [Char.isAlpha_toLower_eq_isAlpha] at hd
    exact (hself hd).symm
  · rintro rfl
    exact hself hd

/-- Blanks are blanks in small letters too. -/
theorem is_blank_to_lower (c : Char) : isBlank c.toLower = isBlank c := by
  cases halpha : c.isAlpha with
  | false => rw [(to_lower_eq_iff halpha).mpr rfl]
  | true =>
      rw [not_blank_of_alpha halpha]
      exact not_blank_of_alpha ((Char.isAlpha_toLower_eq_isAlpha c).trans halpha)

/-- Blanks stay as they are. -/
theorem lower_of_blank (h : AreBlank cs) : lower cs = cs := by
  have hsame : ∀ c ∈ cs, c.toLower = c := by
    intro c hc
    refine (to_lower_eq_iff (Bool.eq_false_iff.mpr fun halpha => ?_)).mpr rfl
    exact Bool.false_ne_true ((not_blank_of_alpha halpha).symm.trans (h c hc))
  exact (List.map_congr_left hsame).trans cs.map_id

/-- Joined texts become small one by one. -/
theorem lower_append (cs ds : List Char) : lower (cs ++ ds) = lower cs ++ lower ds :=
  List.map_append

/-- The first character of a text becomes small by itself. -/
theorem lower_cons (c : Char) (cs : List Char) : lower (c :: cs) = c.toLower :: lower cs :=
  rfl

/-- Letters become small once. -/
theorem lower_lower : lower (lower cs) = lower cs := by
  simp [lower, Function.comp_def, Char.toLower_toLower_eq_toLower]

/-- Trimming at the start leaves the case alone. -/
theorem lower_trim_start : lower (trimStart cs) = trimStart (lower cs) := by
  rw [trimStart, trimStart, lower, lower, List.dropWhile_map]
  simp only [Function.comp_def, is_blank_to_lower]

/-- Trimming at the end leaves the case alone. -/
theorem lower_trim_end : lower (trimEnd cs) = trimEnd (lower cs) := by
  have hreverse (ds : List Char) : lower ds.reverse = (lower ds).reverse := List.map_reverse
  rw [trimEnd, ← trimStart, hreverse, lower_trim_start, hreverse]
  rfl

/-- Trimming leaves the case alone. -/
theorem lower_trim : lower (trim cs) = trim (lower cs) := by
  rw [trim, lower_trim_end, lower_trim_start, trim]

end ChangeFeed.Text
