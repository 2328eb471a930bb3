import ChangeFeed.Proofs.Text.Cut
import Mathlib.Data.List.TakeWhile

/-!
# Trimmed texts

Blanks at either end do not count (`trim_blank_append`, `trim_append_blank`), and every text is what
is left of it with blanks around (`exists_padding`).
-/

namespace ChangeFeed.Text

variable {cs front back : List Char}

/-- There is nothing but blanks. -/
def AreBlank (cs : List Char) : Prop :=
  ∀ c ∈ cs, isBlank c = true

/-- Whether there is nothing but blanks can be computed. -/
instance (cs : List Char) : Decidable (AreBlank cs) :=
  decidable_of_iff (cs.all isBlank = true) List.all_eq_true

/-- There may be no blanks. -/
theorem are_blank_nil : AreBlank [] :=
  nofun

/-- Blanks in front do not count. -/
theorem trim_start_blank_append (h : AreBlank front) : trimStart (front ++ cs) = trimStart cs :=
  List.dropWhile_append_of_pos h

/-- Blanks behind do not count. -/
theorem trim_end_append_blank (h : AreBlank back) : trimEnd (cs ++ back) = trimEnd cs := by
  have hreverse : AreBlank back.reverse := fun c hc => h c (List.mem_reverse.mp hc)
  rw [trimEnd, List.reverse_append, ← trimStart, trim_start_blank_append hreverse]
  rfl

/-- Blanks in front of a text do not count. -/
theorem trim_blank_append (h : AreBlank front) : trim (front ++ cs) = trim cs := by
  rw [trim, trim_start_blank_append h, ← trim]

/-- Blanks behind a text do not count. -/
theorem trim_append_blank (h : AreBlank back) : trim (cs ++ back) = trim cs := by
  rw [trim, trimStart, List.dropWhile_append]
  split
  · -- There is nothing but blanks.
    rename_i hempty
    have hcs : trimStart cs = [] := by simpa [trimStart] using hempty
    have hback : back.dropWhile isBlank = [] := List.dropWhile_eq_nil_iff.mpr h
    rw [trim, hback, hcs]
  · exact trim_end_append_blank h

/-- Every text is what is left of it when it is trimmed at the end, with blanks behind. -/
theorem exists_padding_end (cs : List Char) : ∃ back, AreBlank back ∧ cs = trimEnd cs ++ back := by
  refine ⟨(cs.reverse.takeWhile isBlank).reverse, fun c hc => ?_, ?_⟩
  · exact List.mem_takeWhile_imp (List.mem_reverse.mp hc)
  · rw [trimEnd, ← List.reverse_append, List.takeWhile_append_dropWhile, List.reverse_reverse]

/-- Every text is what is left of it when it is trimmed, with blanks around. -/
theorem exists_padding (cs : List Char) :
    ∃ front back, AreBlank front ∧ AreBlank back ∧ cs = front ++ (trim cs ++ back) := by
  have hstart : cs = cs.takeWhile isBlank ++ trimStart cs :=
    List.takeWhile_append_dropWhile.symm
  obtain ⟨back, hback, hend⟩ := exists_padding_end (trimStart cs)
  exact ⟨cs.takeWhile isBlank, back, fun c hc => List.mem_takeWhile_imp hc, hback, hend ▸ hstart⟩

/-- It is the same whether a text is trimmed at the end before it is trimmed at both. -/
theorem trim_trim_end : trim (trimEnd cs) = trim cs := by
  obtain ⟨back, hback, hcs⟩ := exists_padding_end cs
  conv_rhs => rw [hcs, trim_append_blank hback]

/-- What is trimmed has no blanks at its ends. -/
theorem trim_trim : trim (trim cs) = trim cs := by
  obtain ⟨front, back, hfront, hback, hcs⟩ := exists_padding cs
  conv_rhs => rw [hcs, trim_blank_append hfront, trim_append_blank hback]

/-- Nothing is trimmed in front of a text that has no blank there. -/
theorem trim_start_of_first (h : ∀ c ∈ cs.head?, isBlank c = false) : trimStart cs = cs := by
  cases cs with
  | nil => rfl
  | cons c cs => exact trim_start_cons (h c rfl)

/-- Nothing is trimmed behind a text that has no blank there. -/
theorem trim_end_of_last (h : ∀ c ∈ cs.getLast?, isBlank c = false) : trimEnd cs = cs := by
  cases hlast : cs.getLast? with
  | none =>
      obtain rfl := List.getLast?_eq_none_iff.mp hlast
      rfl
  | some last =>
      obtain ⟨front, rfl⟩ := List.getLast?_eq_some_iff.mp hlast
      exact trim_end_append (h last hlast)

/-- Nothing is trimmed from a text without blanks at its ends. -/
theorem trim_of_ends (hfirst : ∀ c ∈ cs.head?, isBlank c = false)
    (hlast : ∀ c ∈ cs.getLast?, isBlank c = false) : trim cs = cs := by
  rw [trim, trim_start_of_first hfirst, trim_end_of_last hlast]

end ChangeFeed.Text
