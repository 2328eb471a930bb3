import ChangeFeed.ColumnType.Name
import ChangeFeed.Proofs.Text.Case
import ChangeFeed.Proofs.Text.Cut

/-!
# Marks of array types

A name may bear marks of arrays at both of its ends, with blanks between them. Whatever the rest of
it is, each mark makes an array of what the name without it stands for (`of_name_brackets`,
`of_name_score`), and so do all of them together (`of_name_marked`). Every text is a name without
marks that bears some (`exists_marked`).
-/

namespace ChangeFeed.ColumnType

open Text (AreBlank)

variable {core cs ds element front back : List Char} {m k : Nat}

/-! ## Blanks and the case of letters -/

/-- Blanks around a name do not count. -/
theorem normal_name_padded (hfront : AreBlank front) (hback : AreBlank back) :
    normalName (front ++ (cs ++ back)) = normalName cs := by
  rw [normalName, Text.trim_blank_append hfront, Text.trim_append_blank hback, normalName]

/-- The case of letters does not count. -/
theorem normal_name_lower : normalName (Text.lower cs) = normalName cs := by
  rw [normalName, normalName, ← Text.lower_trim, Text.lower_lower]

/-- A normal form is its own normal form. -/
theorem normal_name_normal_name : normalName (normalName cs) = normalName cs := by
  rw [normalName, normalName, Text.lower_trim, Text.lower_lower, ← Text.lower_trim, Text.trim_trim]

/-- A name that bears a mark is that of an array. -/
theorem of_name_element (h : elementOf (normalName cs) = some element) :
    ofNameChars cs = .array (ofNameChars element) := by
  rw [ofNameChars]
  split
  · rename_i found hfound
    obtain rfl := Option.some.inj (h.symm.trans hfound)
    rfl
  · rename_i hnone
    exact absurd (h.symm.trans hnone) (by simp)

/-- A name that bears no mark is that of its base with modifiers. -/
theorem of_name_base (h : elementOf (normalName cs) = none) :
    ofNameChars cs = ofBase (String.ofList (splitModifiers (normalName cs)).1)
      (splitModifiers (normalName cs)).2 := by
  rw [ofNameChars]
  split
  · rename_i element hfound
    exact absurd (h.symm.trans hfound) (by simp)
  · rfl

/-- What a name stands for is settled by its normal form. -/
theorem of_name_congr (h : normalName cs = normalName ds) : ofNameChars cs = ofNameChars ds := by
  cases helement : elementOf (normalName cs) with
  | some element =>
      have hother : elementOf (normalName ds) = some element := h ▸ helement
      rw [of_name_element helement, of_name_element hother]
  | none =>
      have hother : elementOf (normalName ds) = none := h ▸ helement
      rw [of_name_base helement, of_name_base hother, h]

/-! ## One mark -/

/-- The mark behind a name is taken off, or else the one in front. -/
theorem element_of_eq_some_iff :
    elementOf cs = some element ↔
      cs = element ++ ['[', ']'] ∨ ¬ ['[', ']'] <:+ cs ∧ cs = '_' :: element := by
  have hnone : Text.stripEnd ['[', ']'] cs = none ↔ ¬ ['[', ']'] <:+ cs := by
    rw [Option.eq_none_iff_forall_ne_some]
    simp only [ne_eq, Text.strip_end_eq_some_iff]
    exact ⟨fun h ⟨rest, hrest⟩ => h rest hrest.symm, fun h rest hrest => h ⟨rest, hrest.symm⟩⟩
  rw [elementOf, Option.or_eq_some_iff, hnone, Text.strip_end_eq_some_iff,
    Text.strip_start_eq_some_iff]
  rfl

/-- The mark behind a name makes an array. -/
theorem of_name_brackets (cs : List Char) :
    ofNameChars (cs ++ ['[', ']']) = .array (ofNameChars cs) := by
  have hblank : Text.isBlank '[' = false ∧ Text.isBlank ']' = false := by decide
  have htrim : Text.trim (cs ++ ['[', ']']) = Text.trimStart cs ++ ['[', ']'] := by
    have hsplit (ds : List Char) : ds ++ ['[', ']'] = (ds ++ ['[']) ++ [']'] := by simp
    have hstart : Text.trimStart (cs ++ ['[', ']']) = Text.trimStart cs ++ ['[', ']'] := by
      rw [Text.trimStart, List.dropWhile_append]
      split
      · rename_i hempty
        have hcs : Text.trimStart cs = [] := by simpa [Text.trimStart] using hempty
        rw [hcs, ← Text.trimStart, Text.trim_start_cons hblank.1]
        rfl
      · rfl
    rw [Text.trim, hstart, hsplit]
    exact Text.trim_end_append hblank.2
  have hnormal : normalName (cs ++ ['[', ']']) =
      Text.lower (Text.trimStart cs) ++ ['[', ']'] := by
    rw [normalName, htrim, Text.lower, List.map_append, Text.lower]
    rfl
  have helement : elementOf (normalName (cs ++ ['[', ']'])) =
      some (Text.lower (Text.trimStart cs)) :=
    element_of_eq_some_iff.mpr (.inl hnormal)
  have hrest : normalName (Text.lower (Text.trimStart cs)) = normalName cs := by
    rw [normal_name_lower, normalName, Text.trim, Text.trim_start_trim_start, ← Text.trim,
      ← normalName]
  rw [of_name_element helement, of_name_congr hrest]

/-- The normal form of a name with the mark in front has it in front as well. -/
theorem normal_name_score (cs : List Char) :
    normalName ('_' :: cs) = '_' :: Text.lower (Text.trimEnd cs) := by
  have hscore : Text.isBlank '_' = false := by decide
  have htrim : Text.trim ('_' :: cs) = '_' :: Text.trimEnd cs := by
    rw [Text.trim, Text.trim_start_cons hscore]
    exact @Text.trim_end_append_cons [] '_' hscore cs
  rw [normalName, htrim]
  rfl

/-- Neither the case of letters nor blanks behind a name count. -/
theorem normal_name_lower_trim_end (cs : List Char) :
    normalName (Text.lower (Text.trimEnd cs)) = normalName cs := by
  rw [normal_name_lower, normalName, Text.trim_trim_end, ← normalName]

/-- The mark in front of a name makes an array, also where marks behind the name are taken off
first. -/
theorem of_name_score (cs : List Char) : ofNameChars ('_' :: cs) = .array (ofNameChars cs) := by
  induction hlength : cs.length using Nat.strongRecOn generalizing cs with
  | ind length ih =>
      by_cases hbrackets : ['[', ']'] <:+ Text.lower (Text.trimEnd cs)
      · -- The mark behind comes first: the name without it still has the one in front.
        obtain ⟨inner, hinner⟩ := hbrackets
        have hshorter : inner.length < length := by
          obtain ⟨back, -, hback⟩ := Text.exists_padding_end cs
          have hinside := congrArg List.length hinner
          have houtside := congrArg List.length hback
          simp only [Text.lower, List.length_append, List.length_map, List.length_cons]
            at hinside houtside
          omega
        have hscored : normalName ('_' :: cs) = normalName (('_' :: inner) ++ ['[', ']']) := by
          rw [List.cons_append, hinner, ← normal_name_score, normal_name_normal_name]
        calc ofNameChars ('_' :: cs)
            = ofNameChars (('_' :: inner) ++ ['[', ']']) := of_name_congr hscored
          _ = .array (ofNameChars ('_' :: inner)) := of_name_brackets _
          _ = .array (.array (ofNameChars inner)) := by rw [ih _ hshorter inner rfl]
          _ = .array (ofNameChars (inner ++ ['[', ']'])) := by rw [of_name_brackets]
          _ = .array (ofNameChars cs) := by
            rw [hinner, of_name_congr (normal_name_lower_trim_end cs)]
      · have helement : elementOf (normalName ('_' :: cs)) =
            some (Text.lower (Text.trimEnd cs)) := by
          rw [normal_name_score]
          refine element_of_eq_some_iff.mpr (.inr ⟨fun hsuffix => ?_, rfl⟩)
          rcases List.suffix_cons_iff.mp hsuffix with heq | hsuffix
          · exact absurd (List.cons.inj heq).1 (by decide)
          · exact hbrackets hsuffix
        rw [of_name_element helement, of_name_congr (normal_name_lower_trim_end cs)]

/-! ## All marks -/

/-- A name bears `m` marks behind it and `k` in front of it, in any order and with blanks between
them. -/
inductive Marked (core : List Char) : Nat → Nat → List Char → Prop where
  | core : Marked core 0 0 core
  | padded {m k : Nat} {front cs back : List Char} (hfront : AreBlank front) (hback : AreBlank back)
      (h : Marked core m k cs) : Marked core m k (front ++ (cs ++ back))
  | brackets {m k : Nat} {cs : List Char} (h : Marked core m k cs) :
      Marked core (m + 1) k (cs ++ ['[', ']'])
  | score {m k : Nat} {cs : List Char} (h : Marked core m k cs) : Marked core m (k + 1) ('_' :: cs)

/-- There is no mark at either end of a name. -/
def IsUnmarked (core : List Char) : Prop :=
  ¬ ['[', ']'] <:+ Text.trim core ∧ ¬ ['_'] <+: Text.trim core

/-- Each mark makes an array of what the name stands for. -/
theorem of_name_marked (h : Marked core m k cs) :
    ofNameChars cs = ColumnType.array^[m + k] (ofNameChars core) := by
  induction h with
  | core => rfl
  | padded hfront hback _ ih => rw [of_name_congr (normal_name_padded hfront hback), ih]
  | @brackets m k _ _ ih =>
      rw [of_name_brackets, ih, Nat.add_right_comm, Function.iterate_succ_apply']
  | @score m k _ _ ih => rw [of_name_score, ih, ← Nat.add_assoc, Function.iterate_succ_apply']

/-- Every text is a name without marks that bears some, no more of them than there is room for. -/
theorem exists_marked (cs : List Char) :
    ∃ core m k, Marked core m k cs ∧ IsUnmarked core ∧ 2 * m + k + core.length ≤ cs.length := by
  induction hlength : cs.length using Nat.strongRecOn generalizing cs with
  | ind length ih =>
      -- A mark that is taken off behind is a mark less to look for, and so is one in front.
      obtain ⟨front, back, hfront, hback, hcs⟩ := Text.exists_padding cs
      have hpadding := congrArg List.length hcs
      simp only [List.length_append] at hpadding
      by_cases hbrackets : ['[', ']'] <:+ Text.trim cs
      · obtain ⟨inner, hinner⟩ := hbrackets
        have hinside := congrArg List.length hinner
        simp only [List.length_append, List.length_cons, List.length_nil] at hinside
        obtain ⟨core, m, k, hmarked, hunmarked, hroom⟩ := ih inner.length (by omega) inner rfl
        refine ⟨core, m + 1, k, ?_, hunmarked, by omega⟩
        rw [hcs, ← hinner]
        exact .padded hfront hback (.brackets hmarked)
      · by_cases hscore : ['_'] <+: Text.trim cs
        · obtain ⟨inner, hinner⟩ := hscore
          have hinside := congrArg List.length hinner
          simp only [List.length_append, List.length_cons, List.length_nil] at hinside
          obtain ⟨core, m, k, hmarked, hunmarked, hroom⟩ := ih inner.length (by omega) inner rfl
          refine ⟨core, m, k + 1, ?_, hunmarked, by omega⟩
          rw [hcs, ← hinner]
          exact .padded hfront hback (.score hmarked)
        · exact ⟨cs, 0, 0, .core, ⟨hbrackets, hscore⟩, by omega⟩

/-- A name without marks is that of its base with modifiers. -/
theorem of_name_unmarked (h : IsUnmarked core) :
    ofNameChars core = ofBase (String.ofList (splitModifiers (normalName core)).1)
      (splitModifiers (normalName core)).2 := by
  refine of_name_base (Option.eq_none_iff_forall_ne_some.mpr fun element helement => ?_)
  have hsame {c d : Char} (hd : d.isAlpha = false) (hc : c.toLower = d) : c = d :=
    (Text.to_lower_eq_iff hd).mp hc
  rcases element_of_eq_some_iff.mp helement with hbrackets | ⟨-, hscore⟩
  · obtain ⟨inner, mark, hcore, -, hmark⟩ := List.map_eq_append_iff.mp hbrackets
    obtain ⟨c, more, rfl, hc, hmore⟩ := List.map_eq_cons_iff.mp hmark
    obtain ⟨d, more, rfl, hd, hmore⟩ := List.map_eq_cons_iff.mp hmore
    obtain rfl := List.map_eq_nil_iff.mp hmore
    obtain rfl := hsame (by decide) hc
    obtain rfl := hsame (by decide) hd
    exact h.1 ⟨inner, hcore.symm⟩
  · obtain ⟨c, inner, hcore, hc, -⟩ := List.map_eq_cons_iff.mp hscore
    obtain rfl := hsame (by decide) hc
    exact h.2 ⟨inner, hcore.symm⟩

end ChangeFeed.ColumnType
