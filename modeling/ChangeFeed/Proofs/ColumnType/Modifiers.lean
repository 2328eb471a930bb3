import ChangeFeed.Proofs.ColumnType.Words
import ChangeFeed.Proofs.Number.IntegerText
import ChangeFeed.Schema.Lookup

/-!
# Modifiers of type names

Of the integers that are printed as the modifiers of a name those count that are natural numbers
of 32 bits; the others are dropped, so that what stands behind them moves up
(`modifiers_of_printed`). Read `numeric_type_eq_iff` first: the type of a numeric column has the
precision and the scale that the server reports exactly if both of them count.
-/

namespace ChangeFeed

namespace ColumnType

/-- An integer that counts as a modifier. -/
def IsModifier (n : Int) : Prop :=
  0 ≤ n ∧ n < 2 ^ 32

/-- Whether an integer counts as a modifier can be computed. -/
instance (n : Int) : Decidable (IsModifier n) :=
  inferInstanceAs (Decidable (0 ≤ n ∧ n < 2 ^ 32))

/-- The modifiers among some integers, in order. -/
def counted (numbers : List Int) : List Nat :=
  (numbers.filter (IsModifier ·)).map Int.toNat

/-- An integer cut to eight bits. -/
def clamped (n : Int) : UInt8 :=
  UInt8.ofNat (min n.toNat 255)

/-! ## Reading modifiers -/

/-- A printed integer is small, and has neither blanks nor what is outside of modifiers. -/
theorem printed_char (n : Int) {c : Char} (h : c ∈ (Number.decimalInt n).toList) :
    Text.isBlank c = false ∧ c.toLower = c ∧ c ∉ outsiders := by
  have hdigit (hc : c ∈ Number.digits 10 n.natAbs) :
      Text.isBlank c = false ∧ c.toLower = c ∧ c ∉ outsiders := by
    obtain ⟨digit, hlt, rfl⟩ := Number.mem_digits (by omega) hc
    exact digit_char hlt
  rw [Number.to_list_decimal_int] at h
  split at h
  · rcases List.mem_cons.mp h with rfl | h
    · decide
    · exact hdigit h
  · exact hdigit h

/-- A printed integer is a modifier exactly if it counts. -/
theorem read_modifier (n : Int) :
    (Number.readNat 10 (Nat.pow 2 32 - 1) (Text.trim (Number.decimalInt n).toList)).toOption =
      if IsModifier n then some n.toNat else none := by
  have htrim : Text.trim (Number.decimalInt n).toList = (Number.decimalInt n).toList :=
    Text.trim_of_no_blank fun c hc => (printed_char n hc).1
  have hpow : Nat.pow 2 32 = 4294967296 := rfl
  rw [htrim, Number.read_nat_decimal_int]
  by_cases hcounts : IsModifier n
  · obtain ⟨hnonneg, hlt⟩ := hcounts
    rw [if_neg (by omega), if_pos (by omega), if_pos ⟨hnonneg, hlt⟩]
    exact congrArg some (by omega)
  · rw [if_neg hcounts]
    unfold IsModifier at hcounts
    by_cases hneg : n < 0
    · rw [if_pos hneg]
      rfl
    · rw [if_neg hneg, if_neg (by omega)]
      rfl

/-- The modifiers of printed integers are those that count. -/
theorem modifiers_of_printed {numbers : List Int} (hne : numbers ≠ []) :
    modifiersOf ([','].intercalate (numbers.map fun n => (Number.decimalInt n).toList)) =
      counted numbers := by
  have hcomma : ∀ part ∈ numbers.map fun n => (Number.decimalInt n).toList, ',' ∉ part := by
    intro part hpart hmem
    obtain ⟨n, -, rfl⟩ := List.mem_map.mp hpart
    exact (printed_char n hmem).2.2 (by decide)
  rw [modifiersOf, Text.parts, List.splitOn_intercalate ',' hcomma (by simpa using hne)]
  clear hne hcomma
  induction numbers with
  | nil => rfl
  | cons n numbers ih =>
      rw [List.map_cons, List.filterMap_cons, read_modifier, ih]
      by_cases hcounts : IsModifier n <;> simp [counted, hcounts]

/-! ## Numeric columns -/

/-- A numeric column is named with its precision and its scale in parentheses. -/
theorem numeric_type_name (userType : String) (length : Option Int) (p s : Int) :
    (Schema.typeName "numeric" userType length (some p) (some s)).toList =
      "numeric".toList ++ '(' ::
        (((Number.decimalInt p).toList ++ ',' :: (Number.decimalInt s).toList) ++ [')']) := by
  have hprinted : Schema.typeName "numeric" userType length (some p) (some s) =
      "numeric(" ++ Number.decimalInt p ++ "," ++ Number.decimalInt s ++ ")" := rfl
  have hopening : "numeric(".toList = "numeric".toList ++ ['('] := rfl
  rw [hprinted]
  simp only [String.toList_append, hopening, List.append_assoc]
  rfl

/-- Two printed modifiers with a comma between them may stand between parentheses. -/
theorem are_inside_printed (p s : Int) :
    AreInside ((Number.decimalInt p).toList ++ ',' :: (Number.decimalInt s).toList) := by
  have hprinted {n : Int} {c : Char} (hc : c ∈ (Number.decimalInt n).toList) :
      c.toLower = c ∧ (c = ',' ∨ c ∉ outsiders) := by
    obtain ⟨-, hlower, hinside⟩ := printed_char n hc
    exact ⟨hlower, .inr hinside⟩
  intro c hc
  simp only [List.mem_append, List.mem_cons] at hc
  obtain hc | rfl | hc := hc
  · exact hprinted hc
  · decide
  · exact hprinted hc

/-- The modifiers of a numeric column are its precision and its scale, if they count. A missing
first one is 38 and a missing second one is 10. -/
theorem numeric_type_eq (userType : String) (length : Option Int) (p s : Int) :
    ofName (Schema.typeName "numeric" userType length (some p) (some s)) =
      .decimal (byteModifier (counted [p, s]) 0 38) (byteModifier (counted [p, s]) 1 10) := by
  have hmodifiers : modifiersOf ((Number.decimalInt p).toList ++ ',' ::
      (Number.decimalInt s).toList) = counted [p, s] := by
    have hprinted := modifiers_of_printed (List.cons_ne_nil p [s])
    simpa [List.intercalate] using hprinted
  have hwords : "numeric".toList ≠ [] ∧ AreWords "numeric".toList := by decide
  have hbehind :=
    of_name_behind hwords.1 hwords.2 Text.are_blank_nil (are_inside_printed p s)
  rw [List.nil_append] at hbehind
  rw [ofName, numeric_type_name, hbehind, hmodifiers, String.ofList_toList]
  rfl

/-- What does not count as a modifier is cut to no default value. -/
theorem clamped_ne_default {n : Int} (h : ¬ IsModifier n) : clamped n ≠ 10 ∧ clamped n ≠ 38 := by
  have hends : min n.toNat 255 = 0 ∨ min n.toNat 255 = 255 := by
    unfold IsModifier at h
    omega
  unfold clamped
  rcases hends with hmin | hmin
  · rw [hmin]
    decide
  · rw [hmin]
    decide

/-- A numeric column has the precision and the scale that the server reports, cut to eight bits,
exactly if both count as modifiers. -/
theorem numeric_type_eq_iff (userType : String) (length : Option Int) (p s : Int) :
    ofName (Schema.typeName "numeric" userType length (some p) (some s)) =
        .decimal (byteModifier (counted [p, s]) 0 38) (byteModifier (counted [p, s]) 1 10) ∧
      (ofName (Schema.typeName "numeric" userType length (some p) (some s)) =
          .decimal (clamped p) (clamped s) ↔
        IsModifier p ∧ IsModifier s) := by
  refine ⟨numeric_type_eq userType length p s, ?_⟩
  rw [numeric_type_eq, ColumnType.decimal.injEq]
  by_cases hp : IsModifier p <;> by_cases hs : IsModifier s
  · have hcounted : counted [p, s] = [p.toNat, s.toNat] := by simp [counted, hp, hs]
    rw [hcounted]
    exact iff_of_true ⟨rfl, rfl⟩ ⟨hp, hs⟩
  · have hcounted : counted [p, s] = [p.toNat] := by simp [counted, hp, hs]
    rw [hcounted]
    refine iff_of_false (fun heq => ?_) fun h => hs h.2
    exact (clamped_ne_default hs).1 heq.2.symm
  · -- The scale moves up to the place of the precision, and its own place is empty.
    have hcounted : counted [p, s] = [s.toNat] := by simp [counted, hp, hs]
    rw [hcounted]
    refine iff_of_false (fun heq => ?_) fun h => hp h.1
    have hmoved : clamped s = clamped p := heq.1
    exact (clamped_ne_default hp).1 (hmoved.symm.trans heq.2.symm)
  · have hcounted : counted [p, s] = [] := by simp [counted, hp, hs]
    rw [hcounted]
    refine iff_of_false (fun heq => ?_) fun h => hp h.1
    exact (clamped_ne_default hp).2 heq.1.symm

/-- The scale of a column is replaced by a default if it is negative. -/
theorem negative_scale_replaced :
    ofName (Schema.typeName "numeric" "numeric" none (some 5) (some (-2))) = .decimal 5 10 ∧
      ofName (Schema.typeName "numeric" "numeric" none (some 5) (some (-2))) ≠
        .decimal (clamped 5) (clamped (-2)) := by
  rw [numeric_type_eq]
  decide

end ColumnType

end ChangeFeed
