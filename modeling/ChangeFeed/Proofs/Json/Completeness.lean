import ChangeFeed.Proofs.Json.Grammar
import ChangeFeed.Proofs.Number.DecimalText

/-!
# Every text of a document is read

The reader is complete for the grammar: every text that spells a document is read as that document
(`Json.read_chars_spelled`). A number ends where nothing goes on with it (`Json.Ends`), and what
follows a value in a document always ends it. The main lemmas follow the reader, one for values, one
for items and one for fields.
-/

namespace ChangeFeed.Json

/-! ## Spaces -/

/-- Spaces are skipped. -/
theorem skip_spaces_gap {gap : List Char} (h : IsGap gap) (cs : List Char) :
    skipSpaces (gap ++ cs) = skipSpaces cs :=
  List.dropWhile_append_of_pos h

/-- Other characters are not. -/
theorem skip_spaces_cons {c : Char} (h : isSpace c = false) (cs : List Char) :
    skipSpaces (c :: cs) = c :: cs :=
  List.dropWhile_cons_of_neg (by simp [h])

/-- Spaces in front of a value are skipped. -/
theorem read_value_gap {gap : List Char} (h : IsGap gap) (fuel depth : Nat) (cs : List Char) :
    readValue fuel depth (gap ++ cs) = readValue fuel depth cs := by
  cases fuel with
  | zero => rfl
  | succ fuel => rw [readValue, readValue, skip_spaces_gap h]

/-- Spaces in front of items are skipped. -/
theorem read_items_gap {gap : List Char} (h : IsGap gap) (fuel depth : Nat) (cs : List Char) :
    readItems fuel depth (gap ++ cs) = readItems fuel depth cs := by
  cases fuel with
  | zero => rfl
  | succ fuel => rw [readItems, readItems, read_value_gap h]

/-- Spaces in front of fields are skipped. -/
theorem read_fields_gap {gap : List Char} (h : IsGap gap) (fuel depth : Nat) (cs : List Char) :
    readFields fuel depth (gap ++ cs) = readFields fuel depth cs := by
  cases fuel with
  | zero => rfl
  | succ fuel => rw [readFields, readFields, skip_spaces_gap h]

/-! ## What ends a value -/

/-- What follows a value does not go on with it. -/
def Ends (rest : List Char) : Prop :=
  ∀ c ∈ rest.head?, c.isDigit = false ∧ c ≠ '.' ∧ c ≠ 'e' ∧ c ≠ 'E'

/-- Nothing ends a value. -/
theorem ends_nil : Ends [] := by
  simp [Ends]

/-- Spaces do not go on with a value. -/
theorem ends_gap {gap : List Char} (h : IsGap gap) {cs : List Char} (hcs : Ends cs) :
    Ends (gap ++ cs) := by
  cases gap with
  | nil => exact hcs
  | cons c gap =>
      intro d hd
      obtain rfl := Option.some.inj hd
      have hspace := h c List.mem_cons_self
      have hcases : c = ' ' ∨ c = '\t' ∨ c = '\n' ∨ c = '\r' := by
        simpa [isSpace, or_assoc] using hspace
      rcases hcases with rfl | rfl | rfl | rfl <;> decide

/-- Separators and closing brackets do not go on with a value. -/
theorem ends_cons {c : Char} (h : c = ',' ∨ c = ']' ∨ c = '}') (cs : List Char) :
    Ends (c :: cs) := by
  intro d hd
  obtain rfl := Option.some.inj hd
  rcases h with rfl | rfl | rfl <;> decide

/-! ## Texts are read -/

/-- The digits of a unit are read as that unit. -/
theorem read_unit_spelled {unit : Nat} {ds : List Char} (h : SpellsUnit unit ds)
    (rest : List Char) : readUnit (ds ++ rest) = some (unit, rest) := by
  obtain ⟨a, b, c, d, hdigits, rfl⟩ := h
  simp only [List.map_eq_cons_iff, List.map_eq_nil_iff] at hdigits
  obtain ⟨ca, _, rfl, ha, cb, _, rfl, hb, cc, _, rfl, hc, cd, _, rfl, hd, rfl⟩ := hdigits
  simp [readUnit, ha, hb, hc, hd]

/-- No short escape looks like a unit. -/
theorem escaped_char_ne {e c : Char} (h : escapedChar? e = some c) : e ≠ 'u' := by
  rintro rfl
  exact absurd h nofun

/-- Behind half of a pair the text goes on as it is. -/
theorem escaped_unit_half {unit : Nat} {value : Option (List Char)} {cs : List Char}
    (hhalf : isLowSurrogate unit = true ∨ isHighSurrogate unit = true ∧
      ∀ low es more, SpellsUnit low es → cs = '\\' :: 'u' :: (es ++ more) →
        isLowSurrogate low = false)
    (h : SpellsText value cs) (rest : List Char) :
    escapedUnit unit (cs ++ '"' :: rest) = (none, cs ++ '"' :: rest) := by
  rcases hhalf with hlow | ⟨hhigh, halone⟩
  · have hhigh : isHighSurrogate unit = false := by
      simp only [isLowSurrogate, Bool.and_eq_true, decide_eq_true_eq] at hlow
      simp only [isHighSurrogate, Bool.and_eq_false_iff, decide_eq_false_iff_not]
      omega
    simp [escapedUnit, hhigh, hlow]
  · have hfollows (low : Nat) (es more : List Char) (hes : SpellsUnit low es)
        (hcs : cs = '\\' :: 'u' :: (es ++ more)) :
        escapedUnit unit (cs ++ '"' :: rest) = (none, cs ++ '"' :: rest) := by
      have hnot := halone low es more hes hcs
      simp [escapedUnit, hhigh, hcs, List.append_assoc, read_unit_spelled hes, hnot]
    -- What follows is no escape, or a short one, or that of another unit.
    cases h with
    | nil => simp [escapedUnit, hhigh]
    | plain hc _ => simp [escapedUnit, hhigh, hc.2.1]
    | @short e _ _ _ hescape _ =>
        have hne : e ≠ 'u' := escaped_char_ne hescape
        simp [escapedUnit, hhigh, hne]
    | unit hunit _ _ => exact hfollows _ _ _ hunit rfl
    | pair hunits _ _ => exact hfollows _ _ _ hunits.1 rfl
    | half hunit _ _ => exact hfollows _ _ _ hunit rfl

/-- What stands between quotes is read as the text that it spells. -/
theorem read_text_spelled {value : Option (List Char)} {cs : List Char} (h : SpellsText value cs)
    {fuel : Nat} (hfuel : cs.length < fuel) (rest : List Char) :
    readText fuel (cs ++ '"' :: rest) = some (value, rest) := by
  induction h generalizing fuel with
  | nil =>
      obtain ⟨fuel, rfl⟩ := Nat.exists_eq_add_of_lt hfuel
      simp [readText]
  | plain hc _ ih =>
      obtain ⟨fuel, rfl⟩ : ∃ more, fuel = more + 1 := ⟨fuel - 1, by omega⟩
      have hcontrol := Nat.not_lt.mpr hc.2.2
      have hmore := ih (Nat.lt_of_succ_lt_succ hfuel)
      simp [readText, hc.1, hc.2.1, hcontrol, hmore]
  | @short e _ _ _ hescape _ ih =>
      obtain ⟨fuel, rfl⟩ : ∃ more, fuel = more + 1 := ⟨fuel - 1, by omega⟩
      have hne : e ≠ 'u' := escaped_char_ne hescape
      have hmore := ih (Nat.lt_of_succ_lt (Nat.lt_of_succ_lt_succ hfuel))
      simp [readText, hne, hescape, hmore]
  | unit hunit hwhole _ ih =>
      obtain ⟨fuel, rfl⟩ : ∃ more, fuel = more + 1 := ⟨fuel - 1, by omega⟩
      simp only [List.length_cons, List.length_append] at hfuel
      have hmore : readText fuel _ = _ := ih (by omega)
      simp [readText, List.append_assoc, read_unit_spelled hunit, escapedUnit, hwhole, hmore]
  | pair hunits hpair _ ih =>
      obtain ⟨fuel, rfl⟩ : ∃ more, fuel = more + 1 := ⟨fuel - 1, by omega⟩
      simp only [List.length_cons, List.length_append] at hfuel
      have hmore : readText fuel _ = _ := ih (by omega)
      simp [readText, List.append_assoc, read_unit_spelled hunits.1, escapedUnit, hpair,
        read_unit_spelled hunits.2, hmore]
  | half hunit hhalf h ih =>
      obtain ⟨fuel, rfl⟩ : ∃ more, fuel = more + 1 := ⟨fuel - 1, by omega⟩
      simp only [List.length_cons, List.length_append] at hfuel
      have hmore : readText fuel _ = _ := ih (by omega)
      simp [readText, List.append_assoc, read_unit_spelled hunit, escaped_unit_half hhalf h, hmore]

/-! ## Numbers are read -/

/-- Digits in front of what is no digit are the leading ones. -/
theorem leading_digits_append {ds rest : List Char} (hds : ∀ c ∈ ds, c.isDigit = true)
    (hrest : ∀ c ∈ rest.head?, c.isDigit = false) :
    Numeral.leadingDigits (ds ++ rest) = (ds, rest) := by
  obtain ⟨htake, hdrop⟩ := Number.take_digits hds hrest
  rw [Numeral.leadingDigits, htake, hdrop]

/-- The digits of a whole number are scanned. -/
theorem scan_whole_spelled {ds rest : List Char} (hds : AreDigits ds)
    (hzero : ds.head? = some '0' → ds = ['0']) (hrest : ∀ c ∈ rest.head?, c.isDigit = false) :
    Numeral.scanWhole (ds ++ rest) = some (ds, rest) := by
  unfold Numeral.scanWhole
  rw [leading_digits_append hds.2 hrest]
  split
  · rename_i heq
    exact absurd (Prod.mk.inj heq).1 hds.1
  · -- A zero stands alone.
    rename_i heq
    obtain ⟨rfl, -⟩ := Prod.mk.inj heq
    exact absurd (hzero rfl) (by simp)
  · rfl

/-- A fraction is scanned in front of what is neither a digit nor a point. -/
theorem scan_fraction_spelled {ds cs rest : List Char} (h : SpellsFraction ds cs)
    (hrest : ∀ c ∈ rest.head?, c.isDigit = false ∧ c ≠ '.') :
    Numeral.scanFraction (cs ++ rest) = some (ds, rest) := by
  cases h with
  | none =>
      unfold Numeral.scanFraction
      split
      · rename_i heq
        exact absurd rfl (hrest '.' (by rw [← List.nil_append rest, heq]; rfl)).2
      · rfl
  | digits hds =>
      simp only [List.cons_append, Numeral.scanFraction]
      rw [leading_digits_append hds.2 fun c hc => (hrest c hc).1]
      split
      · rename_i heq
        exact absurd (Prod.mk.inj heq).1 hds.1
      · rfl

/-- The sign of an exponent is read in front of its digits. -/
theorem read_sign_spelled {negative : Bool} {sign ds : List Char}
    (hsign : (negative = true ∧ sign = ['-']) ∨ (negative = false ∧ (sign = [] ∨ sign = ['+'])))
    (hds : AreDigits ds) (rest : List Char) :
    Number.readSign (sign ++ (ds ++ rest)) = (negative, ds ++ rest) := by
  obtain ⟨d, ds, rfl⟩ := List.exists_cons_of_ne_nil hds.1
  have hdigit := Number.digit_ne (hds.2 d List.mem_cons_self)
  refine Number.read_sign_of (Number.spells_sign_iff.mpr hsign) fun c hc => ?_
  obtain rfl := Option.some.inj hc
  exact ⟨hdigit.1, hdigit.2.1⟩

/-- An exponent is scanned in front of what can end a number. -/
theorem scan_exponent_spelled {exponent : Option (Bool × List Char)} {cs rest : List Char}
    (h : SpellsExponent exponent cs) (hrest : Ends rest) :
    Numeral.scanExponent (cs ++ rest) = some (exponent, rest) := by
  cases h with
  | none =>
      cases rest with
      | nil => rfl
      | cons c rest =>
          obtain ⟨-, -, hsmall, hlarge⟩ := hrest c rfl
          simp [Numeral.scanExponent, hsmall, hlarge]
  | digits hmark hsign hds =>
      simp only [List.cons_append, List.append_assoc, Numeral.scanExponent]
      rw [if_pos (by simpa using hmark), read_sign_spelled hsign hds]
      dsimp only
      rw [leading_digits_append hds.2 fun c hc => (hrest c hc).1]
      split
      · rename_i heq
        exact absurd (Prod.mk.inj heq).1 hds.1
      · rename_i heq
        obtain ⟨rfl, rfl⟩ := Prod.mk.inj heq
        rfl

/-- Behind the fraction of a number stands no digit and no point. -/
theorem SpellsExponent.starts {exponent : Option (Bool × List Char)} {cs rest : List Char}
    (h : SpellsExponent exponent cs) (hrest : Ends rest) :
    ∀ c ∈ (cs ++ rest).head?, c.isDigit = false ∧ c ≠ '.' := by
  cases h with
  | none => exact fun c hc => ⟨(hrest c hc).1, (hrest c hc).2.1⟩
  | digits hmark _ _ =>
      intro c hc
      obtain rfl := Option.some.inj hc
      rcases hmark with rfl | rfl <;> decide

/-- Behind the whole part of a number stands no digit. -/
theorem SpellsFraction.starts {ds cs rest : List Char} (h : SpellsFraction ds cs)
    (hrest : ∀ c ∈ rest.head?, c.isDigit = false) :
    ∀ c ∈ (cs ++ rest).head?, c.isDigit = false := by
  cases h with
  | none => exact hrest
  | digits _ =>
      intro c hc
      obtain rfl := Option.some.inj hc
      decide

/-- A number is scanned in front of what can end it. -/
theorem scan_spelled {n : Numeral} {cs rest : List Char} (h : SpellsNumeral n cs)
    (hrest : Ends rest) : Numeral.scan (cs ++ rest) = some (n, rest) := by
  obtain ⟨fraction, exponent, hfraction, hexponent, rfl⟩ := h.parts
  have hbehind := hexponent.starts hrest
  have hwhole := scan_whole_spelled h.digits h.zero
    (hfraction.starts fun c hc => (hbehind c hc).1)
  have hfraction := scan_fraction_spelled hfraction hbehind
  have hexponent := scan_exponent_spelled hexponent hrest
  obtain ⟨negative, whole, _, _⟩ := n
  cases negative with
  | true =>
      simp only [if_true, List.cons_append, List.nil_append, List.append_assoc]
      simp [Numeral.scan, hwhole, hfraction, hexponent]
  | false =>
      -- A digit is no sign.
      have hsign : ∀ more, whole ++ (fraction ++ (exponent ++ rest)) ≠ '-' :: more := by
        intro more heq
        obtain ⟨d, ds, rfl⟩ := List.exists_cons_of_ne_nil h.digits.1
        obtain ⟨rfl, -⟩ := List.cons.inj heq
        exact absurd (h.digits.2 '-' List.mem_cons_self) (by decide)
      simp only [Bool.false_eq_true, if_false, List.nil_append, List.append_assoc]
      simp [Numeral.scan, hwhole, hfraction, hexponent]

/-! ## Documents are read -/

/-- Behind its gap a document is not skipped. -/
theorem Spells.skip_spaces {depth : Nat} {value : Json} {cs gap : List Char}
    (h : Spells depth value cs) (hgap : IsGap gap) (rest : List Char) :
    ']' ∉ (skipSpaces (gap ++ (cs ++ rest))).head? := by
  obtain ⟨c, more, rfl, hspace, hbracket⟩ := h.starts
  rw [skip_spaces_gap hgap, List.cons_append, skip_spaces_cons hspace]
  simpa using hbracket

/-- What the items of a list start with does not close it. -/
theorem SpellsItems.starts {depth : Nat} {items : List Json} {cs : List Char}
    (h : SpellsItems depth items cs) (rest : List Char) :
    ']' ∉ (skipSpaces (cs ++ rest)).head? := by
  cases h with
  | last hfront _ h => simpa only [List.append_assoc] using h.skip_spaces hfront _
  | more hfront _ h _ => simpa only [List.append_assoc] using h.skip_spaces hfront _

/-- A field starts with a quote. -/
theorem SpellsField.starts {depth : Nat} {field : Option (String × Json)} {cs : List Char}
    (h : SpellsField depth field cs) (rest : List Char) :
    '\x7d' ∉ (skipSpaces (cs ++ rest)).head? := by
  cases h with
  | mk hfront _ _ _ _ =>
      rw [List.append_assoc, skip_spaces_gap hfront, List.cons_append, skip_spaces_cons rfl]
      simp

/-- What the fields of an object start with does not close it. -/
theorem SpellsFields.starts {depth : Nat} {fields : Option (List (String × Json))}
    {cs : List Char} (h : SpellsFields depth fields cs) (rest : List Char) :
    '\x7d' ∉ (skipSpaces (cs ++ rest)).head? := by
  cases h with
  | last _ h => simpa only [List.append_assoc] using h.starts _
  | more _ h _ => simpa only [List.append_assoc] using h.starts _

/-- The characters in front of the next token are a gap. -/
theorem exists_gap (cs : List Char) : ∃ gap, IsGap gap ∧ cs = gap ++ skipSpaces cs :=
  ⟨cs.takeWhile isSpace, List.all_eq_true.mp List.all_takeWhile,
    List.takeWhile_append_dropWhile.symm⟩

/-- A quote starts a text. -/
theorem read_value_quote (fuel depth : Nat) (cs : List Char) :
    readValue (fuel + 1) depth ('"' :: cs) =
      (readText (cs.length + 1) cs).map fun (chars, after) => (ofCharacters chars, after) := by
  cases h : readText (cs.length + 1) cs <;> simp [readValue, skip_spaces_cons, isSpace, h]

/-- A digit or a minus sign starts a number. -/
theorem read_value_numeral {c : Char} (h : StartsNumber c) (fuel depth : Nat) (cs : List Char) :
    readValue (fuel + 1) depth (c :: cs) =
      (Numeral.scan (c :: cs)).map fun (numeral, after) => (numeral.value, after) := by
  have hne := h.ne
  simp only [List.forall_mem_cons] at hne
  cases hscan : Numeral.scan (c :: cs) <;>
    simp [readValue, skip_spaces_cons, h.no_space, hscan, hne]

/-- An opening bracket starts a list, which goes on with its items. -/
theorem read_value_bracket {cs : List Char} (h : ']' ∉ (skipSpaces cs).head?)
    (fuel depth : Nat) :
    readValue (fuel + 1) depth ('[' :: cs) =
      (readItems fuel depth cs).map fun (items, after) => (listAt depth items, after) := by
  obtain ⟨gap, hgap, hcs⟩ := exists_gap cs
  rw [hcs, read_items_gap hgap]
  have hskip : skipSpaces (gap ++ skipSpaces cs) = skipSpaces cs := by rw [← hcs]
  generalize skipSpaces cs = token at h hskip ⊢
  cases hread : readItems fuel depth token <;>
    cases token <;> simp_all [readValue, skip_spaces_cons, isSpace]

/-- An opening brace starts an object, which goes on with its fields. -/
theorem read_value_brace {cs : List Char} (h : '\x7d' ∉ (skipSpaces cs).head?)
    (fuel depth : Nat) :
    readValue (fuel + 1) depth ('{' :: cs) =
      (readFields fuel depth cs).map fun (fields, after) => (objectAt depth fields, after) := by
  obtain ⟨gap, hgap, hcs⟩ := exists_gap cs
  rw [hcs, read_fields_gap hgap]
  have hskip : skipSpaces (gap ++ skipSpaces cs) = skipSpaces cs := by rw [← hcs]
  generalize skipSpaces cs = token at h hskip ⊢
  cases hread : readFields fuel depth token <;>
    cases token <;> simp_all [readValue, skip_spaces_cons, isSpace]

/-- What is read behind a field. -/
def readBehindField (fuel depth : Nat) (field : Option (String × Json)) (after : List Char) :
    Option (Option (List (String × Json)) × List Char) :=
  match skipSpaces after with
  | ',' :: rest => do
    let (fields, after) ← readFields fuel depth rest
    return (field.bind fun field => fields.map (field :: ·), after)
  | '}' :: rest => some (field.map ([·]), rest)
  | _ => none

/-- The name of a field is read, and then its value. -/
theorem read_fields_field {fuel depth : Nat} {name : Option (List Char)} {value : Json}
    {front chars colon gap cs after : List Char} (hfront : IsGap front)
    (hname : SpellsText name chars) (hcolon : IsGap colon) (hgap : IsGap gap)
    (hread : readValue fuel (depth + 1) (cs ++ after) = some (value, after)) :
    readFields (fuel + 1) depth
        (front ++ '"' :: (chars ++ '"' :: (colon ++ ':' :: (gap ++ cs))) ++ after) =
      readBehindField fuel depth (name.map fun name => (String.ofList name, value)) after := by
  have htext := read_text_spelled hname (Nat.lt_succ_of_le (List.length_append ▸
    Nat.le_add_right chars.length ('"' :: (colon ++ ':' :: (gap ++ (cs ++ after)))).length))
    (colon ++ ':' :: (gap ++ (cs ++ after)))
  simp only [List.append_assoc, List.cons_append]
  rw [read_fields_gap hfront]
  generalize chars ++ '"' :: (colon ++ ':' :: (gap ++ (cs ++ after))) = text at htext ⊢
  simp [readFields, skip_spaces_cons, isSpace, htext, skip_spaces_gap hcolon, read_value_gap hgap,
    hread, -Option.map_map]
  rfl

mutual

/-- A document is read in front of what can end it. -/
theorem read_value_spelled {depth : Nat} {value : Json} {cs rest : List Char}
    (h : Spells depth value cs) (hrest : Ends rest) :
    (fuel : Nat) → cs.length ≤ fuel → readValue fuel depth (cs ++ rest) = some (value, rest)
  | 0, hfuel => by
    obtain ⟨c, more, rfl, -⟩ := h.starts
    exact absurd hfuel (by simp)
  | fuel + 1, hfuel => by
    cases h with
    | null | yes | no => rfl
    | numeral h =>
        have hscan := scan_spelled h hrest
        obtain ⟨c, more, rfl, hc⟩ := h.starts
        rw [List.cons_append] at hscan ⊢
        rw [read_value_numeral hc, hscan]
        rfl
    | @text _ _ cs h =>
        have hread := read_text_spelled h (Nat.lt_succ_of_le
          (List.length_append ▸ Nat.le_add_right cs.length ('"' :: rest).length)) rest
        simp only [List.cons_append, List.append_assoc, List.nil_append]
        rw [read_value_quote, hread]
        rfl
    | emptyList hgap =>
        simp [readValue, skip_spaces_cons, isSpace, skip_spaces_gap hgap]
    | list h =>
        simp only [List.length_cons, List.length_append] at hfuel
        have hread := read_items_spelled h rest fuel (by omega)
        simp only [List.cons_append, List.append_assoc, List.nil_append]
        rw [read_value_bracket (h.starts _), hread]
        rfl
    | emptyObject hgap =>
        simp [readValue, skip_spaces_cons, isSpace, skip_spaces_gap hgap]
    | object h =>
        simp only [List.length_cons, List.length_append] at hfuel
        have hread := read_fields_spelled h rest fuel (by omega)
        simp only [List.cons_append, List.append_assoc, List.nil_append]
        rw [read_value_brace (h.starts _), hread]
        rfl

/-- Items are read up to the closing bracket. -/
theorem read_items_spelled {depth : Nat} {items : List Json} {cs : List Char}
    (h : SpellsItems depth items cs) (rest : List Char) :
    (fuel : Nat) → cs.length < fuel →
      readItems fuel depth (cs ++ ']' :: rest) = some (items, rest)
  | 0, hfuel => absurd hfuel (Nat.not_lt_zero _)
  | fuel + 1, hfuel => by
    cases h with
    | @last _ _ _ _ back hfront hback h =>
        simp only [List.length_append] at hfuel
        have hread := read_value_spelled h
          (ends_gap hback (ends_cons (.inr (.inl rfl)) rest)) fuel (by omega)
        simp only [List.append_assoc]
        rw [read_items_gap hfront, readItems, hread]
        simp [skip_spaces_gap hback, skip_spaces_cons, isSpace]
    | @more _ _ _ _ _ back others hfront hback h hothers =>
        simp only [List.length_append, List.length_cons] at hfuel
        have hread := read_value_spelled h
          (ends_gap hback (ends_cons (.inl rfl) (others ++ ']' :: rest))) fuel (by omega)
        have hmore := read_items_spelled hothers rest fuel (by omega)
        simp only [List.append_assoc, List.cons_append]
        rw [read_items_gap hfront, readItems, hread]
        simp [skip_spaces_gap hback, skip_spaces_cons, isSpace, hmore]

/-- Fields are read up to the closing brace. -/
theorem read_fields_spelled {depth : Nat} {fields : Option (List (String × Json))}
    {cs : List Char} (h : SpellsFields depth fields cs) (rest : List Char) :
    (fuel : Nat) → cs.length < fuel →
      readFields fuel depth (cs ++ '}' :: rest) = some (fields, rest)
  | 0, hfuel => absurd hfuel (Nat.not_lt_zero _)
  | fuel + 1, hfuel => by
    cases h with
    | @last _ _ _ back hback h =>
        cases h with
        | mk hfront hname hcolon hgap h =>
            simp only [List.length_append, List.length_cons] at hfuel
            have hread := read_value_spelled h
              (ends_gap hback (ends_cons (.inr (.inr rfl)) rest)) fuel (by omega)
            rw [List.append_assoc, read_fields_field hfront hname hcolon hgap hread,
              readBehindField, skip_spaces_gap hback, skip_spaces_cons rfl]
            rfl
    | @more _ _ _ _ back others hback h hothers =>
        cases h with
        | mk hfront hname hcolon hgap h =>
            simp only [List.length_append, List.length_cons] at hfuel
            have hread := read_value_spelled h
              (ends_gap hback (ends_cons (.inl rfl) (others ++ '}' :: rest))) fuel (by omega)
            have hmore := read_fields_spelled hothers rest fuel (by omega)
            rw [List.append_assoc _ (back ++ ',' :: others), List.append_assoc back,
              List.cons_append, read_fields_field hfront hname hcolon hgap hread, readBehindField,
              skip_spaces_gap hback, skip_spaces_cons rfl]
            simp [hmore]

end

/-- Every text of a document is read as that document, with spaces around it. -/
theorem read_chars_spelled {value : Json} {front cs back : List Char} (h : Spells 0 value cs)
    (hfront : IsGap front) (hback : IsGap back) :
    readChars (front ++ (cs ++ back)) = some value := by
  have hread := read_value_spelled h (List.append_nil back ▸ ends_gap hback ends_nil)
    (2 * (front ++ (cs ++ back)).length + 2) (by simp only [List.length_append]; omega)
  have hend : skipSpaces back = [] := List.append_nil back ▸ skip_spaces_gap hback []
  rw [readChars, read_value_gap hfront, hread]
  simp [hend]

end ChangeFeed.Json
