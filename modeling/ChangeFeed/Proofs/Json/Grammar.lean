import ChangeFeed.Json.Read

/-!
# The grammar of JSON

Which texts spell which documents (`Json.Spells`), with spaces between the tokens, characters
escaped or not, and numbers in any notation. A part without a value is spelled like any other:
half of a surrogate pair, a number out of range, or what is nested too deeply.
-/

namespace ChangeFeed.Json

/-- A text of spaces. -/
def IsGap (gap : List Char) : Prop :=
  ∀ c ∈ gap, isSpace c = true

/-- There may be no spaces. -/
theorem gap_nil : IsGap [] :=
  nofun

/-! ## Texts -/

/-- Four hexadecimal digits that are worth a unit. -/
def SpellsUnit (unit : Nat) (ds : List Char) : Prop :=
  ∃ a b c d, ds.map (Number.digitValue? 16) = [some a, some b, some c, some d] ∧
    unit = ((a * 16 + b) * 16 + c) * 16 + d

/-- What stands between the quotes of a text, and the characters of the text. They are missing if
one of them is half of a surrogate pair. -/
inductive SpellsText : Option (List Char) → List Char → Prop where
  | nil : SpellsText (some []) []
  /-- A character that stands for itself. -/
  | plain {c : Char} {value : Option (List Char)} {cs : List Char}
      (hc : c ≠ '"' ∧ c ≠ '\\' ∧ 0x20 ≤ c.toNat) (h : SpellsText value cs) :
      SpellsText (value.map (c :: ·)) (c :: cs)
  | short {e c : Char} {value : Option (List Char)} {cs : List Char}
      (hescape : escapedChar? e = some c) (h : SpellsText value cs) :
      SpellsText (value.map (c :: ·)) ('\\' :: e :: cs)
  | unit {unit : Nat} {ds : List Char} {value : Option (List Char)} {cs : List Char}
      (hunit : SpellsUnit unit ds)
      (hwhole : isHighSurrogate unit = false ∧ isLowSurrogate unit = false)
      (h : SpellsText value cs) :
      SpellsText (value.map (Char.ofNat unit :: ·)) ('\\' :: 'u' :: (ds ++ cs))
  | pair {high low : Nat} {ds es : List Char} {value : Option (List Char)} {cs : List Char}
      (hunits : SpellsUnit high ds ∧ SpellsUnit low es)
      (hpair : isHighSurrogate high = true ∧ isLowSurrogate low = true) (h : SpellsText value cs) :
      SpellsText
        (value.map (Char.ofNat (0x10000 + (high - 0xD800) * 0x400 + (low - 0xDC00)) :: ·))
        ('\\' :: 'u' :: (ds ++ '\\' :: 'u' :: (es ++ cs)))
  /-- Half of a pair, which the other half does not follow. -/
  | half {unit : Nat} {ds : List Char} {value : Option (List Char)} {cs : List Char}
      (hunit : SpellsUnit unit ds)
      (hhalf : isLowSurrogate unit = true ∨ isHighSurrogate unit = true ∧
        ∀ low es more, SpellsUnit low es → cs = '\\' :: 'u' :: (es ++ more) →
          isLowSurrogate low = false)
      (h : SpellsText value cs) : SpellsText none ('\\' :: 'u' :: (ds ++ cs))

/-! ## Numbers -/

/-- There are digits and nothing else. -/
def AreDigits (ds : List Char) : Prop :=
  ds ≠ [] ∧ ∀ c ∈ ds, c.isDigit = true

/-- The fraction of a number behind its point, if there is one. -/
inductive SpellsFraction : List Char → List Char → Prop where
  | none : SpellsFraction [] []
  | digits {ds : List Char} (hds : AreDigits ds) : SpellsFraction ds ('.' :: ds)

/-- The exponent of a number behind its mark, if there is one. -/
inductive SpellsExponent : Option (Bool × List Char) → List Char → Prop where
  | none : SpellsExponent none []
  | digits {mark : Char} {negative : Bool} {sign ds : List Char} (hmark : mark = 'e' ∨ mark = 'E')
      (hsign : (negative = true ∧ sign = ['-']) ∨ (negative = false ∧ (sign = [] ∨ sign = ['+'])))
      (hds : AreDigits ds) : SpellsExponent (some (negative, ds)) (mark :: (sign ++ ds))

/-- A number: a zero or digits that do not start with a zero, perhaps behind a minus sign, and in
front of a fraction and an exponent. -/
structure SpellsNumeral (n : Numeral) (cs : List Char) : Prop where
  digits : AreDigits n.whole
  zero : n.whole.head? = some '0' → n.whole = ['0']
  parts : ∃ fraction exponent, SpellsFraction n.fraction fraction ∧
    SpellsExponent n.exponent exponent ∧
    cs = (if n.negative then ['-'] else []) ++ (n.whole ++ (fraction ++ exponent))

/-! ## Documents -/

mutual

/-- The texts of a document inside some lists and objects. -/
inductive Spells : Nat → Json → List Char → Prop where
  | null {depth : Nat} : Spells depth .null ['n', 'u', 'l', 'l']
  | yes {depth : Nat} : Spells depth (.bool true) ['t', 'r', 'u', 'e']
  | no {depth : Nat} : Spells depth (.bool false) ['f', 'a', 'l', 's', 'e']
  | numeral {depth : Nat} {n : Numeral} {cs : List Char} (h : SpellsNumeral n cs) :
      Spells depth n.value cs
  | text {depth : Nat} {value : Option (List Char)} {cs : List Char} (h : SpellsText value cs) :
      Spells depth (ofCharacters value) ('"' :: (cs ++ ['"']))
  | emptyList {depth : Nat} {gap : List Char} (hgap : IsGap gap) :
      Spells depth (listAt depth []) ('[' :: (gap ++ [']']))
  | list {depth : Nat} {items : List Json} {cs : List Char} (h : SpellsItems depth items cs) :
      Spells depth (listAt depth items) ('[' :: (cs ++ [']']))
  | emptyObject {depth : Nat} {gap : List Char} (hgap : IsGap gap) :
      Spells depth (objectAt depth (some [])) ('{' :: (gap ++ ['}']))
  | object {depth : Nat} {fields : Option (List (String × Json))} {cs : List Char}
      (h : SpellsFields depth fields cs) :
      Spells depth (objectAt depth fields) ('{' :: (cs ++ ['}']))

/-- The texts of the items of a list. -/
inductive SpellsItems : Nat → List Json → List Char → Prop where
  | last {depth : Nat} {item : Json} {front cs back : List Char} (hfront : IsGap front)
      (hback : IsGap back) (h : Spells (depth + 1) item cs) :
      SpellsItems depth [item] (front ++ (cs ++ back))
  | more {depth : Nat} {item : Json} {items : List Json} {front cs back rest : List Char}
      (hfront : IsGap front) (hback : IsGap back) (h : Spells (depth + 1) item cs)
      (hrest : SpellsItems depth items rest) :
      SpellsItems depth (item :: items) (front ++ (cs ++ (back ++ ',' :: rest)))

/-- The texts of the fields of an object. They have no value if a name has none. -/
inductive SpellsFields : Nat → Option (List (String × Json)) → List Char → Prop where
  | last {depth : Nat} {field : Option (String × Json)} {cs back : List Char} (hback : IsGap back)
      (h : SpellsField depth field cs) : SpellsFields depth (field.map ([·])) (cs ++ back)
  | more {depth : Nat} {field : Option (String × Json)} {fields : Option (List (String × Json))}
      {cs back rest : List Char} (hback : IsGap back) (h : SpellsField depth field cs)
      (hrest : SpellsFields depth fields rest) :
      SpellsFields depth (field.bind fun field => fields.map (field :: ·))
        (cs ++ (back ++ ',' :: rest))

/-- The texts of a field. -/
inductive SpellsField : Nat → Option (String × Json) → List Char → Prop where
  | mk {depth : Nat} {name : Option (List Char)} {value : Json} {front chars colon gap cs : List Char}
      (hfront : IsGap front) (hname : SpellsText name chars) (hcolon : IsGap colon) (hgap : IsGap gap)
      (h : Spells (depth + 1) value cs) :
      SpellsField depth (name.map fun name => (String.ofList name, value))
        (front ++ '"' :: (chars ++ '"' :: (colon ++ ':' :: (gap ++ cs))))

end

/-! ## How documents start -/

/-- How a number can start. -/
def StartsNumber (c : Char) : Prop :=
  c.isDigit = true ∨ c = '-'

/-- A number starts with no space and like no other value. -/
theorem StartsNumber.ne {c : Char} (h : StartsNumber c) :
    ∀ d ∈ [' ', '\t', '\n', '\r', 'n', 't', 'f', '"', '[', ']', '{'], c ≠ d := by
  have hother : ∀ d ∈ [' ', '\t', '\n', '\r', 'n', 't', 'f', '"', '[', ']', '{'],
      d.isDigit = false ∧ d ≠ '-' := by simp
  rintro d hd rfl
  obtain ⟨hdigit, hminus⟩ := hother c hd
  rcases h with h | h
  · exact absurd h (by simp [hdigit])
  · exact hminus h

/-- A number does not start with a space. -/
theorem StartsNumber.no_space {c : Char} (h : StartsNumber c) : isSpace c = false := by
  have hne := h.ne
  simp only [List.forall_mem_cons] at hne
  simp [isSpace, hne]

/-- A number starts with a digit or a minus sign. -/
theorem SpellsNumeral.starts {n : Numeral} {cs : List Char} (h : SpellsNumeral n cs) :
    ∃ c rest, cs = c :: rest ∧ StartsNumber c := by
  obtain ⟨fraction, exponent, -, -, rfl⟩ := h.parts
  cases n.negative with
  | true => exact ⟨'-', _, rfl, .inr rfl⟩
  | false =>
      obtain ⟨d, ds, hds⟩ := List.exists_cons_of_ne_nil h.digits.1
      refine ⟨d, ds ++ (fraction ++ exponent), by simp [hds], .inl (h.digits.2 d ?_)⟩
      rw [hds]
      exact List.mem_cons_self

/-- A document starts with neither a space nor a closing bracket. -/
theorem Spells.starts {depth : Nat} {value : Json} {cs : List Char} (h : Spells depth value cs) :
    ∃ c rest, cs = c :: rest ∧ isSpace c = false ∧ c ≠ ']' := by
  cases h with
  | numeral h =>
      obtain ⟨c, rest, rfl, hc⟩ := h.starts
      exact ⟨c, rest, rfl, hc.no_space, hc.ne ']' (by simp)⟩
  | null | yes | no | text | emptyList | list | emptyObject | object =>
      exact ⟨_, _, rfl, rfl, by decide⟩

/-- A number is no object. -/
theorem Numeral.value_ne_object (n : Numeral) (fields : List (String × Json)) :
    n.value ≠ .object fields := by
  simp only [Numeral.value]
  repeat' split
  all_goals exact nofun

/-- The text of an object stands in braces. -/
theorem Spells.in_braces {depth : Nat} {fields : List (String × Json)} {cs : List Char}
    (h : Spells depth (.object fields) cs) : ∃ inner, cs = '\x7b' :: (inner ++ ['\x7d']) := by
  generalize hvalue : Json.object fields = value at h
  cases h with
  | null | yes | no => exact absurd hvalue nofun
  | @numeral _ n _ _ => exact absurd hvalue.symm (n.value_ne_object fields)
  | @text _ value _ _ => cases value <;> exact absurd hvalue nofun
  | emptyList _ =>
      rw [listAt] at hvalue
      split at hvalue <;> exact absurd hvalue nofun
  | list _ =>
      rw [listAt] at hvalue
      split at hvalue <;> exact absurd hvalue nofun
  | emptyObject _ => exact ⟨_, rfl⟩
  | object _ => exact ⟨_, rfl⟩

end ChangeFeed.Json
