import ChangeFeed.Proofs.ColumnType.Words
import ChangeFeed.Proofs.Number.Positional

/-!
# Spellings of type names

A known name may be spelled in small or in capital letters, with modifiers in parentheses behind it
or behind one of its words, with blanks around, and with marks of arrays at both ends. However it is
spelled, it stands for the same type with the same parameters: `of_name_spelled`.
-/

namespace ChangeFeed.ColumnType

open Text (AreBlank)

variable {base : String} {modifiers : List Nat} {t : ColumnType} {cs ds : List Char}

/-! ## Known names -/

/-- The names of types without parameters. -/
def plainNames : List (String × ColumnType) :=
  [("boolean", .bool), ("bool", .bool), ("smallint", .int16), ("int2", .int16),
    ("smallserial", .int16), ("integer", .int32), ("int", .int32), ("int4", .int32),
    ("serial", .int32), ("bigint", .int64), ("int8", .int64), ("bigserial", .int64),
    ("oid", .int64), ("real", .float32), ("float4", .float32), ("double precision", .float64),
    ("float8", .float64), ("text", .text), ("name", .text), ("clob", .text), ("bytea", .bytes),
    ("blob", .bytes), ("raw", .bytes), ("date", .date), ("time", .time),
    ("time without time zone", .time), ("timestamp", .localDateTime),
    ("timestamp without time zone", .localDateTime), ("smalldatetime", .localDateTime),
    ("timestamptz", .zonedDateTime), ("timestamp with time zone", .zonedDateTime), ("uuid", .uuid),
    ("json", .json), ("jsonb", .jsonb)]

/-- The names of numbers with a precision and a scale. -/
def decimalNames : List String :=
  ["numeric", "decimal"]

/-- The names of texts up to a length. -/
def varCharNames : List String :=
  ["character varying", "varchar", "nvarchar2", "varchar2"]

/-- The names of texts of a length. -/
def charNames : List String :=
  ["character", "char", "bpchar"]

/-- All known names. -/
def knownNames : List String :=
  plainNames.map Prod.fst ++ (decimalNames ++ (varCharNames ++ charNames))

/-- The type that a known name stands for with modifiers. A parameter is the modifier in its place,
or the largest number that its field holds if the modifier is larger, or a default if there is
none. -/
inductive Stands : String → List Nat → ColumnType → Prop where
  | plain {base : String} {modifiers : List Nat} {t : ColumnType} (h : (base, t) ∈ plainNames) :
      Stands base modifiers t
  | decimal {base : String} {modifiers : List Nat} {precision scale : UInt8}
      (h : base ∈ decimalNames) (hprecision : precision.toNat = min (modifiers[0]?.getD 38) 255)
      (hscale : scale.toNat = min (modifiers[1]?.getD 10) 255) :
      Stands base modifiers (.decimal precision scale)
  | varChar {base : String} {modifiers : List Nat} {length : UInt16} (h : base ∈ varCharNames)
      (hlength : length.toNat = min (modifiers[0]?.getD 255) 65535) :
      Stands base modifiers (.varChar length)
  | char {base : String} {modifiers : List Nat} {length : UInt16} (h : base ∈ charNames)
      (hlength : length.toNat = min (modifiers[0]?.getD 1) 65535) :
      Stands base modifiers (.char length)

/-- A known name stands for its type. -/
theorem of_base_eq (h : Stands base modifiers t) : ofBase base modifiers = t := by
  cases h with
  | plain h =>
      have hplain : ∀ pair ∈ plainNames, ofBase pair.1 modifiers = pair.2 := by
        simp only [plainNames, List.forall_mem_cons]
        and_intros
        all_goals first | rfl | exact List.forall_mem_nil _
      exact hplain _ h
  | decimal h hprecision hscale =>
      have hbase : ofBase base modifiers =
          .decimal (byteModifier modifiers 0 38) (byteModifier modifiers 1 10) := by
        rcases List.mem_pair.mp h with rfl | rfl <;> rfl
      rw [hbase, byteModifier, byteModifier, ← hprecision, ← hscale, UInt8.ofNat_toNat,
        UInt8.ofNat_toNat]
  | varChar h hlength =>
      have hbase : ∀ name ∈ varCharNames,
          ofBase name modifiers = .varChar (lengthModifier modifiers 255) := by
        simp only [varCharNames, List.forall_mem_cons]
        exact ⟨rfl, rfl, rfl, rfl, List.forall_mem_nil _⟩
      rw [hbase base h, lengthModifier, List.head?_eq_getElem?, ← hlength, UInt16.ofNat_toNat]
  | char h hlength =>
      have hbase : ∀ name ∈ charNames,
          ofBase name modifiers = .char (lengthModifier modifiers 1) := by
        simp only [charNames, List.forall_mem_cons]
        exact ⟨rfl, rfl, rfl, List.forall_mem_nil _⟩
      rw [hbase base h, lengthModifier, List.head?_eq_getElem?, ← hlength, UInt16.ofNat_toNat]

/-- Only known names stand for types. -/
theorem known_of_stands (h : Stands base modifiers t) : base ∈ knownNames := by
  simp only [knownNames, List.mem_append]
  cases h with
  | plain h => exact .inl (List.mem_map_of_mem h)
  | decimal h => exact .inr (.inl h)
  | varChar h => exact .inr (.inr (.inl h))
  | char h => exact .inr (.inr (.inr h))

/-- Every known name stands for a type, whatever its modifiers are. -/
theorem exists_stands (h : base ∈ knownNames) (modifiers : List Nat) :
    ∃ t, Stands base modifiers t := by
  have hbyte (n : Nat) : (UInt8.ofNat (min n 255)).toNat = min n 255 :=
    UInt8.toNat_ofNat_of_lt' (Nat.lt_of_le_of_lt (Nat.min_le_right n 255) (by decide))
  have hlength (n : Nat) : (UInt16.ofNat (min n 65535)).toNat = min n 65535 :=
    UInt16.toNat_ofNat_of_lt' (Nat.lt_of_le_of_lt (Nat.min_le_right n 65535) (by decide))
  simp only [knownNames, List.mem_append] at h
  rcases h with h | h | h | h
  · obtain ⟨⟨name, t⟩, hmem, rfl⟩ := List.mem_map.mp h
    exact ⟨t, .plain hmem⟩
  · exact ⟨_, .decimal h (hbyte _) (hbyte _)⟩
  · exact ⟨_, .varChar h (hlength _)⟩
  · exact ⟨_, .char h (hlength _)⟩

/-- Known names are made of words. -/
theorem words_of_known (h : base ∈ knownNames) : base.toList ≠ [] ∧ AreWords base.toList := by
  have hwords : ∀ name ∈ knownNames, name.toList ≠ [] ∧ AreWords name.toList := by
    decide +kernel
  exact hwords base h

/-! ## Modifiers -/

/-- A modifier is a number of thirty-two bits, perhaps with blanks around it. -/
def SpellsModifier (cs : List Char) (n : Nat) : Prop :=
  ∃ front ds back, AreBlank front ∧ AreBlank back ∧ cs = front ++ (ds ++ back) ∧
    Number.SpellsNatural 10 ds n ∧ n < 2 ^ 32

/-- Modifiers have commas between them, and there may be none. -/
inductive SpellsModifiers : List Char → List Nat → Prop where
  | none {cs : List Char} (h : AreBlank cs) : SpellsModifiers cs []
  | some {parts : List (List Char)} {modifiers : List Nat} (hne : parts ≠ [])
      (h : List.Forall₂ SpellsModifier parts modifiers) :
      SpellsModifiers ([','].intercalate parts) modifiers

/-- The characters of a number are small, and are neither blanks nor outside of modifiers. -/
theorem natural_char {n : Nat} (h : Number.SpellsNatural 10 cs n) {c : Char} (hc : c ∈ cs) :
    Text.isBlank c = false ∧ c.toLower = c ∧ c ∉ outsiders := by
  obtain ⟨ds, -, hcs, hworth⟩ := h
  have hdigit (hc : c ∈ ds) : Text.isBlank c = false ∧ c.toLower = c ∧ c ∉ outsiders := by
    obtain ⟨digit, hvalue⟩ := Number.digit_of_is_worth hworth hc
    obtain ⟨hlt, rfl⟩ := Number.decimal_digit hvalue
    exact digit_char hlt
  rcases hcs with rfl | rfl
  · exact hdigit hc
  · rcases List.mem_cons.mp hc with rfl | hc
    · decide
    · exact hdigit hc

/-- The characters of a modifier are small and not outside of modifiers. -/
theorem modifier_char {n : Nat} (h : SpellsModifier cs n) {c : Char} (hc : c ∈ cs) :
    c.toLower = c ∧ c ∉ outsiders := by
  obtain ⟨front, ds, back, hfront, hback, rfl, hspells, -⟩ := h
  rcases List.mem_append.mp hc with hc | hc
  · exact blank_char (hfront c hc)
  · rcases List.mem_append.mp hc with hc | hc
    · exact (natural_char hspells hc).2
    · exact blank_char (hback c hc)

/-- Each text of a list of modifiers spells one of them. -/
theorem spelled_of_mem {parts : List (List Char)} {part : List Char}
    (h : List.Forall₂ SpellsModifier parts modifiers) (hpart : part ∈ parts) :
    ∃ n, SpellsModifier part n := by
  induction h with
  | nil => exact absurd hpart List.not_mem_nil
  | @cons _ n _ _ hfirst _ ih =>
      rcases List.mem_cons.mp hpart with rfl | hpart
      · exact ⟨n, hfirst⟩
      · exact ih hpart

/-- What stands in a joined text stands in a separator or in one of its parts. -/
theorem mem_intercalate {separator : List Char} {parts : List (List Char)} {c : Char}
    (hc : c ∈ separator.intercalate parts) : c ∈ separator ∨ ∃ part ∈ parts, c ∈ part := by
  induction parts with
  | nil => exact absurd hc (by simp)
  | cons part parts ih =>
      cases parts with
      | nil => exact .inr ⟨part, by simp, by simpa using hc⟩
      | cons next parts =>
          rw [List.intercalate_cons_cons, List.append_assoc] at hc
          rcases List.mem_append.mp hc with hc | hc
          · exact .inr ⟨part, by simp, hc⟩
          · rcases List.mem_append.mp hc with hc | hc
            · exact .inl hc
            · exact (ih hc).imp_right fun ⟨other, hother, hc⟩ =>
                ⟨other, List.mem_cons_of_mem part hother, hc⟩

/-- Modifiers may stand between parentheses. -/
theorem are_inside_of_spells (h : SpellsModifiers cs modifiers) : AreInside cs := by
  intro c hc
  cases h with
  | none h =>
      obtain ⟨hlower, hinside⟩ := blank_char (h c hc)
      exact ⟨hlower, .inr hinside⟩
  | some hne h =>
      rcases mem_intercalate hc with hcomma | ⟨part, hpart, hc⟩
      · obtain rfl := List.mem_singleton.mp hcomma
        exact ⟨rfl, .inl rfl⟩
      · obtain ⟨n, hspells⟩ := spelled_of_mem h hpart
        obtain ⟨hlower, hinside⟩ := modifier_char hspells hc
        exact ⟨hlower, .inr hinside⟩

/-- A modifier is read as the number that it spells. -/
theorem read_spelled_modifier {n : Nat} (h : SpellsModifier cs n) :
    Number.readNat 10 (Nat.pow 2 32 - 1) (Text.trim cs) = .ok n := by
  obtain ⟨front, ds, back, hfront, hback, rfl, hspells, hbound⟩ := h
  have htrim : Text.trim ds = ds :=
    Text.trim_of_no_blank fun c hc => (natural_char hspells hc).1
  rw [Text.trim_blank_append hfront, Text.trim_append_blank hback, htrim,
    Number.read_nat_iff (by decide)]
  exact ⟨hspells, Nat.le_pred_of_lt hbound⟩

/-- The modifiers between parentheses are those that are spelled there. -/
theorem modifiers_of_spelled (h : SpellsModifiers cs modifiers) : modifiersOf cs = modifiers := by
  cases h with
  | none h =>
      have hcomma : ∀ part ∈ [cs], ',' ∉ part := by
        simp only [List.forall_mem_singleton]
        exact fun hmem => (blank_char (h ',' hmem)).2 (by decide)
      have hparts : cs.splitOn ',' = [cs] := by
        simpa [List.intercalate] using List.splitOn_intercalate ',' hcomma (by simp)
      have htrim : Text.trim cs = [] := by
        have hnothing : Text.trim (cs ++ []) = Text.trim [] := Text.trim_blank_append h
        rwa [List.append_nil] at hnothing
      rw [modifiersOf, Text.parts, hparts, List.filterMap_cons, htrim]
      rfl
  | @some parts _ hne h =>
      have hcomma : ∀ part ∈ parts, ',' ∉ part := by
        intro part hpart hmem
        obtain ⟨n, hspells⟩ := spelled_of_mem h hpart
        exact (modifier_char hspells hmem).2 (by decide)
      rw [modifiersOf, Text.parts, List.splitOn_intercalate ',' hcomma hne]
      clear hcomma hne
      induction h with
      | nil => rfl
      | cons hmodifier _ ih =>
          rw [List.filterMap_cons, read_spelled_modifier hmodifier, ih]
          rfl

/-! ## Names as they are spelled -/

/-- A text is another with some of the letters capital. -/
def Recased (base cs : List Char) : Prop :=
  List.Forall₂ (fun b c => c = b ∨ c = b.toUpper) base cs

/-- The texts of a known name with modifiers: the name in small or in capital letters, with the
modifiers in parentheses behind it or in place of a space in it, and with blanks around the
parentheses. -/
inductive SpellsBase (base : List Char) : List Nat → List Char → Prop where
  | bare {cs : List Char} (h : Recased base cs) : SpellsBase base [] cs
  | behind {modifiers : List Nat} {cs gap inside : List Char} (h : Recased base cs)
      (hgap : AreBlank gap) (hinside : SpellsModifiers inside modifiers) :
      SpellsBase base modifiers (cs ++ (gap ++ '(' :: (inside ++ [')'])))
  | between {modifiers : List Nat} {first rest cs ds gap gap' inside : List Char}
      (hbase : base = first ++ ' ' :: rest) (hfirst : Recased first cs) (hrest : Recased rest ds)
      (hgap : AreBlank gap) (hgap' : AreBlank gap') (hinside : SpellsModifiers inside modifiers) :
      SpellsBase base modifiers (cs ++ (gap ++ '(' :: (inside ++ ')' :: (gap' ++ ds))))

/-- Small letters come back from capital ones. -/
theorem lower_recased (h : AreWords ds) (hcs : Recased ds cs) : Text.lower cs = ds := by
  have hsmall : ∀ c ∈ ds, c.toLower = c := fun c hc => (word_char h hc).1
  clear h
  induction hcs with
  | nil => rfl
  | @cons b c ds cs hc _ ih =>
      obtain ⟨hb, hds⟩ := List.forall_mem_cons.mp hsmall
      have hcb : c.toLower = b := by
        rcases hc with rfl | rfl
        · exact hb
        · rw [Char.toLower_toUpper_eq_toLower, hb]
      rw [Text.lower, List.map_cons, hcb, ← Text.lower, ih hds]

/-- The case of letters does not count in a name. -/
theorem of_name_lower (cs : List Char) : ofNameChars (Text.lower cs) = ofNameChars cs :=
  of_name_congr normal_name_lower

/-- A known name is the type of its base, however it is spelled with its modifiers. -/
theorem of_name_base_spelled {base : List Char} (hne : base ≠ []) (hbase : AreWords base)
    (h : SpellsBase base modifiers cs) :
    ofNameChars cs = ofBase (String.ofList base) modifiers := by
  have hinsides {inside : List Char} (hinside : SpellsModifiers inside modifiers) :
      Text.lower inside = inside :=
    (List.map_congr_left fun c hc => (are_inside_of_spells hinside c hc).1).trans inside.map_id
  rw [← of_name_lower]
  cases h with
  | bare h => rw [lower_recased hbase h, of_name_words hbase]
  | @behind _ cs gap inside h hgap hinside =>
      have hlower : Text.lower (cs ++ (gap ++ '(' :: (inside ++ [')']))) =
          base ++ (gap ++ '(' :: (inside ++ [')'])) := by
        simp only [Text.lower_append, Text.lower_cons, lower_recased hbase h,
          Text.lower_of_blank hgap, hinsides hinside]
        rfl
      rw [hlower, of_name_behind hne hbase hgap (are_inside_of_spells hinside),
        modifiers_of_spelled hinside]
  | @between _ first rest cs ds gap gap' inside hsplit hfirst hrest hgap hgap' hinside =>
      subst hsplit
      obtain ⟨-, hwords, hwords'⟩ := words_of_append hbase
      have hlower : Text.lower (cs ++ (gap ++ '(' :: (inside ++ ')' :: (gap' ++ ds)))) =
          first ++ (gap ++ '(' :: (inside ++ ')' :: (gap' ++ rest))) := by
        simp only [Text.lower_append, Text.lower_cons, lower_recased hwords hfirst,
          lower_recased hwords' hrest, Text.lower_of_blank hgap, Text.lower_of_blank hgap',
          hinsides hinside]
        rfl
      rw [hlower, of_name_between hbase hgap hgap' (are_inside_of_spells hinside),
        modifiers_of_spelled hinside]

/-- A known name stands for its type, however it is spelled: in small or in capital letters, with
modifiers in parentheses and blanks around them, and with marks at both ends, each of which makes an
array. There are no other names than such with marks around them, so that reading a name comes to an
end when it has taken them off. -/
theorem of_name_spelled :
    (∀ {base : String} {modifiers : List Nat} {t : ColumnType} {core : List Char} {m k : Nat}
      {name : String}, Stands base modifiers t → SpellsBase base.toList modifiers core →
        Marked core m k name.toList → ofName name = ColumnType.array^[m + k] t) ∧
    (∀ base ∈ knownNames, ∀ modifiers, ∃ t, Stands base modifiers t) ∧
    ∀ name : String, ∃ core m k, Marked core m k name.toList ∧ IsUnmarked core ∧
      2 * m + k + core.length ≤ name.length ∧
      ofName name = ColumnType.array^[m + k]
        (ofBase (String.ofList (splitModifiers (normalName core)).1)
          (splitModifiers (normalName core)).2) := by
  refine ⟨fun {base _ _ _ _ _ name} ht hcore hname => ?_, fun _ => exists_stands, fun name => ?_⟩
  · obtain ⟨hne, hwords⟩ := words_of_known (known_of_stands ht)
    rw [ofName, of_name_marked hname, of_name_base_spelled hne hwords hcore, String.ofList_toList,
      of_base_eq ht]
  · obtain ⟨core, m, k, hmarked, hunmarked, hroom⟩ := exists_marked name.toList
    refine ⟨core, m, k, hmarked, hunmarked, String.length_toList ▸ hroom, ?_⟩
    rw [ofName, of_name_marked hmarked, of_name_unmarked hunmarked]

/-- A precision that is too large is cut to its width, under marks at both ends and between
blanks. -/
theorem of_name_spelled_numeric :
    ofName "_NUMERIC ( 300 , +2 ) []" = .array (.array (.decimal 255 2)) := by
  have hstands : Stands "numeric" [300, 2] (.decimal 255 2) :=
    .decimal (by decide) (by decide) (by decide)
  have hfirst : SpellsModifier " 300 ".toList 300 :=
    ⟨[' '], "300".toList, [' '], by decide, by decide, rfl,
      ⟨"300".toList, by decide, .inl rfl, [3, 0, 0], by decide, by decide⟩, by decide⟩
  have hsecond : SpellsModifier " +2 ".toList 2 :=
    ⟨[' '], "+2".toList, [' '], by decide, by decide, rfl,
      ⟨"2".toList, by decide, .inr rfl, [2], by decide, by decide⟩, by decide⟩
  have hinside : SpellsModifiers " 300 , +2 ".toList [300, 2] :=
    .some (by simp) (.cons hfirst (.cons hsecond .nil))
  have hcase : Recased "numeric".toList "NUMERIC".toList := by
    unfold Recased
    decide
  have hcore : SpellsBase "numeric".toList [300, 2] "NUMERIC ( 300 , +2 )".toList :=
    .behind hcase (by decide : AreBlank [' ']) hinside
  have hmarked : Marked "NUMERIC ( 300 , +2 )".toList 1 1 "_NUMERIC ( 300 , +2 ) []".toList :=
    .score (.brackets (.padded Text.are_blank_nil (by decide : AreBlank [' ']) .core))
  exact of_name_spelled.1 hstands hcore hmarked

end ChangeFeed.ColumnType
