import ChangeFeed.Proofs.Json.Completeness
import ChangeFeed.Proofs.Json.Leaf
import Mathlib.Data.List.Forall2

/-!
# JSON documents read back

A document without numbers that are no integers of 64 bits is read back from what is written for
it, on one line or on many, as long as it is not nested too deeply: `Json.read_render` and
`Json.read_render_indented`. What is written for it spells it (`Json.spells_render`,
`Json.spells_indented`), in brackets with spaces or without.
-/

namespace ChangeFeed.Json

/-! ## Plain documents -/

mutual

/-- Whether all numbers of a document are integers of 64 bits, and every part of it has a value. -/
def IsPlain : Json → Prop
  | .integer value => IsWhole value
  | .list items => ArePlain items
  | .object fields => AreFieldsPlain fields
  | .null | .bool _ | .text _ => True
  | .real _ | .single _ | .unusable => False

/-- Whether all items are plain. -/
def ArePlain : List Json → Prop
  | [] => True
  | item :: rest => IsPlain item ∧ ArePlain rest

/-- Whether the values of all fields are plain. -/
def AreFieldsPlain : List (String × Json) → Prop
  | [] => True
  | (_, value) :: rest => IsPlain value ∧ AreFieldsPlain rest

end

mutual

/-- How many lists and objects of a document stand inside each other. -/
def height : Json → Nat
  | .list items => heightOfItems items + 1
  | .object fields => heightOfFields fields + 1
  | _ => 0

/-- The greatest height of some items. -/
def heightOfItems : List Json → Nat
  | [] => 0
  | item :: rest => max (height item) (heightOfItems rest)

/-- The greatest height of the values of some fields. -/
def heightOfFields : List (String × Json) → Nat
  | [] => 0
  | (_, value) :: rest => max (height value) (heightOfFields rest)

end

/-! ## Lists and objects -/

/-- Parts with a separator behind the first. -/
theorem separated_cons_cons (separator part next : List Char) (parts : List (List Char)) :
    separated separator (part :: next :: parts) =
      part ++ (separator ++ separated separator (next :: parts)) :=
  List.append_assoc _ _ _

/-- A text spells a field, also behind spaces. -/
def SpellsPair (depth : Nat) (field : String × Json) (cs : List Char) : Prop :=
  ∀ front, IsGap front → SpellsField depth (some field) (front ++ cs)

/-- A name that is written in front of what spells a value. -/
theorem spells_pair {depth : Nat} {value : Json} {gap cs : List Char} (name : String)
    (hgap : IsGap gap) (h : Spells (depth + 1) value cs) :
    SpellsPair depth (name, value) (quotedText name ++ ':' :: (gap ++ cs)) := by
  intro front hfront
  have hfield := SpellsField.mk hfront (spells_text_written name.toList) gap_nil hgap h
  simpa [quotedText] using hfield

variable {depth : Nat} {first gap last : List Char}

/-- Items with separators between them. -/
theorem spells_items_separated (hfirst : IsGap first) (hgap : IsGap gap) (hlast : IsGap last)
    {items : List Json} {parts : List (List Char)}
    (h : List.Forall₂ (Spells (depth + 1)) items parts) (hne : items ≠ []) :
    SpellsItems depth items (first ++ (separated (',' :: gap) parts ++ last)) := by
  -- The gap behind a separator is the one in front of the next item.
  induction h generalizing first with
  | nil => exact absurd rfl hne
  | cons hitem hitems ih =>
      cases hitems with
      | nil => exact .last hfirst hlast hitem
      | cons =>
          have hmore := SpellsItems.more hfirst gap_nil hitem (ih hgap (by simp))
          simpa [separated_cons_cons] using hmore

/-- Fields with separators between them. -/
theorem spells_fields_separated (hfirst : IsGap first) (hgap : IsGap gap) (hlast : IsGap last)
    {fields : List (String × Json)} {parts : List (List Char)}
    (h : List.Forall₂ (SpellsPair depth) fields parts) (hne : fields ≠ []) :
    SpellsFields depth (some fields) (first ++ (separated (',' :: gap) parts ++ last)) := by
  induction h generalizing first with
  | nil => exact absurd rfl hne
  | cons hfield hfields ih =>
      cases hfields with
      | nil =>
          rw [separated, ← List.append_assoc]
          exact .last hlast (hfield first hfirst)
      | cons =>
          have hmore := SpellsFields.more gap_nil (hfield first hfirst) (ih hgap (by simp))
          simpa [separated_cons_cons] using hmore

/-- Parts between brackets, with spaces in front of them, between them and behind them. -/
def bracketed (opening closing : Char) (first gap last : List Char) (parts : List (List Char)) :
    List Char :=
  opening :: (first ++ (separated (',' :: gap) parts ++ (last ++ [closing])))

/-- A bracketed text spells the list of what its parts spell, unless that is nested too deeply. -/
theorem spells_list_at (hfirst : IsGap first) (hgap : IsGap gap) (hlast : IsGap last)
    {items : List Json} {parts : List (List Char)}
    (h : List.Forall₂ (Spells (depth + 1)) items parts) (hne : items ≠ []) :
    Spells depth (listAt depth items) (bracketed '[' ']' first gap last parts) := by
  have hlist := Spells.list (spells_items_separated hfirst hgap hlast h hne)
  simpa [bracketed] using hlist

/-- A text in braces spells the object of the fields that its parts spell, unless that is nested too
deeply. -/
theorem spells_object_at (hfirst : IsGap first) (hgap : IsGap gap) (hlast : IsGap last)
    {fields : List (String × Json)} {parts : List (List Char)}
    (h : List.Forall₂ (SpellsPair depth) fields parts) (hne : fields ≠ []) :
    Spells depth (objectAt depth (some fields)) (bracketed '{' '}' first gap last parts) := by
  have hobject := Spells.object (spells_fields_separated hfirst hgap hlast h hne)
  simpa [bracketed] using hobject

/-- A bracketed text spells the list of what its parts spell. -/
theorem spells_list (hfirst : IsGap first) (hgap : IsGap gap) (hlast : IsGap last)
    (hdepth : depth < depthLimit) {items : List Json} {parts : List (List Char)}
    (h : List.Forall₂ (Spells (depth + 1)) items parts) (hne : items ≠ []) :
    Spells depth (.list items) (bracketed '[' ']' first gap last parts) := by
  have hlist := spells_list_at hfirst hgap hlast h hne
  rwa [listAt, if_pos hdepth] at hlist

/-- A text in braces spells the object of the fields that its parts spell. -/
theorem spells_object (hfirst : IsGap first) (hgap : IsGap gap) (hlast : IsGap last)
    (hdepth : depth < depthLimit) {fields : List (String × Json)} {parts : List (List Char)}
    (h : List.Forall₂ (SpellsPair depth) fields parts) (hne : fields ≠ []) :
    Spells depth (.object fields) (bracketed '{' '}' first gap last parts) := by
  have hobject := spells_object_at hfirst hgap hlast h hne
  rwa [objectAt, if_pos hdepth] at hobject

/-- Brackets with nothing between them spell an empty list. -/
theorem spells_empty_list (hdepth : depth < depthLimit) :
    Spells depth (.list []) ['[', ']'] := by
  have hlist : Spells depth _ _ := .emptyList gap_nil
  rwa [listAt, if_pos hdepth] at hlist

/-- Braces with nothing between them spell an empty object. -/
theorem spells_empty_object (hdepth : depth < depthLimit) :
    Spells depth (.object []) ['{', '}'] := by
  have hobject : Spells depth _ _ := .emptyObject gap_nil
  rwa [objectAt, if_pos hdepth] at hobject

/-! ## Both ways of writing -/

/-- A value without parts is spelled by what is written for it. -/
theorem spells_leaf (depth : Nat) {value : Json} (h : value.IsPlain)
    (hleaf : ∀ items, value ≠ .list items) (hleaf' : ∀ fields, value ≠ .object fields) :
    Spells depth value (renderLeaf value) := by
  cases value with
  | null => exact .null
  | bool value =>
      cases value with
      | true => exact .yes
      | false => exact .no
  | integer value => exact spells_integer h depth
  | text value => exact spells_quoted_text depth value
  | list items => exact absurd rfl (hleaf items)
  | object fields => exact absurd rfl (hleaf' fields)
  | real | single | unusable => exact absurd h id

mutual

/-- A document as it is read inside `depth` lists and objects: what is nested too deeply there has
no value. -/
def cut : Nat → Json → Json
  | depth, .list items => listAt depth (cutItems (depth + 1) items)
  | depth, .object fields => objectAt depth (some (cutFields (depth + 1) fields))
  | _, leaf => leaf

/-- The items of a list, each as it is read inside `depth` lists and objects. -/
def cutItems : Nat → List Json → List Json
  | _, [] => []
  | depth, item :: rest => cut depth item :: cutItems depth rest

/-- The fields of an object, with each value as it is read inside `depth` lists and objects. -/
def cutFields : Nat → List (String × Json) → List (String × Json)
  | _, [] => []
  | depth, (name, value) :: rest => (name, cut depth value) :: cutFields depth rest

end

mutual

/-- Nothing is cut from a document that is not nested too deeply. -/
theorem cut_eq_self (depth : Nat) : (value : Json) → depth + value.height ≤ depthLimit →
    cut depth value = value
  | .list items, h => by
    rw [height] at h
    rw [cut, cut_items_eq_self (depth + 1) items (by omega), listAt, if_pos (by omega)]
  | .object fields, h => by
    rw [height] at h
    rw [cut, cut_fields_eq_self (depth + 1) fields (by omega), objectAt, if_pos (by omega)]
  | .null, _ | .bool _, _ | .integer _, _ | .real _, _ | .single _, _ | .text _, _ | .unusable, _ =>
    rfl

/-- Nothing is cut from items that are not nested too deeply. -/
theorem cut_items_eq_self (depth : Nat) : (items : List Json) →
    depth + heightOfItems items ≤ depthLimit → cutItems depth items = items
  | [], _ => rfl
  | item :: rest, h => by
    rw [heightOfItems] at h
    rw [cutItems, cut_eq_self depth item (by omega), cut_items_eq_self depth rest (by omega)]

/-- Nothing is cut from fields that are not nested too deeply. -/
theorem cut_fields_eq_self (depth : Nat) : (fields : List (String × Json)) →
    depth + heightOfFields fields ≤ depthLimit → cutFields depth fields = fields
  | [], _ => rfl
  | (name, value) :: rest, h => by
    rw [heightOfFields] at h
    rw [cutFields, cut_eq_self depth value (by omega), cut_fields_eq_self depth rest (by omega)]

end

mutual

/-- What is written for a plain document on one line spells what is left when it is cut. -/
theorem spells_render_cut (depth : Nat) : (value : Json) → value.IsPlain →
    Spells depth (cut depth value) (renderChars value)
  | .list [], _ => .emptyList gap_nil
  | .list (item :: rest), h => by
    rw [renderChars]
    show Spells _ _ (bracketed '[' ']' [] [] [] _)
    exact spells_list_at gap_nil gap_nil gap_nil
      (spells_render_items_cut (depth + 1) (item :: rest) h) (by simp [cutItems])
  | .object [], _ => .emptyObject gap_nil
  | .object (field :: rest), h => by
    rw [renderChars]
    show Spells _ _ (bracketed '{' '}' [] [] [] _)
    exact spells_object_at gap_nil gap_nil gap_nil
      (spells_render_fields_cut depth (field :: rest) h) (by simp [cutFields])
  | .null, h => spells_leaf depth h (by simp [cut]) (by simp [cut])
  | .bool _, h => spells_leaf depth h (by simp [cut]) (by simp [cut])
  | .integer _, h => spells_leaf depth h (by simp [cut]) (by simp [cut])
  | .text _, h => spells_leaf depth h (by simp [cut]) (by simp [cut])

/-- What is written for plain items on one line spells what is left when they are cut. -/
theorem spells_render_items_cut (depth : Nat) : (items : List Json) → ArePlain items →
    List.Forall₂ (Spells depth) (cutItems depth items) (renderItems items)
  | [], _ => .nil
  | item :: rest, h =>
    .cons (spells_render_cut depth item h.1) (spells_render_items_cut depth rest h.2)

/-- What is written for plain fields on one line spells what is left when they are cut. -/
theorem spells_render_fields_cut (depth : Nat) : (fields : List (String × Json)) →
    AreFieldsPlain fields →
      List.Forall₂ (SpellsPair depth) (cutFields (depth + 1) fields) (renderFields fields)
  | [], _ => .nil
  | (name, value) :: rest, h =>
    .cons (spells_pair name gap_nil (spells_render_cut (depth + 1) value h.1))
      (spells_render_fields_cut depth rest h.2)

end

/-- A plain document is spelled by what is written for it on one line. -/
theorem spells_render (depth : Nat) (value : Json) (h : value.IsPlain)
    (hdepth : depth + value.height ≤ depthLimit) : Spells depth value (renderChars value) := by
  have hcut := spells_render_cut depth value h
  rwa [cut_eq_self depth value hdepth] at hcut

/-- A space is a text of spaces. -/
theorem gap_space : IsGap [' '] := by
  simp [IsGap, isSpace]

/-- A new line is a text of spaces. -/
theorem gap_new_line (depth : Nat) : IsGap (newLine depth) := by
  refine List.forall_mem_cons.mpr ⟨rfl, ?_⟩
  intro c hc
  rw [List.eq_of_mem_replicate hc]
  rfl

/-- Parts on lines of their own stand between brackets. -/
theorem block_eq (opening closing : Char) (depth : Nat) {parts : List (List Char)}
    (h : parts ≠ []) :
    block opening closing depth parts =
      bracketed opening closing (newLine (depth + 1)) (newLine (depth + 1)) (newLine depth)
        parts := by
  simp [block, bracketed, h]

mutual

/-- A plain document is spelled by what is written for it on many lines. -/
theorem spells_indented (depth : Nat) : (value : Json) → value.IsPlain →
    depth + value.height ≤ depthLimit → Spells depth value (indentedChars depth value)
  | .list [], _, hdepth => spells_empty_list hdepth
  | .list (item :: rest), h, hdepth => by
    rw [height] at hdepth
    rw [indentedChars, block_eq _ _ _ (by simp [indentedItems])]
    exact spells_list (gap_new_line _) (gap_new_line _) (gap_new_line _) (by omega)
      (spells_indented_items (depth + 1) (item :: rest) h (by omega)) (by simp)
  | .object [], _, hdepth => spells_empty_object hdepth
  | .object (field :: rest), h, hdepth => by
    rw [height] at hdepth
    rw [indentedChars, block_eq _ _ _ (by simp [indentedFields])]
    exact spells_object (gap_new_line _) (gap_new_line _) (gap_new_line _) (by omega)
      (spells_indented_fields depth (field :: rest) h (by omega)) (by simp)
  | .null, h, _ => spells_leaf depth h (by simp) (by simp)
  | .bool _, h, _ => spells_leaf depth h (by simp) (by simp)
  | .integer _, h, _ => spells_leaf depth h (by simp) (by simp)
  | .text _, h, _ => spells_leaf depth h (by simp) (by simp)

/-- Plain items are spelled by what is written for them on many lines. -/
theorem spells_indented_items (depth : Nat) : (items : List Json) → ArePlain items →
    depth + heightOfItems items ≤ depthLimit →
      List.Forall₂ (Spells depth) items (indentedItems depth items)
  | [], _, _ => .nil
  | item :: rest, h, hdepth => by
    rw [heightOfItems] at hdepth
    exact .cons (spells_indented depth item h.1 (by omega))
      (spells_indented_items depth rest h.2 (by omega))

/-- Plain fields are spelled by what is written for them on many lines. -/
theorem spells_indented_fields (depth : Nat) : (fields : List (String × Json)) →
    AreFieldsPlain fields → depth + 1 + heightOfFields fields ≤ depthLimit →
      List.Forall₂ (SpellsPair depth) fields (indentedFields (depth + 1) fields)
  | [], _, _ => .nil
  | (name, value) :: rest, h, hdepth => by
    rw [heightOfFields] at hdepth
    exact .cons (spells_pair name gap_space
      (spells_indented (depth + 1) value h.1 (by omega)))
      (spells_indented_fields depth rest h.2 (by omega))

end

/-- A text that spells a document is read as that document. -/
theorem read_of_spells {value : Json} {cs : List Char} (h : Spells 0 value cs) :
    read (String.ofList cs) = some value := by
  have hread := read_chars_spelled h gap_nil gap_nil
  rw [read, String.toList_ofList]
  simpa using hread

/-- A plain document that is written on one line is read as what is left when it is cut. -/
theorem read_render_cut {value : Json} (h : value.IsPlain) :
    read value.render = some (cut 0 value) :=
  read_of_spells (spells_render_cut 0 value h)

/-- A plain document that is not nested too deeply is read back from one line. -/
theorem read_render {value : Json} (h : value.IsPlain) (hheight : value.height ≤ depthLimit) :
    read value.render = some value := by
  rw [read_render_cut h, cut_eq_self 0 value (by omega)]

/-- A plain document that is not nested too deeply is read back from many lines. -/
theorem read_render_indented {value : Json} (h : value.IsPlain)
    (hheight : value.height ≤ depthLimit) : read value.renderIndented = some value :=
  read_of_spells (spells_indented 0 value h (by omega))

end ChangeFeed.Json
