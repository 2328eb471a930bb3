import ChangeFeed.Json.Shape
import ChangeFeed.Proofs.Json.RoundTrip

/-!
# Known shapes of documents

What the readers of tagged and labelled documents find in a document whose tag comes first. A plain
document has no unusable part (`Json.is_usable_of_plain`), so that nothing about it is refused, and
what is read of it has none unless it is nested too deeply (`Json.is_usable_cut_iff`).
-/

namespace ChangeFeed.Json

mutual

/-- A plain document is usable. -/
theorem is_usable_of_plain : (value : Json) → value.IsPlain → value.isUsable = true
  | .list items, h => are_usable_of_plain items h
  | .object fields, h => are_fields_usable_of_plain fields h
  | .null, _ | .bool _, _ | .integer _, _ | .text _, _ => rfl

/-- Plain items are usable. -/
theorem are_usable_of_plain : (items : List Json) → ArePlain items → areUsable items = true
  | [], _ => rfl
  | item :: rest, h => by
    rw [areUsable, is_usable_of_plain item h.1, are_usable_of_plain rest h.2, Bool.and_self]

/-- Plain fields are usable. -/
theorem are_fields_usable_of_plain :
    (fields : List (String × Json)) → AreFieldsPlain fields → areFieldsUsable fields = true
  | [], _ => rfl
  | (_, value) :: rest, h => by
    rw [areFieldsUsable, is_usable_of_plain value h.1, are_fields_usable_of_plain rest h.2,
      Bool.and_self]

end

mutual

/-- What is left of a plain document is usable exactly if nothing is nested too deeply. -/
theorem is_usable_cut_iff (depth : Nat) (hdepth : depth ≤ depthLimit) :
    (value : Json) → value.IsPlain →
      ((cut depth value).isUsable = true ↔ depth + value.height ≤ depthLimit)
  | .list items, h => by
    rw [cut, listAt, height]
    split
    · rename_i hlt
      rw [isUsable, are_usable_cut_iff (depth + 1) hlt items h]
      omega
    · exact iff_of_false (by simp [isUsable]) (by omega)
  | .object fields, h => by
    rw [cut, objectAt, height]
    split
    · rename_i hlt
      rw [isUsable, are_fields_usable_cut_iff (depth + 1) hlt fields h]
      omega
    · exact iff_of_false (by simp [isUsable]) (by omega)
  | .null, _ | .bool _, _ | .integer _, _ | .text _, _ => iff_of_true rfl hdepth

/-- What is left of plain items is usable exactly if nothing is nested too deeply. -/
theorem are_usable_cut_iff (depth : Nat) (hdepth : depth ≤ depthLimit) :
    (items : List Json) → ArePlain items →
      (areUsable (cutItems depth items) = true ↔ depth + heightOfItems items ≤ depthLimit)
  | [], _ => iff_of_true rfl hdepth
  | item :: rest, h => by
    rw [cutItems, areUsable, Bool.and_eq_true, is_usable_cut_iff depth hdepth item h.1,
      are_usable_cut_iff depth hdepth rest h.2, heightOfItems]
    omega

/-- What is left of plain fields is usable exactly if nothing is nested too deeply. -/
theorem are_fields_usable_cut_iff (depth : Nat) (hdepth : depth ≤ depthLimit) :
    (fields : List (String × Json)) → AreFieldsPlain fields →
      (areFieldsUsable (cutFields depth fields) = true ↔
        depth + heightOfFields fields ≤ depthLimit)
  | [], _ => iff_of_true rfl hdepth
  | (_, value) :: rest, h => by
    rw [cutFields, areFieldsUsable, Bool.and_eq_true, is_usable_cut_iff depth hdepth value h.1,
      are_fields_usable_cut_iff depth hdepth rest h.2, heightOfFields]
    omega

end

/-- There is no value under a name that no field has. -/
theorem values_of_eq_nil {name : String} {fields : List (String × Json)}
    (h : ∀ field ∈ fields, field.1 ≠ name) : valuesOf name fields = [] := by
  have hnone : fields.filter (·.1 == name) = [] := by simpa using h
  rw [valuesOf, hnone, List.map_nil]

/-- The values under a name are those of all fields together. -/
theorem values_of_append (name : String) (fields more : List (String × Json)) :
    valuesOf name (fields ++ more) = valuesOf name fields ++ valuesOf name more := by
  rw [valuesOf, List.filter_append, List.map_append, valuesOf, valuesOf]

/-- There is one value under a name that one field has. -/
theorem values_of_single {name : String} {value : Json} {front rest : List (String × Json)}
    (hfront : ∀ field ∈ front, field.1 ≠ name) (hrest : ∀ field ∈ rest, field.1 ≠ name) :
    valuesOf name (front ++ (name, value) :: rest) = [value] := by
  have hcons := values_of_append name [(name, value)] rest
  rw [values_of_eq_nil hrest] at hcons
  rw [values_of_append, values_of_eq_nil hfront, List.nil_append]
  simpa [valuesOf] using hcons

/-- The fields of a record that has all its fields in order, and no others. -/
theorem members_zip {shape : List (String × Presence)} (values : List Json)
    (hlength : shape.length = values.length) (hnodup : (shape.map Prod.fst).Nodup) :
    members shape (.object ((shape.map Prod.fst).zip values)) = some (values.map some) := by
  -- Fields in front of the others, with other names, change nothing.
  have hbehind (front : List (String × Json))
      (hfront : ∀ field ∈ front, field.1 ∉ shape.map Prod.fst) :
      (shape.mapM fun entry =>
        memberOf entry.1 entry.2 (front ++ (shape.map Prod.fst).zip values)) =
          some (values.map some) := by
    induction shape generalizing values front with
    | nil =>
        obtain rfl := List.length_eq_zero_iff.mp hlength.symm
        rfl
    | cons entry shape ih =>
        obtain ⟨name, presence⟩ := entry
        obtain ⟨value, values, rfl⟩ := List.exists_cons_of_length_eq_add_one hlength.symm
        rw [List.map_cons, List.nodup_cons] at hnodup
        rw [List.map_cons, List.zip_cons_cons]
        have hmore := ih values (by simpa using hlength) hnodup.2 (front ++ [(name, value)]) (by
          intro field hfield
          rcases List.mem_append.mp hfield with hfield | hfield
          · exact fun hmem => hfront field hfield (List.mem_cons_of_mem _ hmem)
          · exact List.mem_singleton.mp hfield ▸ hnodup.1)
        have hvalues : valuesOf name (front ++ (name, value) :: (shape.map Prod.fst).zip values) =
            [value] := by
          refine values_of_single ?_ ?_
          · rintro field hfield rfl
            exact hfront field hfield List.mem_cons_self
          · rintro ⟨other, _⟩ hfield rfl
            exact hnodup.1 (List.of_mem_zip hfield).1
        have hvalue : memberOf name presence
            (front ++ (name, value) :: (shape.map Prod.fst).zip values) = some (some value) := by
          simp [memberOf, hvalues]
        rw [List.append_assoc, List.singleton_append] at hmore
        simp [hvalue, hmore]
  exact hbehind [] nofun

/-- A required field is there exactly once. -/
theorem member_required_iff {name : String} {fields : List (String × Json)}
    {member : Option Json} :
    memberOf name .required fields = some member ↔
      ∃ value, member = some value ∧ valuesOf name fields = [value] := by
  unfold memberOf
  cases valuesOf name fields with
  | nil => simp
  | cons value rest =>
      cases rest with
      | nil => simp [eq_comm]
      | cons other rest => simp

/-- A defaulted field is there once or not at all. -/
theorem member_defaulted_iff {name : String} {fields : List (String × Json)}
    {member : Option Json} :
    memberOf name .defaulted fields = some member ↔
      (member = none ∧ valuesOf name fields = []) ∨
        ∃ value, member = some value ∧ valuesOf name fields = [value] := by
  unfold memberOf
  cases valuesOf name fields with
  | nil => simp [eq_comm]
  | cons value rest =>
      cases rest with
      | nil => simp [eq_comm]
      | cons other rest => simp

/-! ## Texts -/

/-- A text is the document of that text and no other. -/
theorem to_text_eq_some_iff {json : Json} {text : String} :
    json.toText? = some text ↔ json = .text text := by
  cases json <;> simp [toText?]

/-- A text or nothing is the document of it and no other. -/
theorem to_optional_text_eq_some_iff {json : Json} {text : Option String} :
    json.toOptional? toText? = some text ↔ json = ofOptional .text text := by
  cases json <;> cases text <;> simp [toOptional?, toText?, ofOptional]

/-! ## Lists -/

/-- A reader gives values for a list if it gives one for each of the items. -/
theorem map_m_eq_some_iff {α β : Type} {read : α → Option β} {items : List α} {values : List β} :
    items.mapM read = some values ↔
      List.Forall₂ (fun item value => read item = some value) items values := by
  induction items generalizing values with
  | nil => simp [eq_comm]
  | cons item rest ih =>
      simp only [List.mapM_cons, List.forall₂_cons_left_iff, ← ih, Option.bind_eq_bind,
        Option.bind_eq_some_iff, Option.pure_def, Option.some.injEq]
      constructor
      · rintro ⟨value, hvalue, others, hothers, rfl⟩
        exact ⟨value, others, hvalue, hothers, rfl⟩
      · rintro ⟨value, others, hvalue, hothers, rfl⟩
        exact ⟨value, hvalue, others, hothers, rfl⟩

/-- If the items are documents of values and of no others, so is the list. -/
theorem to_list_of_eq_some_iff {α : Type} {write : α → Json} {read : Json → Option α}
    (h : ∀ {item value}, read item = some value ↔ item = write value) {json : Json}
    {values : List α} :
    json.toListOf? read = some values ↔ json = .list (values.map write) := by
  cases json with
  | list items =>
      have hitems : List.Forall₂ (fun item value => item = write value) items values ↔
          items = values.map write := by
        rw [← List.forall₂_eq_eq_eq, List.forall₂_map_right_iff]
      simp only [toListOf?, map_m_eq_some_iff, h, hitems, list.injEq]
  | _ => simp [toListOf?]

/-- An item is not higher than the highest one. -/
theorem height_le_of_mem {item : Json} {items : List Json} (h : item ∈ items) :
    item.height ≤ heightOfItems items := by
  induction items with
  | nil => exact absurd h List.not_mem_nil
  | cons other rest ih =>
      rw [heightOfItems]
      rcases List.mem_cons.mp h with rfl | h
      · exact Nat.le_max_left _ _
      · exact Nat.le_trans (ih h) (Nat.le_max_right _ _)

/-- Items that are plain one by one are plain. -/
theorem are_plain_of_forall {items : List Json} (h : ∀ item ∈ items, item.IsPlain) :
    ArePlain items := by
  induction items with
  | nil => trivial
  | cons item rest ih =>
      obtain ⟨hitem, hrest⟩ := List.forall_mem_cons.mp h
      exact ⟨hitem, ih hrest⟩

/-- A list is read back from what is written for its items. -/
theorem list_of_map {α : Type} {write : α → Json} {read : Json → Option α} {items : List α}
    (h : ∀ item ∈ items, read (write item) = some item) :
    (Json.list (items.map write)).toListOf? read = some items := by
  rw [toListOf?]
  induction items with
  | nil => rfl
  | cons item rest ih =>
      obtain ⟨hitem, hrest⟩ := List.forall_mem_cons.mp h
      simp [hitem, ih hrest]

/-! ## Variants -/

variable {tag name : String} {names : List String} {nested : Bool}

/-- A document with its tag in front is read as that variant, whose fields are the others. -/
theorem tagged_cons {fields : List (String × Json)} (hname : name ∈ names)
    (hfields : ∀ field ∈ fields, field.1 ≠ tag) (hplain : AreFieldsPlain fields) :
    tagged tag names nested (.object ((tag, .text name) :: fields)) =
      some (name, .object fields) := by
  have hvalues : valuesOf tag ((tag, .text name) :: fields) = [.text name] := by
    have happend := values_of_append tag [(tag, .text name)] fields
    rw [values_of_eq_nil hfields] at happend
    simpa [valuesOf] using happend
  have hrest : ((tag, Json.text name) :: fields).filter (·.1 != tag) = fields := by
    simpa using hfields
  rw [tagged, hvalues]
  simp only [hrest, variant, hname, if_true, are_fields_usable_of_plain fields hplain]
  rfl

/-- A document with its tag and nothing else has no content. -/
theorem labelled_bare {content : String} (hname : name ∈ names) (hne : tag ≠ content) :
    labelled tag content names nested (.object [(tag, .text name)]) =
      some (name, none, nested) := by
  simp [labelled, valuesOf, variant, hname, hne]

/-- A document with its tag in front of its content has that content. -/
theorem labelled_with {content : String} (hname : name ∈ names) (hne : tag ≠ content)
    (value : Json) :
    labelled tag content names nested (.object [(tag, .text name), (content, value)]) =
      some (name, some value, nested) := by
  simp [labelled, valuesOf, variant, hname, hne, hne.symm]

end ChangeFeed.Json
