import ChangeFeed.Proofs.Value.Document
import ChangeFeed.Schema.Document

/-!
# Schemas read back from their documents

A schema that is saved as a document is loaded as it is, with its tables in the same order, exactly
if the arrays of its types are not nested too deeply for the reader: `Schema.of_file_saved`. A type
that is nested too deeply leaves a part without a value, and a tagged document with such a part is
refused (`ColumnType.of_json_cut`).
-/

namespace ChangeFeed

open Json (IsPlain ArePlain AreFieldsPlain height heightOfItems heightOfFields depthLimit cut
  cutItems cutFields)

namespace Json

/-- Each item is cut by itself. -/
theorem cut_items_eq_map (depth : Nat) (items : List Json) :
    cutItems depth items = items.map (cut depth) := by
  induction items with
  | nil => rfl
  | cons item rest ih => rw [cutItems, ih, List.map_cons]

/-- A list of documents is read exactly if each of them is. -/
theorem list_of_map_if {α : Type} {write : α → Json} {read : Json → Option α} {p : α → Prop}
    [DecidablePred p] {items : List α}
    (h : ∀ item ∈ items, read (write item) = if p item then some item else none) :
    (Json.list (items.map write)).toListOf? read =
      if ∀ item ∈ items, p item then some items else none := by
  rw [toListOf?]
  induction items with
  | nil => simp
  | cons item rest ih =>
      obtain ⟨hitem, hrest⟩ := List.forall_mem_cons.mp h
      rw [List.map_cons, List.mapM_cons, hitem, ih hrest]
      by_cases hp : p item
      · by_cases hall : ∀ other ∈ rest, p other
        · rw [if_pos hp, if_pos hall, if_pos (List.forall_mem_cons.mpr ⟨hp, hall⟩)]
          rfl
        · rw [if_pos hp, if_neg hall, if_neg fun h => hall (List.forall_mem_cons.mp h).2]
          rfl
      · rw [if_neg hp, if_neg fun h => hp (List.forall_mem_cons.mp h).1]
        rfl

end Json

/-! ## Types -/

namespace ColumnType

/-- How many arrays stand around the innermost type. -/
def nesting : ColumnType → Nat
  | .array element => element.nesting + 1
  | _ => 0

/-- The documents of schemas have five levels around those of types, so that a reader takes types of
this many arrays. -/
def Fits (t : ColumnType) : Prop :=
  t.nesting + 6 ≤ depthLimit

/-- Whether a type fits can be computed. -/
instance (t : ColumnType) : Decidable t.Fits :=
  inferInstanceAs (Decidable (_ ≤ _))

/-- The document of a type has a level for each array and one for the innermost type. -/
theorem height_to_json (t : ColumnType) : t.toJson.height = t.nesting + 1 := by
  induction t with
  | array element ih => simp [toJson, height, heightOfFields, nesting, ih]
  | _ => rfl

/-- A type in the document of a schema is read exactly if it fits. -/
theorem of_json_cut (t : ColumnType) :
    ofJson? false (cut 5 t.toJson) = if t.Fits then some t else none := by
  have hlimit : depthLimit = 127 := rfl
  have hheight := t.height_to_json
  split
  · rename_i hfits
    rw [Fits] at hfits
    rw [Json.cut_eq_self 5 _ (by omega), t.of_json_to_json (by omega)]
  · rename_i hfits
    cases t with
    | array element =>
        rw [Fits, nesting] at hfits
        have hdeep : ¬ 6 + element.toJson.height ≤ depthLimit := by
          rw [element.height_to_json]
          omega
        have hunusable : (cut 6 element.toJson).isUsable = false := by
          rw [← Bool.not_eq_true, Json.is_usable_cut_iff 6 (by decide) _ element.is_plain_to_json]
          exact hdeep
        have hcut : cut 5 (ColumnType.array element).toJson =
            .object [("type", .text "array"), ("element_type", cut 6 element.toJson)] := rfl
        have hrefused : Json.tagged "type" tags false
            (.object [("type", .text "array"), ("element_type", cut 6 element.toJson)]) = none := by
          simp [Json.tagged, Json.valuesOf, Json.variant, Json.areFieldsUsable, hunusable]
        rw [hcut, ofJson?, ofJsonWithin, hrefused]
        rfl
    | _ => exact absurd (show 0 + 6 ≤ depthLimit by decide) hfits

end ColumnType

/-! ## Columns and tables -/

namespace ColumnDefinition

/-- A column is a plain document. -/
theorem is_plain_to_json (c : ColumnDefinition) : c.toJson.IsPlain := by
  simpa [toJson, IsPlain, AreFieldsPlain] using c.type.is_plain_to_json

/-- A column in the document of a schema is read exactly if its type fits. -/
theorem of_json_cut (c : ColumnDefinition) :
    ofJson? (cut 4 c.toJson) = if c.type.Fits then some c else none := by
  have hmembers : Json.members [("name", .required), ("type", .required), ("nullable", .defaulted)]
      (cut 4 c.toJson) =
        some [some (.text c.name), some (cut 5 c.type.toJson), some (.bool c.nullable)] :=
    Json.members_zip [.text c.name, cut 5 c.type.toJson, .bool c.nullable] rfl (by simp)
  rw [ofJson?, hmembers]
  by_cases hfits : c.type.Fits <;> simp [Json.toText?, Json.toBool?, ColumnType.of_json_cut, hfits]

end ColumnDefinition

namespace TableDefinition

/-- The types of all columns fit. -/
def Fits (t : TableDefinition) : Prop :=
  ∀ c ∈ t.columns, c.type.Fits

/-- Whether a table fits can be computed. -/
instance (t : TableDefinition) : Decidable t.Fits :=
  inferInstanceAs (Decidable (∀ c ∈ t.columns, c.type.Fits))

/-- A table is a plain document. -/
theorem is_plain_to_json (t : TableDefinition) : t.toJson.IsPlain := by
  have hcolumns : ArePlain (t.columns.map ColumnDefinition.toJson) := by
    refine Json.are_plain_of_forall fun item hitem => ?_
    obtain ⟨c, -, rfl⟩ := List.mem_map.mp hitem
    exact c.is_plain_to_json
  have hkey : ArePlain (t.primaryKey.map Json.text) := by
    refine Json.are_plain_of_forall fun item hitem => ?_
    obtain ⟨_, -, rfl⟩ := List.mem_map.mp hitem
    trivial
  simp [toJson, IsPlain, AreFieldsPlain, hcolumns, hkey]

/-- A table in the document of a schema is read exactly if the types of its columns fit. -/
theorem of_json_cut (t : TableDefinition) :
    ofJson? (cut 2 t.toJson) = if t.Fits then some t else none := by
  have hcolumns : (Json.list (t.columns.map fun c => cut 4 c.toJson)).toListOf?
      ColumnDefinition.ofJson? = if t.Fits then some t.columns else none :=
    Json.list_of_map_if fun c _ => c.of_json_cut
  have hkey : (Json.list (t.primaryKey.map .text)).toListOf? Json.toText? = some t.primaryKey :=
    Json.list_of_map fun _ _ => rfl
  have hcut : cut 2 t.toJson = .object [("name", .text t.name),
      ("columns", .list (t.columns.map fun c => cut 4 c.toJson)),
      ("primary_key", .list (t.primaryKey.map .text))] := by
    show Json.object
      [_, ("columns", .list (cutItems 4 _)), ("primary_key", .list (cutItems 4 _))] = _
    simp only [Json.cut_items_eq_map, List.map_map, Function.comp_def, cut]
  have hmembers : Json.members
      [("name", .required), ("columns", .required), ("primary_key", .defaulted)]
      (.object [("name", .text t.name),
        ("columns", .list (t.columns.map fun c => cut 4 c.toJson)),
        ("primary_key", .list (t.primaryKey.map .text))]) =
      some [some (.text t.name), some (.list (t.columns.map fun c => cut 4 c.toJson)),
        some (.list (t.primaryKey.map .text))] :=
    Json.members_zip [Json.text t.name, Json.list (t.columns.map fun c => cut 4 c.toJson),
      Json.list (t.primaryKey.map Json.text)] rfl (by simp)
  rw [ofJson?, hcut, hmembers]
  by_cases hfits : t.Fits <;> simp [Json.toText?, hcolumns, hkey, hfits]

end TableDefinition

/-! ## Schemas -/

namespace Schema

/-- The types of all columns of all tables fit. -/
def Fits (s : Schema) : Prop :=
  ∀ t ∈ s.tables, t.Fits

/-- Whether a schema fits can be computed. -/
instance (s : Schema) : Decidable s.Fits :=
  inferInstanceAs (Decidable (∀ t ∈ s.tables, t.Fits))

/-- A schema is a plain document. -/
theorem is_plain_to_json (s : Schema) : s.toJson.IsPlain := by
  have htables : ArePlain (s.tables.map TableDefinition.toJson) := by
    refine Json.are_plain_of_forall fun item hitem => ?_
    obtain ⟨t, -, rfl⟩ := List.mem_map.mp hitem
    exact t.is_plain_to_json
  simp [toJson, IsPlain, AreFieldsPlain, htables]

/-- The document of a schema is read as the schema exactly if the types of all columns fit. -/
theorem of_json_cut (s : Schema) :
    ofJson? (cut 0 s.toJson) = if s.Fits then some s else none := by
  have htables : (Json.list (s.tables.map fun t => cut 2 t.toJson)).toListOf?
      TableDefinition.ofJson? = if s.Fits then some s.tables else none :=
    Json.list_of_map_if fun t _ => t.of_json_cut
  have hcut : cut 0 s.toJson =
      .object [("tables", .list (s.tables.map fun t => cut 2 t.toJson))] := by
    show Json.object [("tables", .list (cutItems 2 _))] = _
    rw [Json.cut_items_eq_map, List.map_map]
    rfl
  have hmembers : Json.members [("tables", .required)]
      (.object [("tables", .list (s.tables.map fun t => cut 2 t.toJson))]) =
      some [some (.list (s.tables.map fun t => cut 2 t.toJson))] :=
    Json.members_zip [Json.list (s.tables.map fun t => cut 2 t.toJson)] rfl (by simp)
  rw [ofJson?, hcut, hmembers]
  by_cases hfits : s.Fits <;> simp [htables, hfits]

/-- A schema that is saved is loaded as it is, exactly if the types of all columns fit. -/
theorem of_file_saved (s : Schema) :
    ofFile (.ok s.toJson.render) = if s.Fits then .ok s else .error .document := by
  rw [ofFile, Json.read_render_cut s.is_plain_to_json, Option.bind_some, s.of_json_cut]
  by_cases hfits : s.Fits <;> simp [hfits]

end Schema

end ChangeFeed
