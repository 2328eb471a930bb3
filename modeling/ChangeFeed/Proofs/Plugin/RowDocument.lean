import ChangeFeed.Plugin.Basic
import ChangeFeed.Proofs.Json.Completeness
import ChangeFeed.Proofs.Json.Shape
import ChangeFeed.Proofs.Plugin.Spelling
import ChangeFeed.Proofs.Text.Utf8

/-!
# Documents of changed rows

How `mppdb_decoding` shows a changed row as a document, and that decoding any text of such a
document gives that row again (`RowForm.decode_document`). Read `DocumentRow.Renders` first. A
document whose lists do not belong together by index (`IsUneven`) is malformed. Both follow from
what the reader finds in an object (`Document.read_eq_some_iff`).
-/

namespace ChangeFeed.Plugin

open Json (valuesOf)

/-! ## Rows as documents -/

/-- A value and how a document shows it. A text stands in quotes, or as it is where it is not taken
for something else. -/
inductive RendersValue : RawValue → Json → Prop where
  | null : RendersValue .null .null
  | nullWord : RendersValue .null (.text "null")
  | unchangedToast : RendersValue .unchangedToast (.text "unchanged-toast-datum")
  | quoted (text : String) :
      RendersValue (.text text)
        (.text (String.ofList ('\'' :: (doubled '\'' text.toList ++ ['\'']))))
  | bare {text : String} (hmeaning : text ≠ "null" ∧ text ≠ "unchanged-toast-datum")
      (hquote : '\'' ∉ text.toList.head?) : RendersValue (.text text) (.text text)

/-- The names of the three lists of a section. -/
structure SectionNames where
  names : String
  types : String
  values : String

/-- The section of the new row. -/
def columnsSection : SectionNames :=
  ⟨"columns_name", "columns_type", "columns_val"⟩

/-- The section of the old key. -/
def oldKeysSection : SectionNames :=
  ⟨"old_keys_name", "old_keys_type", "old_keys_val"⟩

/-- A list stands under a name and nothing else does; an empty one may be left out. -/
def HoldsList (fields : List (String × Json)) (name : String) (items : List Json) : Prop :=
  valuesOf name fields = [.list items] ∨ (valuesOf name fields = [] ∧ items = [])

/-- A section shows columns: their names, their types and their values in the same order. -/
structure RendersSection (fields : List (String × Json)) (listNames : SectionNames)
    (columns : List RawColumn) : Prop where
  names : HoldsList fields listNames.names (columns.map fun column => .text column.name)
  types : HoldsList fields listNames.types (columns.map fun column => .text column.typeName)
  values : ∃ items, HoldsList fields listNames.values items ∧
    List.Forall₂ RendersValue (columns.map RawColumn.value) items

/-- A row that a document can show: its table is found behind the first point, if there is one. -/
structure DocumentRow where
  kind : RowKind
  schema : String
  table : String
  columns : List RawColumn
  oldKeys : List RawColumn
  schema_plain : '.' ∉ schema.toList
  table_plain : schema = "" → '.' ∉ table.toList

namespace DocumentRow

/-- The row at the position of its message. -/
def row (shown : DocumentRow) (position : Position) : Row :=
  ⟨position, shown.kind, shown.schema, shown.table, shown.columns, shown.oldKeys, none, none⟩

/-- The fields of a document show a row, in any order and among others. -/
structure Renders (shown : DocumentRow) (fields : List (String × Json)) : Prop where
  tableName : valuesOf "table_name" fields = [.text (qualifiedName shown.schema shown.table)]
  operation : valuesOf "op_type" fields = [.text shown.kind.name]
  columns : RendersSection fields columnsSection shown.columns
  oldKeys : RendersSection fields oldKeysSection shown.oldKeys

end DocumentRow

/-- A list stands under a name, perhaps not alone; one that is left out is empty. -/
def HasList (fields : List (String × Json)) (name : String) (items : List Json) : Prop :=
  .list items ∈ valuesOf name fields ∨ (valuesOf name fields = [] ∧ items = [])

/-- The fields tell of a changed row, but in one of the sections a list is longer than another. -/
def IsUneven (fields : List (String × Json)) : Prop :=
  (∃ kind : RowKind, .text kind.name ∈ valuesOf "op_type" fields) ∧
    ∃ listNames ∈ [columnsSection, oldKeysSection], ∃ names types values,
      HasList fields listNames.names names ∧ HasList fields listNames.types types ∧
        HasList fields listNames.values values ∧
        ¬ (names.length = types.length ∧ names.length = values.length)

/-! ## What the reader finds -/

/-- The only list under a name is as long as any list there. -/
theorem HoldsList.length_eq {fields : List (String × Json)} {name : String}
    {items others : List Json} (h : HoldsList fields name items)
    (hothers : HasList fields name others) : others.length = items.length := by
  rcases h with h | ⟨h, rfl⟩ <;> rcases hothers with hothers | ⟨hothers, rfl⟩
  · rw [h, List.mem_singleton] at hothers
    rw [Json.list.inj hothers]
  · exact absurd (h.symm.trans hothers) nofun
  · rw [h] at hothers
    exact absurd hothers List.not_mem_nil
  · rfl

/-- A section holds the texts of three lists. -/
structure HoldsSection (fields : List (String × Json)) (listNames : SectionNames)
    (parts : List String × List String × List (Option String)) : Prop where
  names : HoldsList fields listNames.names (parts.1.map .text)
  types : HoldsList fields listNames.types (parts.2.1.map .text)
  values : HoldsList fields listNames.values (parts.2.2.map (Json.ofOptional .text))

namespace RowForm

/-- A defaulted field is read as a list if that list stands under its name. -/
theorem member_list_iff {α : Type} {write : α → Json} {read : Option Json → Option (List α)}
    (hnone : read none = some [])
    (hsome : ∀ json values, read (some json) = some values ↔ json = .list (values.map write))
    (fields : List (String × Json)) (name : String) (values : List α) :
    (∃ member, Json.memberOf name .defaulted fields = some member ∧ read member = some values) ↔
      HoldsList fields name (values.map write) := by
  simp only [Json.member_defaulted_iff]
  constructor
  · rintro ⟨_, ⟨rfl, habsent⟩ | ⟨json, rfl, hjson⟩, hread⟩
    · obtain rfl := Option.some.inj (hnone.symm.trans hread)
      exact .inr ⟨habsent, rfl⟩
    · exact .inl ((hsome json values).mp hread ▸ hjson)
  · rintro (hlist | ⟨habsent, hempty⟩)
    · exact ⟨_, .inr ⟨_, rfl, hlist⟩, (hsome _ values).mpr rfl⟩
    · obtain rfl := List.map_eq_nil_iff.mp hempty
      exact ⟨none, .inl ⟨rfl, habsent⟩, hnone⟩

/-- The texts that are read for a field are those of the list under its name. -/
theorem texts_member_iff (fields : List (String × Json)) (name : String) (texts : List String) :
    (∃ member, Json.memberOf name .defaulted fields = some member ∧ textsOf member = some texts) ↔
      HoldsList fields name (texts.map .text) :=
  member_list_iff rfl (fun _ _ => Json.to_list_of_eq_some_iff Json.to_text_eq_some_iff)
    fields name texts

/-- The texts or nulls that are read for a field are those of the list under its name. -/
theorem optional_texts_member_iff (fields : List (String × Json)) (name : String)
    (texts : List (Option String)) :
    (∃ member, Json.memberOf name .defaulted fields = some member ∧
      optionalTextsOf member = some texts) ↔
        HoldsList fields name (texts.map (Json.ofOptional .text)) :=
  member_list_iff rfl (fun _ _ => Json.to_list_of_eq_some_iff Json.to_optional_text_eq_some_iff)
    fields name texts

/-- What is read from an object is what its fields hold. -/
structure Document.IsHeldBy (document : Document) (fields : List (String × Json)) : Prop where
  tableName : valuesOf "table_name" fields = [.text document.tableName]
  operation : valuesOf "op_type" fields = [.text document.operation]
  columns : HoldsSection fields columnsSection document.columns
  oldKeys : HoldsSection fields oldKeysSection document.oldKeys

/-- The text of an object is read as the document that its fields hold, and as no other. -/
theorem Document.read_eq_some_iff {cs : List Char} {fields : List (String × Json)}
    {document : Document} (hread : Json.readChars cs = some (.object fields)) :
    Document.read cs = some document ↔ document.IsHeldBy fields := by
  rw [Document.read, hread]
  simp only [Option.bind_eq_bind, Option.bind_some]
  constructor
  · intro h
    obtain ⟨found, hfound, h⟩ := Option.bind_eq_some_iff.mp h
    split at h
    · rw [Json.members, Json.map_m_eq_some_iff] at hfound
      simp only [List.forall₂_cons, Json.member_required_iff, Option.some.injEq,
        exists_eq_left'] at hfound
      obtain ⟨htable, hoperation, hnames, htypes, hvalues, hkeyNames, hkeyTypes, hkeyValues, -⟩ :=
        hfound
      simp only [Option.bind_eq_some_iff, Json.to_text_eq_some_iff, Option.pure_def,
        Option.some.injEq] at h
      obtain ⟨_, rfl, _, rfl, _, hnamesOf, _, htypesOf, _, hvaluesOf, _, hkeyNamesOf, _,
        hkeyTypesOf, _, hkeyValuesOf, rfl⟩ := h
      exact {
        tableName := htable
        operation := hoperation
        columns := {
          names := (texts_member_iff _ _ _).mp ⟨_, hnames, hnamesOf⟩
          types := (texts_member_iff _ _ _).mp ⟨_, htypes, htypesOf⟩
          values := (optional_texts_member_iff _ _ _).mp ⟨_, hvalues, hvaluesOf⟩ }
        oldKeys := {
          names := (texts_member_iff _ _ _).mp ⟨_, hkeyNames, hkeyNamesOf⟩
          types := (texts_member_iff _ _ _).mp ⟨_, hkeyTypes, hkeyTypesOf⟩
          values := (optional_texts_member_iff _ _ _).mp ⟨_, hkeyValues, hkeyValuesOf⟩ } }
    · exact absurd h nofun
  · intro h
    obtain ⟨_, hnames, hnamesOf⟩ := (texts_member_iff _ _ _).mpr h.columns.names
    obtain ⟨_, htypes, htypesOf⟩ := (texts_member_iff _ _ _).mpr h.columns.types
    obtain ⟨_, hvalues, hvaluesOf⟩ := (optional_texts_member_iff _ _ _).mpr h.columns.values
    obtain ⟨_, hkeyNames, hkeyNamesOf⟩ := (texts_member_iff _ _ _).mpr h.oldKeys.names
    obtain ⟨_, hkeyTypes, hkeyTypesOf⟩ := (texts_member_iff _ _ _).mpr h.oldKeys.types
    obtain ⟨_, hkeyValues, hkeyValuesOf⟩ := (optional_texts_member_iff _ _ _).mpr h.oldKeys.values
    have hfound : Json.members [("table_name", .required), ("op_type", .required),
        ("columns_name", .defaulted), ("columns_type", .defaulted), ("columns_val", .defaulted),
        ("old_keys_name", .defaulted), ("old_keys_type", .defaulted),
        ("old_keys_val", .defaulted)] (.object fields) = some [_, _, _, _, _, _, _, _] :=
      Json.map_m_eq_some_iff.mpr
        (.cons (Json.member_required_iff.mpr ⟨_, rfl, h.tableName⟩)
          (.cons (Json.member_required_iff.mpr ⟨_, rfl, h.operation⟩)
            (.cons hnames (.cons htypes (.cons hvalues
              (.cons hkeyNames (.cons hkeyTypes (.cons hkeyValues .nil))))))))
    simp only [hfound, Option.bind_some, Json.toText?, hnamesOf, htypesOf, hvaluesOf, hkeyNamesOf,
      hkeyTypesOf, hkeyValuesOf]
    rfl

/-! ## Rendered rows -/

/-- A rendered value is read as a literal that shows it. -/
theorem value_of_rendered {value : RawValue} {json : Json} (h : RendersValue value json) :
    ∃ literal, json = Json.ofOptional .text literal ∧ valueOf literal = value := by
  cases h with
  | null => exact ⟨none, rfl, rfl⟩
  | nullWord => exact ⟨some "null", rfl, rfl⟩
  | unchangedToast => exact ⟨some "unchanged-toast-datum", rfl, rfl⟩
  | quoted text =>
      refine ⟨some _, rfl, ?_⟩
      rw [valueOf, String.toList_ofList, literal_value_quoted]
  | @bare text hmeaning hquote =>
      refine ⟨some text, rfl, ?_⟩
      rw [valueOf, literal_value_bare hquote (by rwa [String.ofList_toList]),
        String.ofList_toList]

/-- Rendered values are read as literals that show them. -/
theorem values_of_rendered {values : List RawValue} {items : List Json}
    (h : List.Forall₂ RendersValue values items) :
    ∃ literals : List (Option String),
      items = literals.map (Json.ofOptional .text) ∧ literals.map valueOf = values := by
  induction h with
  | nil => exact ⟨[], rfl, rfl⟩
  | cons hvalue _ ih =>
      obtain ⟨literal, rfl, rfl⟩ := value_of_rendered hvalue
      obtain ⟨literals, rfl, rfl⟩ := ih
      exact ⟨literal :: literals, rfl, rfl⟩

/-- Columns are put together from their names, their types and their literals. -/
theorem zip_columns_of_map {columns : List RawColumn} {literals : List (Option String)}
    (h : literals.map valueOf = columns.map RawColumn.value) :
    zipColumns (columns.map RawColumn.name) (columns.map RawColumn.typeName) literals =
      columns := by
  induction columns generalizing literals with
  | nil => rfl
  | cons column columns ih =>
      obtain ⟨literal, literals, rfl, hvalue, hvalues⟩ := List.map_eq_cons_iff.mp h
      rw [List.map_cons, List.map_cons, zipColumns, ih hvalues, hvalue]

/-- A rendered section is read as its columns. -/
theorem read_section_rendered {fields : List (String × Json)} {listNames : SectionNames}
    {columns : List RawColumn} (h : RendersSection fields listNames columns)
    (sectionName : String) :
    ∃ parts, HoldsSection fields listNames parts ∧ readSection sectionName parts = .ok columns := by
  obtain ⟨items, hitems, hvalues⟩ := h.values
  obtain ⟨literals, rfl, hliterals⟩ := values_of_rendered hvalues
  refine ⟨(columns.map RawColumn.name, columns.map RawColumn.typeName, literals), ?_, ?_⟩
  · exact {
      names := by rw [List.map_map]; exact h.names
      types := by rw [List.map_map]; exact h.types
      values := hitems }
  · have hlength : literals.length = columns.length := by
      simpa using congrArg List.length hliterals
    rw [readSection, if_pos (by simp [hlength]), zip_columns_of_map hliterals]

/-- A name behind its schema is cut at the first point, and a name alone is not cut. -/
theorem cut_qualified_name (shown : DocumentRow) :
    (shown.schema = "" ∧ qualifiedName shown.schema shown.table = shown.table ∧
      Text.cutAt '.' shown.table.toList = none) ∨
    Text.cutAt '.' (qualifiedName shown.schema shown.table).toList =
      some (shown.schema.toList, shown.table.toList) := by
  by_cases hschema : shown.schema = ""
  · refine .inl ⟨hschema, ?_, Text.cut_at_eq_none_iff.mpr (shown.table_plain hschema)⟩
    rw [qualifiedName, hschema]
    rfl
  · have hempty : shown.schema.isEmpty = false := by simpa using hschema
    have hcut : Text.cutAt '.' (shown.schema.toList ++ '.' :: shown.table.toList) = _ :=
      Text.cut_at_eq_some_iff.mpr ⟨rfl, shown.schema_plain⟩
    right
    simpa [qualifiedName, hempty] using hcut

/-- The text of a document that shows a row is read as that row. -/
theorem read_row_rendered {cs : List Char} {fields : List (String × Json)}
    (hread : Json.readChars cs = some (.object fields)) {shown : DocumentRow}
    (h : shown.Renders fields) (position : Position) :
    readRow position cs = .ok (.row (shown.row position)) := by
  obtain ⟨columns, hcolumns, hreadColumns⟩ := read_section_rendered h.columns "columns"
  obtain ⟨oldKeys, holdKeys, hreadOldKeys⟩ := read_section_rendered h.oldKeys "old_keys"
  have hdocument : Document.read cs =
      some ⟨qualifiedName shown.schema shown.table, shown.kind.name, columns, oldKeys⟩ :=
    (Document.read_eq_some_iff hread).mpr ⟨h.tableName, h.operation, hcolumns, holdKeys⟩
  have hkind : RowKind.ofName? shown.kind.name = some shown.kind := by
    cases shown.kind <;> rfl
  rw [readRow, hdocument]
  simp only [hkind, hreadColumns, hreadOldKeys]
  rcases cut_qualified_name shown with ⟨hschema, hname, hcut⟩ | hcut
  · rw [hname, hcut, DocumentRow.row, hschema]
    rfl
  · simp only [hcut, String.ofList_toList]
    rfl

/-! ## Uneven documents -/

/-- A section of uneven lists is refused. -/
theorem read_section_uneven {fields : List (String × Json)} {listNames : SectionNames}
    {parts : List String × List String × List (Option String)}
    (h : HoldsSection fields listNames parts) {names types values : List Json}
    (hnames : HasList fields listNames.names names)
    (htypes : HasList fields listNames.types types)
    (hvalues : HasList fields listNames.values values)
    (huneven : ¬ (names.length = types.length ∧ names.length = values.length))
    (sectionName : String) :
    ∃ reason, readSection sectionName parts = .error reason := by
  have hnames := h.names.length_eq hnames
  have htypes := h.types.length_eq htypes
  have hvalues := h.values.length_eq hvalues
  rw [List.length_map] at hnames htypes hvalues
  rw [hnames, htypes, hvalues] at huneven
  obtain ⟨names, types, values⟩ := parts
  exact ⟨_, if_neg huneven⟩

/-- The text of an uneven document is malformed. -/
theorem read_row_uneven {cs : List Char} {fields : List (String × Json)}
    (hread : Json.readChars cs = some (.object fields)) (h : IsUneven fields)
    (position : Position) : ∃ reason, readRow position cs = .error (.malformed position reason) := by
  obtain ⟨⟨kind, hkind⟩, listNames, hmem, _, _, _, hnames, htypes, hvalues, huneven⟩ := h
  rw [readRow]
  cases hdocument : Document.read cs with
  | none => exact ⟨_, rfl⟩
  | some document =>
      have hheld := (Document.read_eq_some_iff hread).mp hdocument
      have hoperation : RowKind.ofName? document.operation = some kind := by
        rw [hheld.operation, List.mem_singleton] at hkind
        rw [← Json.text.inj hkind]
        cases kind <;> rfl
      simp only [hoperation]
      rcases List.mem_pair.mp hmem with rfl | rfl
      · obtain ⟨reason, hreason⟩ :=
          read_section_uneven hheld.columns hnames htypes hvalues huneven "columns"
        rw [hreason]
        exact ⟨reason, rfl⟩
      · obtain ⟨reason, hreason⟩ :=
          read_section_uneven hheld.oldKeys hnames htypes hvalues huneven "old_keys"
        rw [hreason]
        cases hcolumns : readSection "columns" document.columns with
        | error other => exact ⟨other, rfl⟩
        | ok columns => exact ⟨reason, rfl⟩

/-! ## Messages -/

variable {fields : List (String × Json)} {front cs back : List Char}

/-- The bytes of an object are decoded as the row that its text is read as, with blanks around. -/
theorem decode_object (hspells : Json.Spells 0 (.object fields) cs)
    (hfront : ∀ c ∈ front, Text.isBlank c = true) (hback : ∀ c ∈ back, Text.isBlank c = true)
    (position : Position) :
    mppdbDecoding.decode position (Text.toUtf8 (front ++ (cs ++ back))) = readRow position cs := by
  obtain ⟨inner, rfl⟩ := hspells.in_braces
  rw [decode, Text.of_utf8_to_utf8]
  dsimp only
  rw [read, Text.trim_padded hfront hback rfl rfl, List.head?_cons]
  exact if_pos rfl

/-- Every text of a document that shows a row is decoded as that row, with its names, types and
values in order. A document with uneven lists is malformed. -/
theorem decode_document (hspells : Json.Spells 0 (.object fields) cs)
    (hfront : ∀ c ∈ front, Text.isBlank c = true) (hback : ∀ c ∈ back, Text.isBlank c = true)
    (position : Position) :
    (∀ shown : DocumentRow, shown.Renders fields →
      mppdbDecoding.decode position (Text.toUtf8 (front ++ (cs ++ back))) =
        .ok (.row (shown.row position))) ∧
    (IsUneven fields → ∃ reason,
      mppdbDecoding.decode position (Text.toUtf8 (front ++ (cs ++ back))) =
        .error (.malformed position reason)) := by
  have hread := Json.read_chars_spelled hspells Json.gap_nil Json.gap_nil
  rw [List.nil_append, List.append_nil] at hread
  rw [decode_object hspells hfront hback]
  exact ⟨fun _ h => read_row_rendered hread h position, fun h => read_row_uneven hread h position⟩

/-- An updated row with a text in quotes, a value that was not sent and no old key. -/
def sampleRow : DocumentRow where
  kind := .update
  schema := "public"
  table := "items"
  columns := [⟨"id", "integer", .text "1"⟩, ⟨"note", "text", .text "it's \"größer\""⟩,
    ⟨"body", "text", .unchangedToast⟩, ⟨"gone", "text", .null⟩]
  oldKeys := []
  schema_plain := by decide
  table_plain := by decide

/-- The fields of a document of that row, with one that is not known among them. -/
def sampleFields : List (String × Json) :=
  [("op_type", .text "UPDATE"),
    ("columns_val", .list [.text "1", .text "'it''s \"größer\"'", .text "unchanged-toast-datum",
      .null]),
    ("commit", .list [.integer 7, .bool false]),
    ("columns_name", .list [.text "id", .text "note", .text "body", .text "gone"]),
    ("table_name", .text "public.items"),
    ("columns_type", .list [.text "integer", .text "text", .text "text", .text "text"])]

/-- The fields of a document that has a name without a type. -/
def unevenFields : List (String × Json) :=
  [("table_name", .text "public.items"), ("op_type", .text "INSERT"),
    ("columns_name", .list [.text "id"]), ("columns_val", .list [.text "1"])]

/-- A document of an updated row is decoded as that row, and one with an uneven section is
malformed. -/
theorem decode_document_samples :
    mppdbDecoding.decode .zero
        (Text.toUtf8 ([' '] ++ (Json.renderChars (.object sampleFields) ++ ['\n']))) =
      .ok (.row (sampleRow.row .zero)) ∧
    ∃ reason, mppdbDecoding.decode .zero
        (Text.toUtf8 ([] ++ (Json.renderChars (.object unevenFields) ++ []))) =
      .error (.malformed .zero reason) := by
  have hplain : Json.AreFieldsPlain sampleFields ∧ Json.AreFieldsPlain unevenFields := by
    simp [sampleFields, unevenFields, Json.AreFieldsPlain, Json.ArePlain, Json.IsPlain,
      Json.IsWhole]
  have hheight : (Json.object sampleFields).height = 2 ∧ (Json.object unevenFields).height = 2 := by
    simp [sampleFields, unevenFields, Json.height, Json.heightOfFields, Json.heightOfItems]
  have hspells := Json.spells_render 0 (.object sampleFields) hplain.1
    (by rw [hheight.1, Json.depthLimit]; omega)
  have huneven := Json.spells_render 0 (.object unevenFields) hplain.2
    (by rw [hheight.2, Json.depthLimit]; omega)
  refine ⟨(decode_document hspells (by simp [Text.isBlank]) (by simp [Text.isBlank]) .zero).1
      sampleRow ?_, (decode_document huneven (by simp) (by simp) .zero).2 ?_⟩
  · exact {
      tableName := rfl
      operation := rfl
      columns := {
        names := .inl rfl
        types := .inl rfl
        values := ⟨_, .inl rfl, .cons (.bare (by decide) (by decide))
          (.cons (.quoted "it's \"größer\"") (.cons .unchangedToast (.cons .null .nil)))⟩ }
      oldKeys := {
        names := .inr ⟨rfl, rfl⟩
        types := .inr ⟨rfl, rfl⟩
        values := ⟨[], .inr ⟨rfl, rfl⟩, .nil⟩ } }
  · refine ⟨⟨.insert, ?_⟩, columnsSection, List.mem_cons_self, _, _, _, .inl List.mem_cons_self,
      .inr ⟨rfl, rfl⟩, .inl List.mem_cons_self, ?_⟩
    · exact List.mem_cons_self
    · decide

end RowForm

end ChangeFeed.Plugin
