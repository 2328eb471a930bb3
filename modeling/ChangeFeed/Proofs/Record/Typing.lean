import ChangeFeed.Proofs.Except
import ChangeFeed.Proofs.Value.Typing
import ChangeFeed.Record.Converter
import Mathlib.Data.List.Forall2

/-!
# Rows become typed records

A row of a followed table becomes a record as a whole or not at all. Read `DataRecord.IsOf` first:
what the record of a row holds. `Converter.convert_followed` says when there is one, what it holds,
and for which column there is none.
-/

namespace ChangeFeed

/-- A definition covers a column: it gives the column a type, and if the column shows a literal,
that is one of the type. -/
def TableDefinition.Covers (definition : TableDefinition) (raw : RawColumn) : Prop :=
  ∃ t, definition.columnType? raw.name = some t ∧
    ∀ literal, raw.value = .text literal → ∃ value, Value.ofLiteral t literal = .ok value

/-- What a column of a type shows is a value. -/
inductive RawValue.Shows (t : ColumnType) : RawValue → Value → Prop
  | null : Shows t .null .null
  | unchanged : Shows t .unchangedToast .unchanged
  | text {literal : String} {value : Value} (hread : Value.ofLiteral t literal = .ok value)
      (htype : value.HasType t) : Shows t (.text literal) value

/-- A typed column is one of a row. It is marked if its name is among those that identify the
row. -/
structure Column.IsOf (definition : TableDefinition) (keys : List String) (raw : RawColumn)
    (column : Column) : Prop where
  name_eq : column.name = raw.name
  typed : ∃ t, definition.columnType? raw.name = some t ∧ raw.value.Shows t column.value
  marked_iff : column.uniqueKey = true ↔ raw.name ∈ keys

/-- The operation of a kind of row. -/
def RowKind.operation : RowKind → Operation
  | .insert => .insert
  | .update => .update
  | .delete => .delete

namespace Row

variable (definition : TableDefinition) (row : Row)

/-- The columns that show a row as it was. An update without old keys shows the primary key of the
new row, a delete without them the whole row. -/
def oldImage : List RawColumn :=
  match row.kind with
  | .insert => []
  | .update =>
    if row.oldKeys = [] then row.columns.filter (·.name ∈ definition.primaryKey) else row.oldKeys
  | .delete => if row.oldKeys = [] then row.columns else row.oldKeys

/-- The columns that show a row as it is. -/
def newImage : List RawColumn :=
  match row.kind with
  | .insert | .update => row.columns
  | .delete => []

end Row

/-- A record is the one of a row of a defined table. -/
structure DataRecord.IsOf (definition : TableDefinition) (row : Row) (d : DataRecord) : Prop where
  table_eq : d.table = row.qualifiedName
  operation_eq : d.operation = row.kind.operation
  keys_eq : d.uniqueKeys =
    if row.oldKeys = [] then definition.primaryKey else row.oldKeys.map (·.name)
  before : List.Forall₂ (Column.IsOf definition d.uniqueKeys) (row.oldImage definition) d.before
  after : List.Forall₂ (Column.IsOf definition d.uniqueKeys) row.newImage d.after
  xid_eq : d.xid = row.xid
  csn_eq : d.csn = row.csn
  position_eq : d.position = row.position

namespace Converter

variable {c : Converter} {row : Row} {definition : TableDefinition} {table : String}
  {keys : List String} {raw : RawColumn} {raws : List RawColumn} {fault : FeedFault}

/-- A definition is the one of the table of a row: of its name with schema, or else of the one
without. -/
def Defines (c : Converter) (row : Row) (definition : TableDefinition) : Prop :=
  c.schema.table? row.qualifiedName = some definition ∨
    c.schema.table? row.qualifiedName = none ∧ c.schema.table? row.table = some definition

/-- A column has a fault: it has no type, or it shows what is no literal of its type. -/
inductive FailsFor (table : String) (definition : TableDefinition) (raw : RawColumn) :
    FeedFault → Prop
  | undefined (h : definition.columnType? raw.name = none) :
      FailsFor table definition raw (.metadataUnavailable table (some raw.name))
  | unreadable {t : ColumnType} {literal : String} {error : ValueError}
      (ht : definition.columnType? raw.name = some t) (hraw : raw.value = .text literal)
      (hread : Value.ofLiteral t literal = .error error) :
      FailsFor table definition raw (.conversion table raw.name error)

/-- The fault of the first of some columns that has one. -/
def FailsFirst (table : String) (definition : TableDefinition) (raws : List RawColumn)
    (fault : FeedFault) : Prop :=
  ∃ front raw back, raws = front ++ raw :: back ∧ (∀ r ∈ front, definition.Covers r) ∧
    FailsFor table definition raw fault

/-- Why a row is no record: its table has no definition, or one of its columns has a fault. The
columns of the new row come before the old keys. -/
inductive Refuses (c : Converter) (row : Row) : FeedFault → Prop
  | undefined (hqualified : c.schema.table? row.qualifiedName = none)
      (hbare : c.schema.table? row.table = none) :
      Refuses c row (.metadataUnavailable row.qualifiedName none)
  | column {definition : TableDefinition} {fault : FeedFault} (hdefines : c.Defines row definition)
      (h : FailsFirst row.qualifiedName definition (row.columns ++ row.oldKeys) fault) :
      Refuses c row fault

/-! ## Columns -/

/-- What a column shows is a value of its type. -/
theorem convert_value_eq_ok_iff {column : String} {t : ColumnType} {shown : RawValue}
    {value : Value} : convertValue table column t shown = .ok value ↔ shown.Shows t value := by
  constructor
  · intro h
    cases shown with
    | null => exact Except.ok.inj h ▸ .null
    | unchangedToast => exact Except.ok.inj h ▸ .unchanged
    | text literal =>
        have hread := Except.map_error_eq_ok.mp h
        exact .text hread (Value.has_type_of_literal hread)
  · intro h
    cases h with
    | null => rfl
    | unchanged => rfl
    | text hread _ => exact Except.map_error_eq_ok.mpr hread

/-- A column is typed exactly if its definition and what it shows allow it. -/
theorem convert_column_eq_ok_iff {column : Column} :
    convertColumn table definition keys raw = .ok column ↔ column.IsOf definition keys raw := by
  unfold convertColumn
  cases ht : definition.columnType? raw.name with
  | none =>
      constructor
      · exact nofun
      · rintro ⟨-, ⟨t, ht', -⟩, -⟩
        exact absurd (ht.symm.trans ht') nofun
  | some t =>
      constructor
      · intro h
        obtain ⟨value, hvalue, h⟩ := Except.bind_eq_ok.mp h
        obtain rfl := Except.pure_eq_ok.mp h
        exact ⟨rfl, ⟨t, ht, convert_value_eq_ok_iff.mp hvalue⟩, List.contains_iff_mem⟩
      · rintro ⟨hname, ⟨t', ht', hshows⟩, hmarked⟩
        obtain rfl := Option.some.inj (ht.symm.trans ht')
        refine Except.bind_eq_ok.mpr ⟨column.value, convert_value_eq_ok_iff.mpr hshows, ?_⟩
        obtain ⟨name, value, marked⟩ := column
        obtain rfl : name = raw.name := hname
        have hkeys : keys.contains raw.name = marked := by
          rw [Bool.eq_iff_iff, List.contains_iff_mem, hmarked]
        rw [hkeys]
        rfl

/-- A column that is not typed has a fault of its own. -/
theorem convert_column_eq_error_iff (keys : List String) :
    convertColumn table definition keys raw = .error fault ↔
      FailsFor table definition raw fault := by
  unfold convertColumn
  constructor
  · intro h
    cases ht : definition.columnType? raw.name with
    | none =>
        rw [ht] at h
        exact Except.error.inj h ▸ .undefined ht
    | some t =>
        rw [ht] at h
        have hvalue := Except.bind_pure_eq_error.mp h
        cases hraw : raw.value with
        | null => exact absurd (hraw ▸ hvalue) nofun
        | unchangedToast => exact absurd (hraw ▸ hvalue) nofun
        | text literal =>
            rw [hraw] at hvalue
            obtain ⟨error, hread, rfl⟩ := Except.map_error_eq_error.mp hvalue
            exact .unreadable ht hraw hread
  · intro h
    cases h with
    | undefined ht => rw [ht]
    | unreadable ht hraw hread =>
        rw [ht, hraw]
        refine Except.bind_pure_eq_error.mpr ?_
        exact Except.map_error_eq_error.mpr ⟨_, hread, rfl⟩

/-- The columns that a definition covers are those that are typed. -/
theorem covers_iff (table : String) (keys : List String) :
    definition.Covers raw ↔ ∃ column, convertColumn table definition keys raw = .ok column := by
  constructor
  · rintro ⟨t, ht, hread⟩
    cases hcolumn : convertColumn table definition keys raw with
    | ok column => exact ⟨column, rfl⟩
    | error fault =>
        cases (convert_column_eq_error_iff keys).mp hcolumn with
        | undefined hnone => exact absurd (ht.symm.trans hnone) nofun
        | unreadable ht' hraw herror =>
            obtain rfl := Option.some.inj (ht.symm.trans ht')
            obtain ⟨value, hvalue⟩ := hread _ hraw
            exact absurd (hvalue.symm.trans herror) nofun
  · rintro ⟨column, h⟩
    obtain ⟨-, ⟨t, ht, hshows⟩, -⟩ := convert_column_eq_ok_iff.mp h
    refine ⟨t, ht, fun literal hraw => ?_⟩
    rw [hraw] at hshows
    cases hshows with
    | text hread _ => exact ⟨_, hread⟩

/-- Columns are typed in one pass over them. -/
theorem convert_columns_eq (table : String) (definition : TableDefinition) (keys : List String)
    (raws : List RawColumn) :
    convertColumns table definition keys raws =
      raws.mapM (convertColumn table definition keys) := by
  induction raws with
  | nil => rfl
  | cons raw raws ih => rw [convertColumns, ih, List.mapM_cons]

/-- Columns are typed exactly if each of them is, in their order. -/
theorem convert_columns_eq_ok_iff {columns : List Column} :
    convertColumns table definition keys raws = .ok columns ↔
      List.Forall₂ (Column.IsOf definition keys) raws columns := by
  simp only [convert_columns_eq, Except.map_m_eq_ok_iff, convert_column_eq_ok_iff]

/-- Columns that are covered, each of them, are those that are typed. -/
theorem all_covered_iff (table : String) (keys : List String) :
    (∀ r ∈ raws, definition.Covers r) ↔
      ∃ columns, convertColumns table definition keys raws = .ok columns := by
  simp only [convert_columns_eq, Except.exists_map_m_iff, covers_iff table keys]

/-- Columns fail for the first of them that has a fault. -/
theorem convert_columns_eq_error_iff (keys : List String) :
    convertColumns table definition keys raws = .error fault ↔
      FailsFirst table definition raws fault := by
  simp only [convert_columns_eq, Except.map_m_eq_error_iff, ← covers_iff,
    convert_column_eq_error_iff, FailsFirst]

/-- The first fault of columns that are put together is one of the first of them, or of the others
behind columns that are all covered. -/
theorem fails_first_append {more : List RawColumn} :
    FailsFirst table definition (raws ++ more) fault ↔
      FailsFirst table definition raws fault ∨
        (∀ r ∈ raws, definition.Covers r) ∧ FailsFirst table definition more fault := by
  rw [all_covered_iff table [], ← convert_columns_eq_error_iff [],
    ← convert_columns_eq_error_iff [], ← convert_columns_eq_error_iff [], convert_columns_eq,
    List.mapM_append, Except.bind_eq_error]
  simp only [convert_columns_eq, Except.bind_pure_eq_error, exists_and_right]

/-- The marked ones of typed columns are the columns whose names identify the row. -/
theorem marked_columns {columns : List Column}
    (h : List.Forall₂ (Column.IsOf definition keys) raws columns) :
    List.Forall₂ (Column.IsOf definition keys) (raws.filter (·.name ∈ keys))
      (columns.filter (·.uniqueKey)) :=
  List.rel_filter (fun _ _ hcolumn => by simpa using hcolumn.marked_iff.symm) h

/-! ## Rows -/

/-- The definition that is looked up is the one of the table. -/
theorem definition_eq_some_iff :
    c.definition? row = some definition ↔ c.Defines row definition := by
  rw [definition?, Option.or_eq_some_iff, Defines]

/-- A table without a definition has none by either name. -/
theorem definition_eq_none_iff :
    c.definition? row = none ↔
      c.schema.table? row.qualifiedName = none ∧ c.schema.table? row.table = none := by
  rw [definition?, Option.or_eq_none_iff]

/-- The record of a row and its typed columns. -/
def recordOf (definition : TableDefinition) (row : Row) (columns oldKeys : List Column) :
    DataRecord where
  table := row.qualifiedName
  operation := row.kind.operation
  before :=
    match row.kind with
    | .insert => []
    | .update => if oldKeys.isEmpty then columns.filter (·.uniqueKey) else oldKeys
    | .delete => if oldKeys.isEmpty then columns else oldKeys
  after :=
    match row.kind with
    | .insert | .update => columns
    | .delete => []
  uniqueKeys := uniqueKeysOf definition row
  xid := row.xid
  csn := row.csn
  position := row.position

/-- The columns of a row are typed first, then its old keys. -/
theorem convert_row_eq (hdefines : c.Defines row definition) :
    c.convertRow row = (do
      let keys := uniqueKeysOf definition row
      let columns ← convertColumns row.qualifiedName definition keys row.columns
      let oldKeys ← convertColumns row.qualifiedName definition keys row.oldKeys
      return recordOf definition row columns oldKeys) := by
  rw [convertRow, definition_eq_some_iff.mpr hdefines]
  cases hkind : row.kind <;> simp [recordOf, hkind, RowKind.operation]

/-- What the record of a row and its typed columns holds. -/
theorem record_of_is_of {columns oldKeys : List Column}
    (hcolumns : List.Forall₂ (Column.IsOf definition (uniqueKeysOf definition row))
      row.columns columns)
    (holdKeys : List.Forall₂ (Column.IsOf definition (uniqueKeysOf definition row))
      row.oldKeys oldKeys) :
    (recordOf definition row columns oldKeys).IsOf definition row := by
  have hkeys : uniqueKeysOf definition row =
      if row.oldKeys = [] then definition.primaryKey else row.oldKeys.map (·.name) := by
    simp [uniqueKeysOf]
  -- The converter looks at the typed old keys, the record is described by those of the row.
  have hempty : oldKeys.isEmpty = true ↔ row.oldKeys = [] := by
    rw [List.isEmpty_iff_length_eq_zero, ← holdKeys.length_eq, List.length_eq_zero_iff]
  refine ⟨rfl, rfl, hkeys, ?_, ?_, rfl, rfl, rfl⟩
  · cases hkind : row.kind with
    | insert => simp [recordOf, Row.oldImage, hkind]
    | update =>
        by_cases hnone : row.oldKeys = []
        · have hprimary : uniqueKeysOf definition row = definition.primaryKey := by
            rw [hkeys, if_pos hnone]
          simpa [recordOf, Row.oldImage, hkind, hempty, hnone, hprimary] using
            marked_columns (hprimary ▸ hcolumns)
        · simpa [recordOf, Row.oldImage, hkind, hempty, hnone] using holdKeys
    | delete =>
        by_cases hnone : row.oldKeys = []
        · simpa [recordOf, Row.oldImage, hkind, hempty, hnone] using hcolumns
        · simpa [recordOf, Row.oldImage, hkind, hempty, hnone] using holdKeys
  · cases hkind : row.kind with
    | insert | update => simpa [recordOf, Row.newImage, hkind] using hcolumns
    | delete => simp [recordOf, Row.newImage, hkind]

/-- What the record of a row holds. -/
theorem convert_row_is_of {d : DataRecord} (hdefines : c.Defines row definition)
    (h : c.convertRow row = .ok d) : d.IsOf definition row := by
  rw [convert_row_eq hdefines] at h
  obtain ⟨columns, hcolumns, h⟩ := Except.bind_eq_ok.mp h
  obtain ⟨oldKeys, holdKeys, h⟩ := Except.bind_eq_ok.mp h
  obtain rfl := Except.pure_eq_ok.mp h
  rw [convert_columns_eq_ok_iff] at hcolumns holdKeys
  exact record_of_is_of hcolumns holdKeys

/-- A row of a defined table becomes a record exactly if all its columns are covered. -/
theorem convert_row_succeeds_iff (hdefines : c.Defines row definition) :
    (∃ d, c.convertRow row = .ok d) ↔
      ∀ raw ∈ row.columns ++ row.oldKeys, definition.Covers raw := by
  rw [convert_row_eq hdefines, List.forall_mem_append,
    all_covered_iff row.qualifiedName (uniqueKeysOf definition row),
    all_covered_iff row.qualifiedName (uniqueKeysOf definition row)]
  constructor
  · rintro ⟨d, h⟩
    obtain ⟨columns, hcolumns, h⟩ := Except.bind_eq_ok.mp h
    obtain ⟨oldKeys, holdKeys, -⟩ := Except.bind_eq_ok.mp h
    exact ⟨⟨columns, hcolumns⟩, oldKeys, holdKeys⟩
  · rintro ⟨⟨columns, hcolumns⟩, oldKeys, holdKeys⟩
    refine ⟨recordOf definition row columns oldKeys,
      Except.bind_eq_ok.mpr ⟨columns, hcolumns, ?_⟩⟩
    exact Except.bind_eq_ok.mpr ⟨oldKeys, holdKeys, rfl⟩

/-- A row of a defined table fails for the first of its columns that has a fault. -/
theorem convert_row_fails_iff (hdefines : c.Defines row definition) :
    c.convertRow row = .error fault ↔
      FailsFirst row.qualifiedName definition (row.columns ++ row.oldKeys) fault := by
  rw [convert_row_eq hdefines, fails_first_append,
    all_covered_iff row.qualifiedName (uniqueKeysOf definition row),
    ← convert_columns_eq_error_iff (uniqueKeysOf definition row),
    ← convert_columns_eq_error_iff (uniqueKeysOf definition row), Except.bind_eq_error]
  simp only [Except.bind_pure_eq_error, exists_and_right]

/-- A row is refused for its table, or else for the first of its columns that has a fault. -/
theorem convert_row_eq_error_iff : c.convertRow row = .error fault ↔ c.Refuses row fault := by
  constructor
  · intro h
    cases hdefinition : c.definition? row with
    | none =>
        rw [convertRow, hdefinition] at h
        obtain ⟨hqualified, hbare⟩ := definition_eq_none_iff.mp hdefinition
        exact Except.error.inj h ▸ .undefined hqualified hbare
    | some definition =>
        have hdefines := definition_eq_some_iff.mp hdefinition
        exact .column hdefines ((convert_row_fails_iff hdefines).mp h)
  · intro h
    cases h with
    | undefined hqualified hbare =>
        rw [convertRow, definition_eq_none_iff.mpr ⟨hqualified, hbare⟩]
    | column hdefines h => exact (convert_row_fails_iff hdefines).mpr h

/-- A row that becomes a record has a table that is defined. -/
theorem defined_of_convert_row {d : DataRecord} (h : c.convertRow row = .ok d) :
    ∃ definition, c.Defines row definition := by
  cases hdefinition : c.definition? row with
  | none =>
      rw [convertRow, hdefinition] at h
      exact absurd h nofun
  | some definition => exact ⟨definition, definition_eq_some_iff.mp hdefinition⟩

/-- A row of a followed table becomes a record exactly if its table is defined and all its columns
are covered. Otherwise it is refused for its table, or else for the first of its columns that has a
fault. The record holds all of the row, typed by the definition. -/
theorem convert_followed (htracked : c.isTracked row = true) :
    ((∃ d, c.convert (.row row) = .ok (.data d)) ↔ ∃ definition, c.Defines row definition ∧
      ∀ raw ∈ row.columns ++ row.oldKeys, definition.Covers raw) ∧
    (∀ fault, c.convert (.row row) = .error fault ↔ c.Refuses row fault) ∧
    ∀ record, c.convert (.row row) = .ok record →
      ∃ d definition, record = .data d ∧ c.Defines row definition ∧ d.IsOf definition row := by
  rw [convert, if_pos htracked]
  refine ⟨⟨?_, ?_⟩, fun fault => ?_, ?_⟩
  · rintro ⟨d, h⟩
    obtain ⟨d, hd, -⟩ := Except.map_eq_ok.mp h
    obtain ⟨definition, hdefines⟩ := defined_of_convert_row hd
    exact ⟨definition, hdefines, (convert_row_succeeds_iff hdefines).mp ⟨d, hd⟩⟩
  · rintro ⟨definition, hdefines, hcovers⟩
    obtain ⟨d, hd⟩ := (convert_row_succeeds_iff hdefines).mpr hcovers
    exact ⟨d, Except.map_eq_ok.mpr ⟨d, hd, rfl⟩⟩
  · rw [Except.map_eq_error, convert_row_eq_error_iff]
  · intro record h
    obtain ⟨d, hd, rfl⟩ := Except.map_eq_ok.mp h
    obtain ⟨definition, hdefines⟩ := defined_of_convert_row hd
    exact ⟨d, definition, rfl, hdefines, convert_row_is_of hdefines hd⟩

/-- A table that is defined under its name without schema. -/
def itemTable : TableDefinition :=
  ⟨"item", [⟨"id", .int32, false⟩, ⟨"sizes", .array .int16, true⟩, ⟨"note", .text, true⟩,
    ⟨"seen", .date, true⟩], ["id"]⟩

/-- An update without old keys of a row that shows a number, an array, a value that was not sent and
a missing one. -/
def itemUpdate : Row where
  position := ⟨0x100⟩
  kind := .update
  schema := "public"
  table := "item"
  columns := [⟨"sizes", "smallint[]", .text "{3,NULL,-4}"⟩, ⟨"id", "integer", .text "7"⟩,
    ⟨"note", "text", .unchangedToast⟩, ⟨"seen", "date", .null⟩]
  oldKeys := []
  xid := some 9
  csn := none

/-- The record of that update. -/
def itemRecord : DataRecord where
  table := "public.item"
  operation := .update
  before := [⟨"id", .int32 7, true⟩]
  after := [⟨"sizes", .array [.int16 3, .null, .int16 (-4)] .int16, false⟩,
    ⟨"id", .int32 7, true⟩, ⟨"note", .unchanged, false⟩, ⟨"seen", .null, false⟩]
  uniqueKeys := ["id"]
  xid := some 9
  csn := none
  position := ⟨0x100⟩

/-- A converter that follows the table under its name with schema. -/
def itemFeed : Converter :=
  ⟨⟨[itemTable]⟩, ["public.item"]⟩

/-- The update becomes the record. -/
theorem item_update_typed :
    itemFeed.isTracked itemUpdate = true ∧
      itemFeed.convert (.row itemUpdate) = .ok (.data itemRecord) ∧
      itemRecord.IsOf itemTable itemUpdate := by
  have htracked : itemFeed.isTracked itemUpdate = true := by decide
  have hconvert : itemFeed.convert (.row itemUpdate) = .ok (.data itemRecord) := rfl
  obtain ⟨-, -, hholds⟩ := convert_followed htracked
  obtain ⟨d, definition, hd, hdefines, hrecord⟩ := hholds _ hconvert
  obtain rfl : itemRecord = d := Record.data.inj hd
  obtain rfl : itemTable = definition :=
    Option.some.inj (definition_eq_some_iff.mpr hdefines)
  exact ⟨htracked, hconvert, hrecord⟩

end Converter

end ChangeFeed
