import ChangeFeed.Plugin.Basic
import ChangeFeed.Proofs.Plugin.Position
import ChangeFeed.Proofs.Record.Conversion
import ChangeFeed.Proofs.Text.Utf8

/-!
# What identifies a changed row

The record of an update or a delete names the columns that identify the row. It also shows them if
the message gave old keys; if it gave none, it shows those columns of the primary key that the
message shows, and there may be some missing (`Converter.identifies_iff`). Without old keys the two
are found apart: the names in the definition of the table, the columns in the message. A deleted row
has no old keys in line form (`LineForm.no_old_keys_of_delete`).
-/

namespace ChangeFeed

/-- The row as it was shows every column that is said to identify it. -/
def DataRecord.Identifies (d : DataRecord) : Prop :=
  ∀ name ∈ d.uniqueKeys, ∃ column ∈ d.before, column.name = name

namespace Row

/-- The names that identify a row: those of its old keys, or else those of the primary key. -/
def identity (definition : TableDefinition) (row : Row) : List String :=
  if row.oldKeys = [] then definition.primaryKey else row.oldKeys.map (·.name)

/-- The message of a row shows a column of a name. -/
def Shows (row : Row) (name : String) : Prop :=
  ∃ raw ∈ row.columns, raw.name = name

variable {definition : TableDefinition} {row : Row} {name : String}

/-- Without old keys, the row as it was shows a column of the primary key if its message does. -/
theorem shows_key_iff (hkind : row.kind ≠ .insert) (hnone : row.oldKeys = [])
    (hname : name ∈ definition.primaryKey) :
    (∃ raw ∈ row.oldImage definition, raw.name = name) ↔ row.Shows name := by
  cases hrow : row.kind with
  | insert => exact absurd hrow hkind
  | delete => simp [oldImage, Shows, hrow, hnone]
  | update =>
      -- Of a new row only the columns of the primary key are kept.
      have himage : row.oldImage definition =
          row.columns.filter (·.name ∈ definition.primaryKey) := by
        simp [oldImage, hrow, hnone]
      rw [himage]
      constructor
      · rintro ⟨raw, hraw, heq⟩
        exact ⟨raw, (List.mem_filter.mp hraw).1, heq⟩
      · rintro ⟨raw, hraw, rfl⟩
        exact ⟨raw, List.mem_filter.mpr ⟨hraw, by simpa using hname⟩, rfl⟩

/-- An update or a delete shows a column that identifies the row if it gives old keys, or else if
the column is among those of its message. -/
theorem shows_identity_iff (hkind : row.kind ≠ .insert) (hname : name ∈ row.identity definition) :
    (∃ raw ∈ row.oldImage definition, raw.name = name) ↔
      row.oldKeys ≠ [] ∨ row.Shows name := by
  by_cases hnone : row.oldKeys = []
  · have hprimary : name ∈ definition.primaryKey := by simpa [identity, hnone] using hname
    rw [shows_key_iff hkind hnone hprimary]
    simp [hnone]
  · have hold : ∃ raw ∈ row.oldKeys, raw.name = name := by
      simpa [identity, hnone] using hname
    have himage : row.oldImage definition = row.oldKeys := by
      cases hrow : row.kind with
      | insert => exact absurd hrow hkind
      | delete | update => simp [oldImage, hrow, hnone]
    rw [himage]
    exact iff_of_true hold (.inl hnone)

end Row

namespace Plugin.LineForm

variable {position : Position} {row : Row}

/-- A line that tells of a deleted row gives no old keys. -/
theorem no_old_keys_of_delete {bytes : List UInt8}
    (h : Plugin.testDecoding.decode position bytes = .ok (.row row))
    (hkind : row.kind = .delete) : row.oldKeys = [] := by
  unfold decode at h
  split at h
  · exact absurd h (by simp)
  cases tells_of_read h with
  | table htells =>
      cases htells with
      | change kind hkeys =>
          obtain rfl : kind = .delete := hkind
          exact hkeys.resolve_left nofun

end Plugin.LineForm

namespace Converter

variable {c : Converter} {plugin : Plugin} {position : Position} {bytes : List UInt8} {row : Row}
  {definition : TableDefinition} {d : DataRecord}

/-- Typed columns have the names of the columns that they are typed from. -/
theorem exists_name_iff {keys : List String} {raws : List RawColumn} {columns : List Column}
    (h : List.Forall₂ (Column.IsOf definition keys) raws columns) (name : String) :
    (∃ column ∈ columns, column.name = name) ↔ ∃ raw ∈ raws, raw.name = name := by
  constructor
  · rintro ⟨column, hcolumn, rfl⟩
    obtain ⟨raw, hraw, hof⟩ := h.exists_of_mem_right hcolumn
    exact ⟨raw, hraw, hof.name_eq.symm⟩
  · rintro ⟨raw, hraw, rfl⟩
    obtain ⟨column, hcolumn, hof⟩ := h.exists_of_mem_left hraw
    exact ⟨column, hcolumn, hof.name_eq⟩

/-- The record of an update or a delete shows all columns that it says identify the row exactly if
the message gives old keys or shows every column of the primary key. -/
theorem identifies_row_iff (hdefines : c.Defines row definition) (hkind : row.kind ≠ .insert)
    (hconvert : c.convertRow row = .ok d) :
    d.Identifies ↔ row.oldKeys ≠ [] ∨ ∀ name ∈ definition.primaryKey, row.Shows name := by
  have hrecord := convert_row_is_of hdefines hconvert
  have hkeys : d.uniqueKeys = row.identity definition := hrecord.keys_eq
  have hshows (name : String) (hname : name ∈ row.identity definition) :
      (∃ column ∈ d.before, column.name = name) ↔ row.oldKeys ≠ [] ∨ row.Shows name := by
    rw [exists_name_iff hrecord.before name]
    exact Row.shows_identity_iff hkind hname
  rw [DataRecord.Identifies, hkeys]
  by_cases hnone : row.oldKeys = []
  · have hidentity : row.identity definition = definition.primaryKey := if_pos hnone
    rw [hidentity] at hshows ⊢
    simp only [ne_eq, hnone, not_true_eq_false, false_or] at hshows ⊢
    exact forall₂_congr hshows
  · exact iff_of_true (fun name hname => (hshows name hname).mpr (.inl hnone)) (.inl hnone)

/-- For every message of an update or a delete that becomes a record: the record shows all columns
that it says identify the row exactly if the message gives old keys, or shows every column of the
primary key. A delete in line form has no old keys, so it has to show the whole primary key. -/
theorem identifies_iff (hdecode : plugin.decode position bytes = .ok (.row row))
    (hdefines : c.Defines row definition) (hkind : row.kind ≠ .insert)
    (hconvert : c.convert (.row row) = .ok (.data d)) :
    (d.Identifies ↔ row.oldKeys ≠ [] ∨ ∀ name ∈ definition.primaryKey, row.Shows name) ∧
      (plugin = .testDecoding → row.kind = .delete →
        (d.Identifies ↔ ∀ name ∈ definition.primaryKey, row.Shows name)) := by
  rcases convert_row_cases hconvert with ⟨d', hrow, hsame⟩ | hplace
  · obtain rfl : d = d' := Record.data.inj hsame
    have hidentifies := identifies_row_iff hdefines hkind hrow
    refine ⟨hidentifies, ?_⟩
    rintro rfl hdelete
    have hnone := Plugin.LineForm.no_old_keys_of_delete hdecode hdelete
    rw [hidentifies]
    simp [hnone]
  · exact absurd hplace nofun

/-- A table with a primary key and another column that tells its rows apart. -/
def partTable : TableDefinition :=
  ⟨"public.part", [⟨"id", .int32, false⟩, ⟨"code", .text, false⟩], ["id"]⟩

/-- A converter that follows all tables and knows that one. -/
def partFeed : Converter :=
  ⟨⟨[partTable]⟩, []⟩

/-- A row of that table at some position. -/
def partRow (kind : RowKind) (columns oldKeys : List RawColumn) : Row :=
  ⟨⟨0x10⟩, kind, "public", "part", columns, oldKeys, none, none⟩

/-- A line is decoded as a row. -/
def DecodesTo (line : String) (row : Row) : Prop :=
  Plugin.testDecoding.decode row.position (Text.toUtf8 line.toList) = .ok (.row row)

/-- The record of a deleted row of that table. -/
def partRecord (before : List Column) : DataRecord :=
  ⟨"public.part", .delete, before, [], ["id"], none, none, ⟨0x10⟩⟩

/-- A delete that shows the primary key behind another column identifies its row. -/
theorem identifies_shown_key :
    let row := partRow .delete [⟨"code", "text", .null⟩, ⟨"id", "integer", .text "7"⟩] []
    let d := partRecord [⟨"code", .null, false⟩, ⟨"id", .int32 7, true⟩]
    DecodesTo "table public.part: DELETE: code[text]:null id[integer]:7" row ∧
      partFeed.Defines row partTable ∧ row.kind ≠ .insert ∧
      partFeed.convert (.row row) = .ok (.data d) ∧ d.Identifies := by
  intro row d
  have hdecode : DecodesTo "table public.part: DELETE: code[text]:null id[integer]:7" row := by
    rw [DecodesTo, Plugin.decode, Text.of_utf8_to_utf8]
    decide +kernel
  have hdefines : partFeed.Defines row partTable := .inl rfl
  have hconvert : partFeed.convert (.row row) = .ok (.data d) := rfl
  have hidentifies := (identifies_iff hdecode hdefines nofun hconvert).2 rfl rfl
  have hshown : ∀ name ∈ partTable.primaryKey, row.Shows name := by
    simp [partTable, Row.Shows, row, partRow]
  exact ⟨hdecode, hdefines, nofun, hconvert, hidentifies.mpr hshown⟩

/-- A line tells of a row of that table, which is tracked, and the record of the row does not show
all columns that it says identify the row. -/
structure LeavesUnidentified (line : String) (row : Row) (d : DataRecord) : Prop where
  decodes : DecodesTo line row
  tracked : partFeed.isTracked row = true
  defined : partFeed.Defines row partTable
  converts : partFeed.convert (.row row) = .ok (.data d)
  unidentified : ¬d.Identifies

/-- A delete that shows another column than the primary key, and one that shows no column at all:
both become records that name the primary key and do not show it. -/
theorem deletes_without_key :
    partTable.primaryKey = ["id"] ∧
    LeavesUnidentified "table public.part: DELETE: code[text]:'A-7'"
      (partRow .delete [⟨"code", "text", .text "A-7"⟩] [])
      (partRecord [⟨"code", .text "A-7", false⟩]) ∧
    LeavesUnidentified "table public.part: DELETE: (no-tuple-data)" (partRow .delete [] [])
      (partRecord []) := by
  have hother {before : List Column} (hbefore : ∀ column ∈ before, column.name ≠ "id") :
      ¬(partRecord before).Identifies := by
    intro hidentifies
    obtain ⟨column, hcolumn, hname⟩ := hidentifies "id" (by simp [partRecord])
    exact hbefore column hcolumn hname
  refine ⟨rfl, ⟨?_, rfl, .inl rfl, rfl, hother (by simp)⟩,
    ⟨?_, rfl, .inl rfl, rfl, hother (by simp)⟩⟩
  · rw [DecodesTo, Plugin.decode, Text.of_utf8_to_utf8]
    decide +kernel
  · rw [DecodesTo, Plugin.decode, Text.of_utf8_to_utf8]
    decide +kernel

end Converter

end ChangeFeed
