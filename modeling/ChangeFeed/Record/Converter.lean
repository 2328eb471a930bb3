import ChangeFeed.Feed.Fault
import ChangeFeed.Record.Basic
import ChangeFeed.Schema.Basic

/-!
# From events to records

A converter types the columns of a row by the definition of its table. A table or a column without
a definition is a fault, never left out. Rows of tables outside the filter become marks of
progress.
-/

namespace ChangeFeed

/-- The definitions of tables and the tables to follow; an empty list follows all. -/
structure Converter where
  schema : Schema
  tables : List String

namespace Converter

/-- Whether rows of a row's table are followed; the filter may name it with or without schema. -/
def isTracked (c : Converter) (row : Row) : Bool :=
  c.tables.isEmpty || c.tables.contains row.table || c.tables.contains row.qualifiedName

/-- The definition of a row's table, by its name with schema or else without. -/
def definition? (c : Converter) (row : Row) : Option TableDefinition :=
  (c.schema.table? row.qualifiedName).or (c.schema.table? row.table)

/-- The value of a column of a given type. -/
def convertValue (table column : String) (t : ColumnType) : RawValue → Except FeedFault Value
  | .null => .ok .null
  | .unchangedToast => .ok .unchanged
  | .text literal => (Value.ofLiteral t literal).mapError (.conversion table column)

/-- A column of a row. -/
def convertColumn (table : String) (definition : TableDefinition) (uniqueKeys : List String)
    (raw : RawColumn) : Except FeedFault Column :=
  match definition.columnType? raw.name with
  | none => .error (.metadataUnavailable table (some raw.name))
  | some t => do
    let value ← convertValue table raw.name t raw.value
    return ⟨raw.name, value, uniqueKeys.contains raw.name⟩

/-- The columns of a row, up to the first fault. -/
def convertColumns (table : String) (definition : TableDefinition) (uniqueKeys : List String) :
    List RawColumn → Except FeedFault (List Column)
  | [] => .ok []
  | raw :: rest => do
    let column ← convertColumn table definition uniqueKeys raw
    let columns ← convertColumns table definition uniqueKeys rest
    return column :: columns

/-- The names that identify a row: its old keys, or else the primary key. -/
def uniqueKeysOf (definition : TableDefinition) (row : Row) : List String :=
  if row.oldKeys.isEmpty then definition.primaryKey else row.oldKeys.map (·.name)

/-- The record of a row of a followed table. -/
def convertRow (c : Converter) (row : Row) : Except FeedFault DataRecord :=
  match c.definition? row with
  | none => .error (.metadataUnavailable row.qualifiedName none)
  | some definition => do
    let table := row.qualifiedName
    let uniqueKeys := uniqueKeysOf definition row
    let columns ← convertColumns table definition uniqueKeys row.columns
    let oldKeys ← convertColumns table definition uniqueKeys row.oldKeys
    let (operation, before, after) : Operation × List Column × List Column :=
      match row.kind with
      | .insert => (.insert, [], columns)
      | .update =>
        (.update, if oldKeys.isEmpty then columns.filter (·.uniqueKey) else oldKeys, columns)
      | .delete => (.delete, if oldKeys.isEmpty then columns else oldKeys, [])
    return ⟨table, operation, before, after, uniqueKeys, row.xid, row.csn, row.position⟩

/-- The record of an event. -/
def convert (c : Converter) : Event → Except FeedFault Record
  | .row row =>
    if c.isTracked row then (c.convertRow row).map .data else .ok (.placeholder row.position)
  | .begin position xid csn => .ok (.transaction ⟨xid, csn, none, position⟩)
  | .commit position xid csn time => .ok (.transaction ⟨xid, csn, time, position⟩)
  | .placeholder position => .ok (.placeholder position)

/-- The records of events, up to the first fault. -/
def convertAll (c : Converter) : List Event → Except FeedFault (List Record)
  | [] => .ok []
  | event :: rest => do
    let record ← c.convert event
    let records ← convertAll c rest
    return record :: records

end Converter

end ChangeFeed
