import ChangeFeed.Event.Document
import ChangeFeed.Record.Basic
import ChangeFeed.Value.Document

/-!
# Records as documents
-/

namespace ChangeFeed

namespace Column

/-- A column as a document. -/
def toJson (c : Column) : Json :=
  .object [("name", .text c.name), ("value", c.value.toJson), ("unique_key", .bool c.uniqueKey)]

/-- The column that a part of a record document holds. -/
def ofJson? (json : Json) : Option Column := do
  let [some name, some value, some uniqueKey] ← Json.members
    [("name", .required), ("value", .required), ("unique_key", .required)] json | none
  return ⟨← name.toText?, ← Value.ofJson? true value, ← uniqueKey.toBool?⟩

end Column

namespace DataRecord

/-- The fields of a data record. -/
def fields (r : DataRecord) : List (String × Json) :=
  [("table", .text r.table), ("op", .text r.operation.name),
    ("before", .list (r.before.map Column.toJson)), ("after", .list (r.after.map Column.toJson)),
    ("unique_keys", .list (r.uniqueKeys.map .text)), ("xid", Json.ofOptional wordJson r.xid),
    ("csn", Json.ofOptional wordJson r.csn), ("position", r.position.toJson)]

/-- The data record of its fields. -/
def ofJson? (json : Json) : Option DataRecord := do
  let [some table, some operation, some before, some after, some uniqueKeys, some xid, some csn,
      some position] ← Json.members
    [("table", .required), ("op", .required), ("before", .required), ("after", .required),
      ("unique_keys", .required), ("xid", .optional), ("csn", .optional),
      ("position", .required)] json | none
  return {
    table := ← table.toText?
    operation := ← Operation.ofJson? operation
    before := ← before.toListOf? Column.ofJson?
    after := ← after.toListOf? Column.ofJson?
    uniqueKeys := ← uniqueKeys.toListOf? Json.toText?
    xid := ← xid.toOptional? wordOf
    csn := ← csn.toOptional? wordOf
    position := ← Position.ofJson? position }

end DataRecord

namespace TransactionRecord

/-- The fields of a transaction record. -/
def fields (r : TransactionRecord) : List (String × Json) :=
  [("xid", Json.ofOptional wordJson r.xid), ("csn", Json.ofOptional wordJson r.csn),
    ("commit_time", Json.ofOptional (fun t => .text t.write) r.commitTime),
    ("position", r.position.toJson)]

/-- The transaction record of its fields. -/
def ofJson? (json : Json) : Option TransactionRecord := do
  let [some xid, some csn, some commitTime, some position] ← Json.members
    [("xid", .optional), ("csn", .optional), ("commit_time", .optional),
      ("position", .required)] json | none
  return {
    xid := ← xid.toOptional? wordOf
    csn := ← csn.toOptional? wordOf
    commitTime := ← commitTime.toOptional? instantOf
    position := ← Position.ofJson? position }

end TransactionRecord

namespace Record

/-- A record as a document. -/
def toJson : Record → Json
  | .data r => .object (("type", .text "data") :: r.fields)
  | .transaction r => .object (("type", .text "transaction") :: r.fields)
  | .placeholder p => .object [("type", .text "placeholder"), ("position", p.toJson)]

/-- The record that a document holds. -/
def ofJson? (json : Json) : Option Record := do
  let (kind, body) ← Json.tagged "type" ["data", "transaction", "placeholder"] false json
  match kind with
  | "data" => return .data (← DataRecord.ofJson? body)
  | "transaction" => return .transaction (← TransactionRecord.ofJson? body)
  | "placeholder" =>
    let [some position] ← Json.members [("position", .required)] body | none
    return .placeholder (← Position.ofJson? position)
  | _ => none

end Record

end ChangeFeed
