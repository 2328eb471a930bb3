import ChangeFeed.Calendar.Read
import ChangeFeed.Calendar.Write
import ChangeFeed.Event.Basic

/-!
# Events as documents

An event is an object with one field, named for its kind.
-/

namespace ChangeFeed

/-- A number of 64 bits. -/
def wordJson (n : UInt64) : Json :=
  .integer n.toNat

/-- The number of 64 bits that a document holds. -/
def wordOf (json : Json) : Option UInt64 :=
  (json.toNatBelow? (Nat.pow 2 64)).map UInt64.ofNat

/-- The moment that a document holds. -/
def instantOf (json : Json) : Option Calendar.Instant :=
  json.toText?.bind fun text => Calendar.readStoredInstant text.toList

namespace RawValue

/-- A raw value as a document. -/
def toJson : RawValue → Json
  | .null => .text "Null"
  | .unchangedToast => .text "UnchangedToast"
  | .text value => .object [("Text", .text value)]

/-- The raw value that a document holds. -/
def ofJson? (json : Json) : Option RawValue :=
  match Json.named ["Null", "Text", "UnchangedToast"] json with
  | some ("Text", some content) => content.toText?.map .text
  | some ("Null", none) => some .null
  | some ("Null", some .null) => some .null
  | some ("UnchangedToast", none) => some .unchangedToast
  | some ("UnchangedToast", some .null) => some .unchangedToast
  | _ => none

end RawValue

namespace RawColumn

/-- A raw column as a document. -/
def toJson (c : RawColumn) : Json :=
  .object [("name", .text c.name), ("type_name", .text c.typeName), ("value", c.value.toJson)]

/-- The raw column that a document holds. -/
def ofJson? (json : Json) : Option RawColumn := do
  let [some name, some typeName, some value] ← Json.members
    [("name", .required), ("type_name", .required), ("value", .required)] json | none
  return ⟨← name.toText?, ← typeName.toText?, ← RawValue.ofJson? value⟩

end RawColumn

namespace Row

/-- A row as a document. -/
def toJson (r : Row) : Json :=
  .object [("position", r.position.toJson), ("kind", .text r.kind.name),
    ("schema", .text r.schema), ("table", .text r.table),
    ("columns", .list (r.columns.map RawColumn.toJson)),
    ("old_keys", .list (r.oldKeys.map RawColumn.toJson)),
    ("xid", Json.ofOptional wordJson r.xid), ("csn", Json.ofOptional wordJson r.csn)]

/-- The row that a document holds. -/
def ofJson? (json : Json) : Option Row := do
  let [some position, some kind, some schema, some table, some columns, some oldKeys, some xid,
      some csn] ← Json.members
    [("position", .required), ("kind", .required), ("schema", .required), ("table", .required),
      ("columns", .required), ("old_keys", .required), ("xid", .optional), ("csn", .optional)]
    json | none
  let kind ← Json.nameOf ["INSERT", "UPDATE", "DELETE"] kind
  return {
    position := ← Position.ofJson? position
    kind := ← RowKind.ofName? kind
    schema := ← schema.toText?
    table := ← table.toText?
    columns := ← columns.toListOf? RawColumn.ofJson?
    oldKeys := ← oldKeys.toListOf? RawColumn.ofJson?
    xid := ← xid.toOptional? wordOf
    csn := ← csn.toOptional? wordOf }

end Row

namespace Event

/-- An event as a document. -/
def toJson : Event → Json
  | .begin position xid csn =>
    .object [("Begin", .object [("position", position.toJson),
      ("xid", Json.ofOptional wordJson xid), ("csn", Json.ofOptional wordJson csn)])]
  | .commit position xid csn time =>
    .object [("Commit", .object [("position", position.toJson),
      ("xid", Json.ofOptional wordJson xid), ("csn", Json.ofOptional wordJson csn),
      ("commit_time", Json.ofOptional (fun t => .text t.write) time)])]
  | .row r => .object [("Row", r.toJson)]
  | .placeholder position =>
    .object [("Placeholder", .object [("position", position.toJson)])]

/-- The event that a document holds. -/
def ofJson? (json : Json) : Option Event := do
  let (kind, some content) ← Json.named ["Begin", "Commit", "Row", "Placeholder"] json | none
  match kind with
  | "Begin" =>
    let [some position, some xid, some csn] ← Json.members
      [("position", .required), ("xid", .optional), ("csn", .optional)] content | none
    return .begin (← Position.ofJson? position) (← xid.toOptional? wordOf)
      (← csn.toOptional? wordOf)
  | "Commit" =>
    let [some position, some xid, some csn, some time] ← Json.members
      [("position", .required), ("xid", .optional), ("csn", .optional),
        ("commit_time", .optional)] content | none
    return .commit (← Position.ofJson? position) (← xid.toOptional? wordOf)
      (← csn.toOptional? wordOf) (← time.toOptional? instantOf)
  | "Row" => return .row (← Row.ofJson? content)
  | "Placeholder" =>
    let [some position] ← Json.members [("position", .required)] content | none
    return .placeholder (← Position.ofJson? position)
  | _ => none

end Event

end ChangeFeed
