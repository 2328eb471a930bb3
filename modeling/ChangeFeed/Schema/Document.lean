import ChangeFeed.Failure
import ChangeFeed.Json.Read
import ChangeFeed.Schema.Basic

/-!
# Table definitions as documents
-/

namespace ChangeFeed

namespace ColumnDefinition

/-- A column definition as a document. -/
def toJson (c : ColumnDefinition) : Json :=
  .object [("name", .text c.name), ("type", c.type.toJson), ("nullable", .bool c.nullable)]

/-- The column definition that a document holds. -/
def ofJson? (json : Json) : Option ColumnDefinition := do
  let [some name, some type, nullable] ← Json.members
    [("name", .required), ("type", .required), ("nullable", .defaulted)] json | none
  return {
    name := ← name.toText?
    type := ← ColumnType.ofJson? false type
    nullable := ← (nullable.getD (.bool false)).toBool? }

end ColumnDefinition

namespace TableDefinition

/-- A table definition as a document. -/
def toJson (t : TableDefinition) : Json :=
  .object [("name", .text t.name), ("columns", .list (t.columns.map ColumnDefinition.toJson)),
    ("primary_key", .list (t.primaryKey.map .text))]

/-- The table definition that a document holds. -/
def ofJson? (json : Json) : Option TableDefinition := do
  let [some name, some columns, primaryKey] ← Json.members
    [("name", .required), ("columns", .required), ("primary_key", .defaulted)] json | none
  return {
    name := ← name.toText?
    columns := ← columns.toListOf? ColumnDefinition.ofJson?
    primaryKey := ← (primaryKey.getD (.list [])).toListOf? Json.toText? }

end TableDefinition

/-- Why a schema file gives no schema. -/
inductive SchemaFileFault where
  | file (fault : FileFault)
  | document
  deriving DecidableEq, Repr

/-- The wording of a schema file fault. -/
def SchemaFileFault.message : SchemaFileFault → String
  | .file fault => "Failed to read schema file: " ++ (Cause.file fault).shown
  | .document => "Failed to parse schema: <lib>"

/-- A schema file fault as a failure. -/
def SchemaFileFault.failure (fault : SchemaFileFault) : Failure :=
  match fault with
  | .file reason => ⟨[.message fault.message, .file reason]⟩
  | .document => ⟨[.message fault.message, .document]⟩

namespace Schema

/-- A schema as a document. -/
def toJson (s : Schema) : Json :=
  .object [("tables", .list (s.tables.map TableDefinition.toJson))]

/-- The schema that a document holds. -/
def ofJson? (json : Json) : Option Schema := do
  let [some tables] ← Json.members [("tables", .required)] json | none
  return ⟨← tables.toListOf? TableDefinition.ofJson?⟩

/-- The schema in a file, given what reading the file gave. -/
def ofFile (content : Except FileFault String) : Except SchemaFileFault Schema :=
  match content with
  | .error fault => .error (.file fault)
  | .ok text =>
    match (Json.read text).bind ofJson? with
    | some schema => .ok schema
    | none => .error .document

end Schema

end ChangeFeed
