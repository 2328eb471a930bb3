import ChangeFeed.Calendar.Read
import ChangeFeed.Calendar.Write
import ChangeFeed.Json.Canonical
import ChangeFeed.Json.Shape
import ChangeFeed.Value.Basic

/-!
# Values as documents

A value is an object of its kind and, unless the kind says it all, its content.
-/

namespace ChangeFeed.Value

open Number (Binary Format)

/-- The names of the kinds, in order. -/
def kinds : List String :=
  ["null", "bool", "int16", "int32", "int64", "float32", "float64", "decimal", "char", "var_char",
    "text", "bytes", "date", "time", "local_date_time", "zoned_date_time", "uuid", "json",
    "jsonb", "array", "unchanged"]

/-- A kind without content. -/
def bareKind (kind : String) : Json :=
  .object [("kind", .text kind)]

/-- A kind with content. -/
def kindWith (kind : String) (content : Json) : Json :=
  .object [("kind", .text kind), ("value", content)]

mutual

/-- A value as a document. -/
def toJson : Value → Json
  | .null => bareKind "null"
  | .bool value => kindWith "bool" (.bool value)
  | .int16 value => kindWith "int16" (.integer value.toInt)
  | .int32 value => kindWith "int32" (.integer value.toInt)
  | .int64 value => kindWith "int64" (.integer value.toInt)
  | .float32 value => kindWith "float32" (.single value)
  | .float64 value => kindWith "float64" (.real value)
  | .decimal value precision scale =>
    kindWith "decimal" (.object [("value", .text value),
      ("precision", .integer precision.toNat), ("scale", .integer scale.toNat)])
  | .char value length =>
    kindWith "char" (.object [("value", .text value), ("length", .integer length.toNat)])
  | .varChar value length =>
    kindWith "var_char" (.object [("value", .text value), ("length", .integer length.toNat)])
  | .text value => kindWith "text" (.text value)
  | .bytes value => kindWith "bytes" (.list (value.map fun byte => .integer byte.toNat))
  | .date value => kindWith "date" (.text value.write)
  | .time value => kindWith "time" (.text value.write)
  | .localDateTime value => kindWith "local_date_time" (.text value.write)
  | .zonedDateTime value => kindWith "zoned_date_time" (.text value.write)
  | .uuid value => kindWith "uuid" (.text value.write)
  | .json value => kindWith "json" value
  | .jsonb value => kindWith "jsonb" value
  | .array elements element =>
    kindWith "array" (.object [("elements", .list (toJsonList elements)),
      ("element_type", element.toJson)])
  | .unchanged => bareKind "unchanged"

/-- Values as documents. -/
def toJsonList : List Value → List Json
  | [] => []
  | value :: rest => toJson value :: toJsonList rest

end

/-- A kind that has no content, or `null` for it. -/
def withoutContent (value : Value) : Option Json → Option Value
  | none => some value
  | some .null => some value
  | some _ => none

/-- The fields of a content that only an object can be. -/
def contentMembers (names : List String) : Json → Option (List (Option Json))
  | .object fields => Json.members (names.map fun name => (name, .required)) (.object fields)
  | _ => none

/-- The text that a document holds, read further. -/
def textual {α : Type} (read : List Char → Option α) (content : Json) : Option α :=
  content.toText?.bind fun text => read text.toList

/-- A number of single precision; integers are rounded once. -/
def singleOf : Json → Option (Binary Format.single)
  | .integer n => some (Binary.ofQuotient Format.single (n < 0) n.natAbs 1)
  | .real x => some (x.convert Format.single)
  | _ => none

/-- The value of a kind with content, its elements being read by `element`. -/
def ofContent (element : Json → Option Value) (kind : String) (nested : Bool) (content : Json) :
    Option Value :=
  match kind with
  | "bool" => content.toBool?.map .bool
  | "int16" =>
    (content.toInteger? (-Nat.pow 2 15) (Nat.pow 2 15 - 1)).map fun n => .int16 (Int16.ofInt n)
  | "int32" =>
    (content.toInteger? (-Nat.pow 2 31) (Nat.pow 2 31 - 1)).map fun n => .int32 (Int32.ofInt n)
  | "int64" =>
    (content.toInteger? (-Nat.pow 2 63) (Nat.pow 2 63 - 1)).map fun n => .int64 (Int64.ofInt n)
  | "float32" => (singleOf content).map .float32
  | "float64" => content.toReal?.map .float64
  | "decimal" => do
    let [some value, some precision, some scale] ←
      contentMembers ["value", "precision", "scale"] content | none
    return .decimal (← value.toText?) (← ColumnType.byteOf precision) (← ColumnType.byteOf scale)
  | "char" => do
    let [some value, some length] ← contentMembers ["value", "length"] content | none
    return .char (← value.toText?) (← ColumnType.lengthOf length)
  | "var_char" => do
    let [some value, some length] ← contentMembers ["value", "length"] content | none
    return .varChar (← value.toText?) (← ColumnType.lengthOf length)
  | "text" => content.toText?.map .text
  | "bytes" => (content.toListOf? ColumnType.byteOf).map .bytes
  | "date" => (textual Calendar.readStoredDate content).map .date
  | "time" => (textual Calendar.readStoredTime content).map .time
  | "local_date_time" => (textual Calendar.readStoredDateTime content).map .localDateTime
  | "zoned_date_time" => (textual Calendar.readStoredInstant content).map .zonedDateTime
  | "uuid" => (textual Uuid.read content).map .uuid
  | "json" => content.canonical?.map .json
  | "jsonb" => content.canonical?.map .jsonb
  | "array" => do
    let [some elements, some elementType] ←
      contentMembers ["elements", "element_type"] content | none
    return .array (← elements.toListOf? element) (← ColumnType.ofJson? nested elementType)
  | _ => none

/-- The value that a document holds, where at most `fuel` values are nested. -/
def ofJsonWithin : Nat → Bool → Json → Option Value
  | 0, _, _ => none
  | fuel + 1, nested, document => do
    let (kind, content, nested) ← Json.labelled "kind" "value" kinds nested document
    match kind, content with
    | "null", content => withoutContent .null content
    | "unchanged", content => withoutContent .unchanged content
    | kind, some content => ofContent (ofJsonWithin fuel nested) kind nested content
    | _, none => none

/-- The value that a document holds; documents nest less deeply than the limit. -/
def ofJson? (nested : Bool) (document : Json) : Option Value :=
  ofJsonWithin (Json.depthLimit + 1) nested document

end ChangeFeed.Value
