import ChangeFeed.Json.Shape
import ChangeFeed.Number.Integer

/-!
# Column types

The types that columns have, whatever name a database gives them. Lengths and precisions are
bounded by the width of the fields that hold them.
-/

namespace ChangeFeed

/-- The type of a column. -/
inductive ColumnType where
  | bool
  | int16
  | int32
  | int64
  | float32
  | float64
  | decimal (precision scale : UInt8)
  | char (length : UInt16)
  | varChar (length : UInt16)
  | text
  | bytes
  | date
  | time
  | localDateTime
  | zonedDateTime
  | uuid
  | json
  | jsonb
  | array (element : ColumnType)
  deriving DecidableEq, Inhabited

namespace ColumnType

/-- The name of a type in messages. -/
def describe : ColumnType → String
  | .bool => "bool"
  | .int16 => "small_int"
  | .int32 => "int"
  | .int64 => "big_int"
  | .float32 => "float"
  | .float64 => "double"
  | .decimal precision scale =>
    "decimal(" ++ Number.decimal precision.toNat ++ "," ++ Number.decimal scale.toNat ++ ")"
  | .char length => "char(" ++ Number.decimal length.toNat ++ ")"
  | .varChar length => "var_char(" ++ Number.decimal length.toNat ++ ")"
  | .text => "text"
  | .bytes => "bytes"
  | .date => "date"
  | .time => "time"
  | .localDateTime => "local_date_time"
  | .zonedDateTime => "zoned_date_time"
  | .uuid => "uuid"
  | .json => "json"
  | .jsonb => "jsonb"
  | .array element => "array<" ++ element.describe ++ ">"

/-- The names that documents give to types, in order. -/
def tags : List String :=
  ["bool", "int16", "int32", "int64", "float32", "float64", "decimal", "char", "var_char", "text",
    "bytes", "date", "time", "local_date_time", "zoned_date_time", "uuid", "json", "jsonb",
    "array"]

/-- The name that documents give to a type. -/
def tag : ColumnType → String
  | .bool => "bool"
  | .int16 => "int16"
  | .int32 => "int32"
  | .int64 => "int64"
  | .float32 => "float32"
  | .float64 => "float64"
  | .decimal _ _ => "decimal"
  | .char _ => "char"
  | .varChar _ => "var_char"
  | .text => "text"
  | .bytes => "bytes"
  | .date => "date"
  | .time => "time"
  | .localDateTime => "local_date_time"
  | .zonedDateTime => "zoned_date_time"
  | .uuid => "uuid"
  | .json => "json"
  | .jsonb => "jsonb"
  | .array _ => "array"

/-- A type as a document. -/
def toJson : ColumnType → Json
  | .decimal precision scale =>
    .object [("type", .text "decimal"), ("precision", .integer precision.toNat),
      ("scale", .integer scale.toNat)]
  | .char length => .object [("type", .text "char"), ("length", .integer length.toNat)]
  | .varChar length => .object [("type", .text "var_char"), ("length", .integer length.toNat)]
  | .array element => .object [("type", .text "array"), ("element_type", element.toJson)]
  | plain => .object [("type", .text plain.tag)]

/-- A natural number of eight bits. -/
def byteOf (document : Json) : Option UInt8 :=
  (document.toNatBelow? (Nat.pow 2 8)).map UInt8.ofNat

/-- A natural number of sixteen bits. -/
def lengthOf (document : Json) : Option UInt16 :=
  (document.toNatBelow? (Nat.pow 2 16)).map UInt16.ofNat

/-- A variant without fields: any object, or an empty list. -/
def withoutFields (t : ColumnType) : Json → Option ColumnType
  | .object _ => some t
  | .list [] => some t
  | _ => none

/-- The type that a document holds, where at most `fuel` types are nested. -/
def ofJsonWithin : Nat → Bool → Json → Option ColumnType
  | 0, _, _ => none
  | fuel + 1, nested, document => do
    let (name, body) ← Json.tagged "type" tags nested document
    match name with
    | "bool" => withoutFields .bool body
    | "int16" => withoutFields .int16 body
    | "int32" => withoutFields .int32 body
    | "int64" => withoutFields .int64 body
    | "float32" => withoutFields .float32 body
    | "float64" => withoutFields .float64 body
    | "decimal" => do
      let [some precision, some scale] ←
        Json.members [("precision", .required), ("scale", .required)] body | none
      return .decimal (← byteOf precision) (← byteOf scale)
    | "char" => do
      let [some length] ← Json.members [("length", .required)] body | none
      return .char (← lengthOf length)
    | "var_char" => do
      let [some length] ← Json.members [("length", .required)] body | none
      return .varChar (← lengthOf length)
    | "text" => withoutFields .text body
    | "bytes" => withoutFields .bytes body
    | "date" => withoutFields .date body
    | "time" => withoutFields .time body
    | "local_date_time" => withoutFields .localDateTime body
    | "zoned_date_time" => withoutFields .zonedDateTime body
    | "uuid" => withoutFields .uuid body
    | "json" => withoutFields .json body
    | "jsonb" => withoutFields .jsonb body
    | "array" => do
      let [some element] ← Json.members [("element_type", .required)] body | none
      return .array (← ofJsonWithin fuel true element)
    | _ => none

/-- The type that a document holds; documents nest less deeply than the limit. -/
def ofJson? (nested : Bool) (document : Json) : Option ColumnType :=
  ofJsonWithin (Json.depthLimit + 1) nested document

end ColumnType

end ChangeFeed
