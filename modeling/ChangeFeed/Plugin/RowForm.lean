import ChangeFeed.Json.Read
import ChangeFeed.Json.Shape
import ChangeFeed.Plugin.Fault
import ChangeFeed.Plugin.Literal
import ChangeFeed.Text.Cut

/-!
# Messages in document form

The form of the `mppdb_decoding` plugin: transactions are framed by lines of marks and numbers, and
a row is a document whose lists of names, types and values belong together by index.
-/

namespace ChangeFeed.Plugin.RowForm

/-- The numbers of a transaction so far. -/
structure Numbers where
  xid : Option UInt64
  csn : Option UInt64

/-- The numbers behind their marks; the last one of each mark counts. -/
def numbersFrom : Numbers → List (List Char) → Except Malformation Numbers
  | found, [] => .ok found
  | found, word :: rest =>
    let mark := String.ofList (Text.lower word)
    if mark = "xid:" ∨ mark = "csn:" then
      match rest with
      | [] => .error (.markWithoutValue (String.ofList word))
      | value :: rest =>
        match Number.readUInt64 value with
        | .ok n =>
          if mark = "xid:" then numbersFrom { found with xid := some n } rest
          else numbersFrom { found with csn := some n } rest
        | .error _ => .error (.invalidMark (String.ofList word) (String.ofList value))
    else numbersFrom found rest

/-- The document of a row. -/
structure Document where
  tableName : String
  operation : String
  columns : List String × List String × List (Option String)
  oldKeys : List String × List String × List (Option String)

/-- A list of texts, empty by default. -/
def textsOf : Option Json → Option (List String)
  | none => some []
  | some json => json.toListOf? Json.toText?

/-- A list of texts or nulls, empty by default. -/
def optionalTextsOf : Option Json → Option (List (Option String))
  | none => some []
  | some json => json.toListOf? fun item => item.toOptional? Json.toText?

/-- The document of a row in its text. -/
def Document.read (cs : List Char) : Option Document := do
  let json ← Json.readChars cs
  let [some tableName, some operation, names, types, values, keyNames, keyTypes, keyValues] ←
    Json.members [("table_name", .required), ("op_type", .required),
      ("columns_name", .defaulted), ("columns_type", .defaulted), ("columns_val", .defaulted),
      ("old_keys_name", .defaulted), ("old_keys_type", .defaulted), ("old_keys_val", .defaulted)]
      json | none
  return {
    tableName := ← tableName.toText?
    operation := ← operation.toText?
    columns := (← textsOf names, ← textsOf types, ← optionalTextsOf values)
    oldKeys := (← textsOf keyNames, ← textsOf keyTypes, ← optionalTextsOf keyValues) }

/-- A value of a row document. -/
def valueOf : Option String → RawValue
  | none => .null
  | some literal => literalValue literal.toList

/-- The columns of three lists of one length. -/
def zipColumns : List String → List String → List (Option String) → List RawColumn
  | name :: names, typeName :: types, value :: values =>
    ⟨name, typeName, valueOf value⟩ :: zipColumns names types values
  | _, _, _ => []

/-- The columns of a section of a row document. -/
def readSection (sectionName : String)
    (parts : List String × List String × List (Option String)) :
    Except Malformation (List RawColumn) :=
  let (names, types, values) := parts
  if names.length = types.length ∧ names.length = values.length then
    .ok (zipColumns names types values)
  else .error (.unevenSection sectionName names.length types.length values.length)

/-- The event of a row document. -/
def readRow (position : Position) (cs : List Char) : Except DecodeError Event := do
  let some document := Document.read cs
    | throw (.malformed position .rowDocument)
  let some kind := RowKind.ofName? document.operation
    | throw (.ofUnrecognized position ("op_type '" ++ document.operation ++ "'").toList)
  let (schema, table) := match Text.cutAt '.' document.tableName.toList with
    | some (schema, table) => (String.ofList schema, String.ofList table)
    | none => ("", document.tableName)
  let columns ← (readSection "columns" document.columns).mapError (.malformed position)
  let oldKeys ← (readSection "old_keys" document.oldKeys).mapError (.malformed position)
  return .row ⟨position, kind, schema, table, columns, oldKeys, none, none⟩

/-- The event of a message. -/
def read (position : Position) (message : List Char) : Except DecodeError Event :=
  let cs := Text.trim message
  if cs.head? = some '{' then readRow position cs
  else
    let words := Text.words cs
    match words.head?.map String.ofList with
    | some "BEGIN" => do
      let numbers ← (numbersFrom ⟨none, none⟩ words).mapError (.malformed position)
      return .begin position numbers.xid numbers.csn
    | some "COMMIT" | some "commit" => do
      let numbers ← (numbersFrom ⟨none, none⟩ words).mapError (.malformed position)
      return .commit position numbers.xid numbers.csn none
    | _ => .error (.ofUnrecognized position cs)

end ChangeFeed.Plugin.RowForm
