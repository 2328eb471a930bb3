import ChangeFeed.ColumnType.Name
import ChangeFeed.Schema.Basic
import ChangeFeed.Session.Statement

/-!
# Looking up table definitions

The definitions of a schema's tables from what the server tells about columns and primary keys.
The names of the tables are qualified with the schema, and the tables are in order of their names.
-/

namespace ChangeFeed

namespace Schema

/-- Whether a table of a schema is asked for. Names may be qualified; no names ask for all. -/
def isWanted (tables : List String) (schema table : String) : Bool :=
  tables.isEmpty || tables.any fun name =>
    name == table ||
      match Text.cutAt '.' name.toList with
      | some (s, t) => String.ofList s == schema && String.ofList t == table
      | none => false

/-- The name of a column's type, from the parts that the server reports. -/
def typeName (dataType typeName : String) (length precision scale : Option Int) : String :=
  match dataType, length, precision, scale with
  | "ARRAY", _, _, _ => typeName
  | "USER-DEFINED", _, _, _ => typeName
  | "character varying", none, _, _ => "text"
  | "character varying", some n, _, _ => dataType ++ "(" ++ Number.decimalInt n ++ ")"
  | "character", some n, _, _ => dataType ++ "(" ++ Number.decimalInt n ++ ")"
  | "numeric", _, some p, some s =>
    "numeric(" ++ Number.decimalInt p ++ "," ++ Number.decimalInt s ++ ")"
  | _, _, _, _ => dataType

/-- A column and its table from a row about columns, if the table is asked for. -/
def columnOfRow (schema : String) (tables : List String) (row : List Cell) :
    Except StatementFault (Option (String × ColumnDefinition)) := do
  let table ← textAt row 0
  if !isWanted tables schema table then return none
  let name ← textAt row 1
  let dataType ← textAt row 2
  let userType ← textAt row 3
  let length ← optionalNumberAt row 5
  let precision ← optionalNumberAt row 6
  let scale ← optionalNumberAt row 7
  let nullable ← textAt row 4
  return some (table,
    ⟨name, ColumnType.ofName (typeName dataType userType length precision scale),
      nullable == "YES"⟩)

/-- A column and its table from a row about primary keys. -/
def keyOfRow (row : List Cell) : Except StatementFault (String × String) := do
  return (← textAt row 0, ← textAt row 1)

/-- Adds a value to those under a name; the names are in ascending order. -/
def addUnder {α : Type} (name : String) (value : α) :
    List (String × List α) → List (String × List α)
  | [] => [(name, [value])]
  | (n, values) :: rest =>
    if name < n then (name, [value]) :: (n, values) :: rest
    else if name = n then (n, values ++ [value]) :: rest
    else (n, values) :: addUnder name value rest

/-- Values by their names. -/
def grouped {α : Type} (pairs : List (String × α)) : List (String × List α) :=
  pairs.foldl (fun groups (name, value) => addUnder name value groups) []

/-- The schema of columns and primary keys. -/
def ofColumns (schema : String) (columns : List (String × ColumnDefinition))
    (keys : List (String × String)) : Schema :=
  ⟨(grouped columns).map fun (table, columns) =>
    ⟨schema ++ "." ++ table, columns, ((grouped keys).lookup table).getD []⟩⟩

/-- The rows that a statement gives. -/
def rowsOf (context : String) : Reply → Except Failure (List (List Cell))
  | .rows rows => .ok rows
  | .refused code _ => .error ⟨[.message context, .database (some code)]⟩
  | .lost => .error ⟨[.message context, .database none]⟩

/-- Reads rows in order, up to the first fault. -/
def readRows {α : Type} (ofRow : List Cell → Except StatementFault α) (rows : List (List Cell)) :
    Except Failure (List α) :=
  (rows.mapM ofRow).mapError fun fault => ⟨fault.causes⟩

/-- The schema that two answers describe. -/
def ofRows (schema : String) (tables : List String) (columns keys : List (List Cell)) :
    Except Failure Schema := do
  let columns ← readRows (columnOfRow schema tables) columns
  let keys ← readRows keyOfRow keys
  return ofColumns schema (columns.filterMap id) keys

/-- Asks a server for the tables of a schema. -/
def load {σ : Type} (server : Server σ) (schema : String) (tables : List String) (world : σ) :
    Except Failure Schema × σ :=
  let (columns, world) := server (.listColumns schema) world
  match rowsOf ("Failed to read columns of schema '" ++ schema ++ "'") columns with
  | .error failure => (.error failure, world)
  | .ok columns =>
    let (keys, world) := server (.listPrimaryKeys schema) world
    match rowsOf ("Failed to read primary keys of schema '" ++ schema ++ "'") keys with
    | .error failure => (.error failure, world)
    | .ok keys => (ofRows schema tables columns keys, world)

end Schema

end ChangeFeed
