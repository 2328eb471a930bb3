import ChangeFeed.ColumnType.Basic

/-!
# Table definitions

What is known about the tables of a database. `Schema.table?` is the definition most recently
given under a name; of several in an initial list that is the last one.
-/

namespace ChangeFeed

/-- The definition of a column. -/
structure ColumnDefinition where
  name : String
  type : ColumnType
  nullable : Bool
  deriving DecidableEq

/-- The definition of a table, its columns in order. -/
structure TableDefinition where
  name : String
  columns : List ColumnDefinition
  primaryKey : List String
  deriving DecidableEq

namespace TableDefinition

/-- The column of a name. -/
def column? (t : TableDefinition) (name : String) : Option ColumnDefinition :=
  t.columns.find? (·.name == name)

/-- The type of the column of a name. -/
def columnType? (t : TableDefinition) (name : String) : Option ColumnType :=
  (t.column? name).map (·.type)

/-- Whether a name belongs to the primary key. -/
def isPrimaryKey (t : TableDefinition) (name : String) : Bool :=
  t.primaryKey.contains name

/-- The names of the columns. -/
def columnNames (t : TableDefinition) : List String :=
  t.columns.map (·.name)

end TableDefinition

/-- The definitions of tables, in order. -/
structure Schema where
  tables : List TableDefinition
  deriving DecidableEq

/-- A table or a column that is not defined. -/
inductive SchemaFault where
  | tableNotFound (table : String)
  | columnNotFound (table column : String)
  deriving DecidableEq, Repr

/-- The wording of a schema fault. -/
def SchemaFault.message : SchemaFault → String
  | .tableNotFound table => "Table not found: " ++ table
  | .columnNotFound table column =>
    "Column '" ++ column ++ "' not found in table '" ++ table ++ "'"

namespace Schema

/-- The definition of a name. -/
def table? (s : Schema) (name : String) : Option TableDefinition :=
  s.tables.reverse.find? (·.name == name)

/-- The type of a column. -/
def columnType (s : Schema) (table column : String) : Except SchemaFault ColumnType :=
  match s.table? table with
  | none => .error (.tableNotFound table)
  | some definition =>
    match definition.columnType? column with
    | none => .error (.columnNotFound table column)
    | some t => .ok t

/-- The names of the tables. -/
def tableNames (s : Schema) : List String :=
  s.tables.map (·.name)

/-- Replaces the first definition of the name of `table`, if there is one. -/
def replaceFirst (table : TableDefinition) : List TableDefinition → Option (List TableDefinition)
  | [] => none
  | t :: rest =>
    if t.name = table.name then some (table :: rest)
    else (replaceFirst table rest).map (t :: ·)

/-- Puts a definition in the place of the one that its name has, or at the end. -/
def add (s : Schema) (table : TableDefinition) : Schema :=
  match replaceFirst table s.tables.reverse with
  | some tables => ⟨tables.reverse⟩
  | none => ⟨s.tables ++ [table]⟩

end Schema

end ChangeFeed
