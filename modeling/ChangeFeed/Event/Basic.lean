import ChangeFeed.Calendar.Basic
import ChangeFeed.Position

/-!
# Replication events

What one message of a replication slot says. Every event carries the position at which the server
reported its message.
-/

namespace ChangeFeed

/-- What was done to a row. -/
inductive RowKind where
  | insert
  | update
  | delete
  deriving DecidableEq, Repr

/-- The name of a row operation. -/
def RowKind.name : RowKind → String
  | .insert => "INSERT"
  | .update => "UPDATE"
  | .delete => "DELETE"

/-- The row operation of a name. -/
def RowKind.ofName? : String → Option RowKind
  | "INSERT" => some .insert
  | "UPDATE" => some .update
  | "DELETE" => some .delete
  | _ => none

/-- A column value as the message shows it. -/
inductive RawValue where
  | null
  /-- The text of a literal, quoting removed. -/
  | text (value : String)
  /-- A value that is stored apart and was not part of the change. -/
  | unchangedToast
  deriving DecidableEq

/-- A column of a changed row. -/
structure RawColumn where
  name : String
  typeName : String
  value : RawValue
  deriving DecidableEq

/-- A changed row. -/
structure Row where
  position : Position
  kind : RowKind
  schema : String
  table : String
  /-- The new row, or the deleted one. -/
  columns : List RawColumn
  /-- What identified the row before, if the message says so. -/
  oldKeys : List RawColumn
  xid : Option UInt64
  csn : Option UInt64
  deriving DecidableEq

/-- A table name behind its schema, if there is one. -/
def qualifiedName (schema table : String) : String :=
  if schema.isEmpty then table else schema ++ "." ++ table

/-- The name of the row's table behind its schema. -/
def Row.qualifiedName (row : Row) : String :=
  ChangeFeed.qualifiedName row.schema row.table

/-- A replication event. -/
inductive Event where
  | begin (position : Position) (xid csn : Option UInt64)
  | commit (position : Position) (xid csn : Option UInt64) (time : Option Calendar.Instant)
  | row (row : Row)
  /-- A message without row data. -/
  | placeholder (position : Position)
  deriving DecidableEq

namespace Event

/-- The position of an event. -/
def position : Event → Position
  | .begin position _ _ => position
  | .commit position _ _ _ => position
  | .row r => r.position
  | .placeholder position => position

/-- The name of the kind of an event. -/
def kindName : Event → String
  | .begin _ _ _ => "BEGIN"
  | .commit _ _ _ _ => "COMMIT"
  | .row r => r.kind.name
  | .placeholder _ => "PLACEHOLDER"

/-- The table of a row event. -/
def table? : Event → Option String
  | .row r => some r.qualifiedName
  | _ => none

end Event

end ChangeFeed
