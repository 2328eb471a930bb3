import ChangeFeed.Position
import ChangeFeed.Session.Fault

/-!
# Statements and their answers

What a session asks the server, with the text and the parameters of each statement, and what the
server answers. A server is any function that answers statements and keeps a state.
-/

namespace ChangeFeed

/-- A statement that a session sends. -/
inductive Statement where
  | findSlot (slot : String)
  | createSlot (slot plugin : String)
  | advanceSlot (slot : String) (position : Position)
  | peekChanges (slot : String) (limit : Nat) (options : List String)
  | listColumns (schema : String)
  | listPrimaryKeys (schema : String)
  deriving DecidableEq

/-- A parameter of a statement. -/
inductive Parameter where
  | text (value : String)
  | number (value : Nat)
  | texts (values : List String)
  deriving DecidableEq, Repr

namespace Statement

/-- The text of a statement. -/
def text : Statement → String
  | .findSlot _ =>
    "SELECT plugin::text, confirmed_flush_lsn::text FROM pg_replication_slots " ++
      "WHERE slot_name = $1"
  | .createSlot _ _ => "SELECT lsn::text FROM pg_create_logical_replication_slot($1, $2)"
  | .advanceSlot _ _ => "SELECT pg_replication_slot_advance($1, $2::text::pg_lsn)"
  | .peekChanges _ _ _ =>
    "SELECT lsn::text, xid::text, data FROM " ++
      "pg_logical_slot_peek_changes($1, NULL, $2, VARIADIC $3::text[])"
  | .listColumns _ =>
    "SELECT table_name::text, column_name::text, data_type::text, udt_name::text, " ++
      "is_nullable::text, character_maximum_length::int, " ++
      "numeric_precision::int, numeric_scale::int " ++
      "FROM information_schema.columns WHERE table_schema = $1 " ++
      "ORDER BY table_name, ordinal_position"
  | .listPrimaryKeys _ =>
    "SELECT kcu.table_name::text, kcu.column_name::text " ++
      "FROM information_schema.table_constraints tc " ++
      "JOIN information_schema.key_column_usage kcu " ++
      "ON tc.constraint_name = kcu.constraint_name " ++
      "AND tc.table_schema = kcu.table_schema AND tc.table_name = kcu.table_name " ++
      "WHERE tc.constraint_type = 'PRIMARY KEY' AND tc.table_schema = $1 " ++
      "ORDER BY kcu.table_name, kcu.ordinal_position"

/-- The parameters of a statement. -/
def parameters : Statement → List Parameter
  | .findSlot slot => [.text slot]
  | .createSlot slot plugin => [.text slot, .text plugin]
  | .advanceSlot slot position => [.text slot, .text position.write]
  | .peekChanges slot limit options => [.text slot, .number limit, .texts options]
  | .listColumns schema => [.text schema]
  | .listPrimaryKeys schema => [.text schema]

end Statement

/-- A value in an answer. -/
inductive Cell where
  | null
  | text (value : String)
  | number (value : Int)
  deriving DecidableEq, Repr

/-- What a server answers to a statement. -/
inductive Reply where
  | rows (rows : List (List Cell))
  | refused (code message : String)
  /-- The connection breaks before an answer arrives. -/
  | lost
  deriving DecidableEq, Repr

/-- A server with a state. -/
abbrev Server (σ : Type) := Statement → σ → Reply × σ

/-- The value at an index of a row that is a text or null. -/
def optionalTextAt (row : List Cell) (index : Nat) : Except StatementFault (Option String) :=
  match row[index]? with
  | some .null => .ok none
  | some (.text value) => .ok (some value)
  | some (.number _) => .error .wrongKind
  | none => .error .wrongKind

/-- The value at an index of a row that is a text. -/
def textAt (row : List Cell) (index : Nat) : Except StatementFault String := do
  match ← optionalTextAt row index with
  | some value => return value
  | none => throw .missingValue

/-- The value at an index of a row that is a number or null. -/
def optionalNumberAt (row : List Cell) (index : Nat) : Except StatementFault (Option Int) :=
  match row[index]? with
  | some .null => .ok none
  | some (.number value) => .ok (some value)
  | some (.text _) => .error .wrongKind
  | none => .error .wrongKind

end ChangeFeed
