import ChangeFeed.Json.Basic

/-!
# Tables of TOML

A document fills a tree of tables. A table comes from a header, from dots in a key, or because a
header below it needs it; what may still be added to it depends on that. A finished value is
closed.
-/

namespace ChangeFeed.Toml

/-- How a table has come into the tree. -/
inductive Origin where
  | header
  /-- By a header of a table inside it. -/
  | implied
  /-- By a key with dots. -/
  | dotted
  deriving DecidableEq, Repr

/-- What stands under a key. -/
inductive Node where
  | closed (value : Json)
  | table (origin : Origin) (fields : List (String × Node))
  /-- Tables of equal headers in order. -/
  | tables (items : List (List (String × Node)))

/-- The fields of a table. -/
abbrev Fields := List (String × Node)

namespace Fields

/-- Puts a node under a key, in the place of one that stood there. -/
def put (key : String) (node : Node) : Fields → Fields
  | [] => [(key, node)]
  | (other, old) :: rest =>
    if other = key then (key, node) :: rest else (other, old) :: put key node rest

/-- Changes the last of several tables. -/
def changeLast (change : Fields → Option Fields) : List Fields → Option (List Fields)
  | [] => none
  | [last] => (change last).map ([·])
  | first :: rest => (changeLast change rest).map (first :: ·)

/-- Changes the table at a path of headers. Tables on the way that are missing are implied. -/
def changeAt (change : Fields → Option Fields) : List String → Fields → Option Fields
  | [], fields => change fields
  | key :: path, fields => do
    let node ← match fields.lookup key with
      | none => (changeAt change path []).map (Node.table .implied)
      | some (.table origin inner) => (changeAt change path inner).map (Node.table origin)
      | some (.tables items) => (changeLast (changeAt change path) items).map Node.tables
      | some (.closed _) => none
    return put key node fields

/-- Sets the value at a dotted key. The dots lead through tables that only dots have made, or
into the last of several tables as long as another dot follows. -/
def setAt (value : Json) (last : String) : List String → Fields → Option Fields
  | [], fields => if (fields.lookup last).isSome then none else some (put last (.closed value) fields)
  | key :: path, fields => do
    let node ← match fields.lookup key with
      | none => (setAt value last path []).map (Node.table .dotted)
      | some (.table origin inner) =>
        if origin = .header ∨ (path = [] ∧ origin ≠ .dotted) then none
        else (setAt value last path inner).map (Node.table origin)
      | some (.tables items) =>
        if path = [] then none
        else (changeLast (setAt value last path) items).map Node.tables
      | some (.closed _) => none
    return put key node fields

/-- Opens a table under a key by its header. It may have been implied before. -/
def openTable (key : String) (fields : Fields) : Option Fields :=
  match fields.lookup key with
  | none => some (put key (.table .header []) fields)
  | some (.table .implied inner) => some (put key (.table .header inner) fields)
  | some _ => none

/-- Adds a table to the tables of a header. -/
def addTable (key : String) (fields : Fields) : Option Fields :=
  match fields.lookup key with
  | none => some (put key (.tables [[]]) fields)
  | some (.tables items) => some (put key (.tables (items ++ [[]])) fields)
  | some _ => none

end Fields

mutual

/-- A node as a value. -/
def Node.toJson : Node → Json
  | .closed value => value
  | .table _ fields => .object (fieldsToJson fields)
  | .tables items => .list (tablesToJson items)

/-- The fields of a table as values. -/
def fieldsToJson : List (String × Node) → List (String × Json)
  | [] => []
  | (key, node) :: rest => (key, node.toJson) :: fieldsToJson rest

/-- Several tables as values. -/
def tablesToJson : List (List (String × Node)) → List Json
  | [] => []
  | fields :: rest => .object (fieldsToJson fields) :: tablesToJson rest

end

end ChangeFeed.Toml
