import ChangeFeed.Json.Basic

/-!
# Canonical documents

The form in which a document is kept as a value: the fields of every object in ascending order of
their names, each name once. Of several fields with one name the last one counts.
-/

namespace ChangeFeed.Json

/-- Puts a value under a name into fields in ascending order. -/
def insertField {α : Type} (name : String) (value : α) : List (String × α) → List (String × α)
  | [] => [(name, value)]
  | (n, v) :: rest =>
    if name < n then (name, value) :: (n, v) :: rest
    else if name = n then (name, value) :: rest
    else (n, v) :: insertField name value rest

/-- Fields in ascending order; a later field replaces an earlier one of its name. -/
def sortedFields {α : Type} (fields : List (String × α)) : List (String × α) :=
  fields.foldl (fun sorted (name, value) => insertField name value sorted) []

mutual

/-- The canonical form of a document, unless a part of it is unusable. -/
def canonical? : Json → Option Json
  | .list items => (canonicalItems? items).map .list
  | .object fields => (canonicalFields? fields).map fun fields => .object (sortedFields fields)
  | .unusable => none
  | leaf => some leaf

/-- The canonical forms of items. -/
def canonicalItems? : List Json → Option (List Json)
  | [] => some []
  | item :: rest => do
    let item ← canonical? item
    let rest ← canonicalItems? rest
    return item :: rest

/-- The canonical forms of the values of fields. -/
def canonicalFields? : List (String × Json) → Option (List (String × Json))
  | [] => some []
  | (name, value) :: rest => do
    let value ← canonical? value
    let rest ← canonicalFields? rest
    return (name, value) :: rest

end

end ChangeFeed.Json
