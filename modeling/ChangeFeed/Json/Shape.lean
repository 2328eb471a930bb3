import ChangeFeed.Json.Basic

/-!
# The shapes of known documents

Readers of documents of known structure. A record is an object, whose unknown fields are skipped
and whose known ones occur at most once, or the list of its fields in order. A choice carries the
name of its variant in one of three ways: as a field among those of the variant (`tagged`), as a
field beside one that holds the rest (`labelled`), or as the only name of an object (`named`).

A tagged document is read as a whole before its parts are looked at. So it may have no unusable
part anywhere, and inside it a variant may also be given by its number.
-/

namespace ChangeFeed.Json

/-- A text. -/
def toText? : Json → Option String
  | .text value => some value
  | _ => none

/-- A truth value. -/
def toBool? : Json → Option Bool
  | .bool value => some value
  | _ => none

/-- An integer within bounds. -/
def toInteger? (lowest highest : Int) : Json → Option Int
  | .integer value => if lowest ≤ value ∧ value ≤ highest then some value else none
  | _ => none

/-- A natural number below a bound. -/
def toNatBelow? (bound : Nat) : Json → Option Nat
  | .integer value => if 0 ≤ value ∧ value < bound then some value.toNat else none
  | _ => none

/-- A number as a binary one. -/
def toReal? : Json → Option (Number.Binary Number.Format.double)
  | .integer value =>
    some (Number.Binary.ofQuotient Number.Format.double (value < 0) value.natAbs 1)
  | .real value => some value
  | _ => none

/-- The items of a list, each read the same way. -/
def toListOf? {α : Type} (item : Json → Option α) : Json → Option (List α)
  | .list items => items.mapM item
  | _ => none

/-- A value that may be `null`. -/
def toOptional? {α : Type} (value : Json → Option α) : Json → Option (Option α)
  | .null => some none
  | json => (value json).map some

mutual

/-- Whether every part of a document has a value. -/
def isUsable : Json → Bool
  | .unusable => false
  | .list items => areUsable items
  | .object fields => areFieldsUsable fields
  | _ => true

/-- Whether every part of every item has a value. -/
def areUsable : List Json → Bool
  | [] => true
  | item :: rest => isUsable item && areUsable rest

/-- Whether every part of every field has a value. -/
def areFieldsUsable : List (String × Json) → Bool
  | [] => true
  | (_, value) :: rest => isUsable value && areFieldsUsable rest

end

/-- When a field of a record may be missing. -/
inductive Presence where
  | required
  /-- The field may be missing from an object, which stands for `null`. -/
  | optional
  /-- The field may be missing and then has a default value. -/
  | defaulted
  deriving DecidableEq, Repr

/-- The values under a name. -/
def valuesOf (name : String) (fields : List (String × Json)) : List Json :=
  (fields.filter (·.1 == name)).map (·.2)

/-- One field of an object. -/
def memberOf (name : String) (presence : Presence) (fields : List (String × Json)) :
    Option (Option Json) :=
  match valuesOf name fields, presence with
  | [], .required => none
  | [], .optional => some (some .null)
  | [], .defaulted => some none
  | [value], _ => some (some value)
  | _, _ => none

/-- The fields of a record that is given as a list. -/
def positional : List (String × Presence) → List Json → Option (List (Option Json))
  | [], [] => some []
  | [], _ :: _ => none
  | _ :: shape, value :: values => (positional shape values).map (some value :: ·)
  | (_, .defaulted) :: shape, [] => (positional shape []).map (none :: ·)
  | (_, _) :: _, [] => none

/-- The fields of a record, in the order of its shape. Only defaulted fields can be missing. -/
def members (shape : List (String × Presence)) : Json → Option (List (Option Json))
  | .object fields => shape.mapM fun (name, presence) => memberOf name presence fields
  | .list values => positional shape values
  | _ => none

/-- The fields of a record that has no other fields. A list may go on behind the last one. -/
def knownMembers (shape : List (String × Presence)) : Json → Option (List (Option Json))
  | .object fields =>
    if fields.all fun (name, _) => shape.any (·.1 == name) then members shape (.object fields)
    else none
  | .list values => positional shape (values.take shape.length)
  | _ => none

/-- The name of a variant, or inside tagged documents its number. -/
def variant (names : List String) (nested : Bool) : Json → Option String
  | .text name => if name ∈ names then some name else none
  | .integer n => if nested ∧ 0 ≤ n then names[n.toNat]? else none
  | _ => none

/-- The variant of a tagged document and the fields of the variant. -/
def tagged (tag : String) (names : List String) (nested : Bool) (json : Json) :
    Option (String × Json) :=
  match json with
  | .object fields =>
    match valuesOf tag fields with
    | [found] => do
      let name ← variant names nested found
      let rest := fields.filter (·.1 != tag)
      if areFieldsUsable rest then some (name, .object rest) else none
    | _ => none
  | .list (found :: rest) => do
    let name ← variant names nested found
    if areUsable rest then some (name, .list rest) else none
  | _ => none

/-- The variant of a document that keeps the value of the variant in a field of its own. A value
in front of its tag is read as a whole first, like a tagged document. -/
def labelled (tag content : String) (names : List String) (nested : Bool) (json : Json) :
    Option (String × Option Json × Bool) :=
  match json with
  | .object fields =>
    match valuesOf tag fields, valuesOf content fields with
    | [found], [] => do
      let name ← variant names nested found
      return (name, none, nested)
    | [found], [value] => do
      let name ← variant names nested found
      let tagFirst := (fields.find? fun f => f.1 == tag || f.1 == content).any (·.1 == tag)
      if tagFirst then some (name, some value, nested)
      else if isUsable value then some (name, some value, true)
      else none
    | _, _ => none
  | .list [found, value] => do
    let name ← variant names nested found
    return (name, some value, nested)
  | _ => none

/-- The variant of a document that is the name of a variant, or an object whose only field has
that name and holds the value of the variant. -/
def named (names : List String) : Json → Option (String × Option Json)
  | .text name => if name ∈ names then some (name, none) else none
  | .object [(name, value)] => if name ∈ names then some (name, some value) else none
  | _ => none

/-- One of several names without values. -/
def nameOf (names : List String) (json : Json) : Option String :=
  match named names json with
  | some (name, none) => some name
  | some (name, some .null) => some name
  | _ => none

/-- A text, or `null`. -/
def ofOptional {α : Type} (write : α → Json) : Option α → Json
  | some value => write value
  | none => .null

end ChangeFeed.Json
