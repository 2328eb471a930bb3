import ChangeFeed.Number.Binary

/-!
# JSON documents

The document tree. Fields keep the order and the repetitions of their text, because a reader of a
known document minds both. A part that no value stands for, although its text is well formed, is
kept as `unusable`: whoever skips the part does not notice, whoever wants it fails.
-/

namespace ChangeFeed

open Number (Binary Format)

/-- A JSON document. -/
inductive Json where
  | null
  | bool (value : Bool)
  | integer (value : Int)
  | real (value : Binary Format.double)
  /-- A number of single precision; it is only ever written. -/
  | single (value : Binary Format.single)
  | text (value : String)
  | list (items : List Json)
  | object (fields : List (String × Json))
  /-- A well-formed part without a value: a number out of range, half of a surrogate pair, or an
  object or list nested too deeply. -/
  | unusable
  deriving Inhabited

namespace Json

/-- The object and list levels that may be open at once, less one. -/
def depthLimit : Nat := 127

end Json

end ChangeFeed
