import ChangeFeed.Json.Numeral

/-!
# Reading JSON

`Json.read` takes a whole text. The recursion runs on a bound that the length of the text gives:
every value takes at least one character.
-/

namespace ChangeFeed.Json

/-- The characters that may stand between the tokens. -/
def isSpace (c : Char) : Bool :=
  c == ' ' || c == '\t' || c == '\n' || c == '\r'

/-- The text from its next token on. -/
def skipSpaces (cs : List Char) : List Char :=
  cs.dropWhile isSpace

/-- Four hexadecimal digits. -/
def readUnit : List Char → Option (Nat × List Char)
  | a :: b :: c :: d :: rest => do
    let a ← Number.digitValue? 16 a
    let b ← Number.digitValue? 16 b
    let c ← Number.digitValue? 16 c
    let d ← Number.digitValue? 16 d
    return (((a * 16 + b) * 16 + c) * 16 + d, rest)
  | _ => none

/-- Whether a unit is the first half of a pair. -/
def isHighSurrogate (unit : Nat) : Bool :=
  0xD800 ≤ unit && unit ≤ 0xDBFF

/-- Whether a unit is the second half of a pair. -/
def isLowSurrogate (unit : Nat) : Bool :=
  0xDC00 ≤ unit && unit ≤ 0xDFFF

/-- The character of an escape whose first unit has been read, or nothing for half a pair. -/
def escapedUnit (unit : Nat) (rest : List Char) : Option Char × List Char :=
  if isHighSurrogate unit then
    match rest with
    | '\\' :: 'u' :: more =>
      match readUnit more with
      | some (low, after) =>
        if isLowSurrogate low then
          (some (Char.ofNat (0x10000 + (unit - 0xD800) * 0x400 + (low - 0xDC00))), after)
        else (none, rest)
      | none => (none, rest)
    | _ => (none, rest)
  else if isLowSurrogate unit then (none, rest)
  else (some (Char.ofNat unit), rest)

/-- The character that a short escape stands for. -/
def escapedChar? : Char → Option Char
  | '"' => some '"'
  | '\\' => some '\\'
  | '/' => some '/'
  | 'b' => some '\x08'
  | 'f' => some '\x0c'
  | 'n' => some '\n'
  | 'r' => some '\r'
  | 't' => some '\t'
  | _ => none

/-- The rest of a text after its opening quote. The characters are missing if one of them is half
of a surrogate pair. -/
def readText : Nat → List Char → Option (Option (List Char) × List Char)
  | 0, _ => none
  | _, [] => none
  | fuel + 1, c :: rest =>
    if c == '"' then some (some [], rest)
    else if c == '\\' then
      match rest with
      | [] => none
      | e :: after =>
        if e == 'u' then do
          let (unit, after) ← readUnit after
          let (char, after) := escapedUnit unit after
          let (tail, after) ← readText fuel after
          return (char.bind fun c => tail.map (c :: ·), after)
        else do
          let char ← escapedChar? e
          let (tail, after) ← readText fuel after
          return (tail.map (char :: ·), after)
    else if c.toNat < 0x20 then none
    else do
      let (tail, after) ← readText fuel rest
      return (tail.map (c :: ·), after)

/-- The text value of what `readText` found. -/
def ofCharacters : Option (List Char) → Json
  | some cs => .text (String.ofList cs)
  | none => .unusable

/-- A list, unless it is nested too deeply. -/
def listAt (depth : Nat) (items : List Json) : Json :=
  if depth < depthLimit then .list items else .unusable

/-- An object, unless it is nested too deeply or one of its names has no value. -/
def objectAt (depth : Nat) (fields : Option (List (String × Json))) : Json :=
  match fields with
  | some fields => if depth < depthLimit then .object fields else .unusable
  | none => .unusable

mutual

/-- A value at the start of a text, inside `depth` lists and objects. -/
def readValue : Nat → Nat → List Char → Option (Json × List Char)
  | 0, _, _ => none
  | fuel + 1, depth, cs =>
    match skipSpaces cs with
    | 'n' :: 'u' :: 'l' :: 'l' :: rest => some (.null, rest)
    | 't' :: 'r' :: 'u' :: 'e' :: rest => some (.bool true, rest)
    | 'f' :: 'a' :: 'l' :: 's' :: 'e' :: rest => some (.bool false, rest)
    | '"' :: rest => do
      let (chars, after) ← readText (rest.length + 1) rest
      return (ofCharacters chars, after)
    | '[' :: rest =>
      match skipSpaces rest with
      | ']' :: after => some (listAt depth [], after)
      | cs => do
        let (items, after) ← readItems fuel depth cs
        return (listAt depth items, after)
    | '{' :: rest =>
      match skipSpaces rest with
      | '}' :: after => some (objectAt depth (some []), after)
      | cs => do
        let (fields, after) ← readFields fuel depth cs
        return (objectAt depth fields, after)
    | cs => do
      let (numeral, after) ← Numeral.scan cs
      return (numeral.value, after)

/-- The items of a list up to its closing bracket; there is at least one. -/
def readItems : Nat → Nat → List Char → Option (List Json × List Char)
  | 0, _, _ => none
  | fuel + 1, depth, cs => do
    let (item, after) ← readValue fuel (depth + 1) cs
    match skipSpaces after with
    | ',' :: rest => do
      let (items, after) ← readItems fuel depth rest
      return (item :: items, after)
    | ']' :: rest => return ([item], rest)
    | _ => none

/-- The fields of an object up to its closing brace; there is at least one. -/
def readFields : Nat → Nat → List Char → Option (Option (List (String × Json)) × List Char)
  | 0, _, _ => none
  | fuel + 1, depth, cs => do
    let '"' :: cs := skipSpaces cs | none
    let (name, after) ← readText (cs.length + 1) cs
    let ':' :: cs := skipSpaces after | none
    let (value, after) ← readValue fuel (depth + 1) cs
    let field := name.map fun name => (String.ofList name, value)
    match skipSpaces after with
    | ',' :: rest => do
      let (fields, after) ← readFields fuel depth rest
      return (field.bind fun field => fields.map (field :: ·), after)
    | '}' :: rest => return (field.map ([·]), rest)
    | _ => none

end

/-- The document that a text holds. -/
def readChars (cs : List Char) : Option Json := do
  let (value, after) ← readValue (2 * cs.length + 2) 0 cs
  if (skipSpaces after).isEmpty then some value else none

/-- The document that a text holds. -/
def read (text : String) : Option Json :=
  readChars text.toList

end ChangeFeed.Json
