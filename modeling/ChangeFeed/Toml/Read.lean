import ChangeFeed.Toml.Numeral
import ChangeFeed.Toml.Table
import ChangeFeed.Toml.Text

/-!
# Reading TOML

`Toml.read` takes a whole document, line by line. A list may go over several lines; a table in
braces may not.
-/

namespace ChangeFeed.Toml

/-- The text behind a comment, if one stands there. -/
def skipComment : List Char → List Char
  | '#' :: rest => rest.dropWhile isPlain
  | cs => cs

/-- The text behind blanks, line ends and comments. -/
def skipLines : Nat → List Char → List Char
  | 0, cs => cs
  | fuel + 1, cs =>
    let cs := skipBlanks cs
    match afterLineEnd? (skipComment cs) with
    | some rest => skipLines fuel rest
    | none => cs

/-- What follows a line behind its last part. -/
def endLine (cs : List Char) : Option (List Char) :=
  match skipComment (skipBlanks cs) with
  | [] => some []
  | rest => afterLineEnd? rest

mutual

/-- A value inside `depth` others. -/
def readValue : Nat → Nat → List Char → Option (Json × List Char)
  | 0, _, _ => none
  | fuel + 1, depth, cs =>
    match cs with
    | '"' :: _ => (readText cs).map fun (value, rest) => (.text (String.ofList value), rest)
    | '\'' :: _ => (readText cs).map fun (value, rest) => (.text (String.ofList value), rest)
    | '[' :: rest => do
      if depth + 1 < nestingLimit then
        let (items, rest) ← readItems fuel (depth + 1) rest
        return (.list items, rest)
      else none
    | '{' :: rest => do
      if depth + 1 < nestingLimit then
        match skipBlanks rest with
        | '}' :: rest => return (.object [], rest)
        | rest =>
          let (fields, rest) ← readFields fuel (depth + 1) [] rest
          return (.object (fieldsToJson fields), rest)
      else none
    | _ => do
      let (word, rest) := cutWord cs
      let value ← wordValue word
      return (value, rest)

/-- The items of a list up to its closing bracket; a comma may follow the last one. -/
def readItems : Nat → Nat → List Char → Option (List Json × List Char)
  | 0, _, _ => none
  | fuel + 1, depth, cs =>
    match skipLines cs.length cs with
    | ']' :: rest => some ([], rest)
    | cs => do
      let (item, rest) ← readValue fuel depth cs
      match skipLines rest.length rest with
      | ',' :: rest => do
        let (items, rest) ← readItems fuel depth rest
        return (item :: items, rest)
      | ']' :: rest => return ([item], rest)
      | _ => none

/-- The fields of a table in braces up to its closing brace, added to those read so far. -/
def readFields : Nat → Nat → Fields → List Char → Option (Fields × List Char)
  | 0, _, _, _ => none
  | fuel + 1, depth, fields, cs => do
    let (keys, cs) ← readPath cs
    let '=' :: cs := cs | none
    let (value, cs) ← readValue fuel depth (skipBlanks cs)
    let fields ← fields.setAt value (keys.getLastD "") keys.dropLast
    match skipBlanks cs with
    | ',' :: cs => readFields fuel depth fields cs
    | '}' :: cs => return (fields, cs)
    | _ => none

end

/-- A document read so far: its tables, and the header that the next lines belong to. -/
structure Progress where
  fields : Fields
  header : List String

/-- A header, from behind its opening bracket on. -/
def readHeader (p : Progress) (cs : List Char) : Option (Progress × List Char) := do
  let (path, cs) ← readPath cs
  let ']' :: cs := cs | none
  let fields ← p.fields.changeAt (Fields.openTable (path.getLastD "")) path.dropLast
  return (⟨fields, path⟩, cs)

/-- A header of one of several tables, from behind its opening brackets on. -/
def readRepeatedHeader (p : Progress) (cs : List Char) : Option (Progress × List Char) := do
  let (path, cs) ← readPath cs
  let ']' :: ']' :: cs := cs | none
  let fields ← p.fields.changeAt (Fields.addTable (path.getLastD "")) path.dropLast
  return (⟨fields, path⟩, cs)

/-- A line that sets a value. -/
def readSetting (p : Progress) (cs : List Char) : Option (Progress × List Char) := do
  let (keys, cs) ← readPath cs
  let '=' :: cs := cs | none
  let cs := skipBlanks cs
  let (value, cs) ← readValue (2 * cs.length + 2) 0 cs
  let set := fun fields : Fields => fields.setAt value (keys.getLastD "") keys.dropLast
  let fields ← p.fields.changeAt set p.header
  return (⟨fields, p.header⟩, cs)

/-- The lines of a document. -/
def readLines : Nat → Progress → List Char → Option Fields
  | 0, _, _ => none
  | fuel + 1, p, cs =>
    match skipBlanks cs with
    | [] => some p.fields
    | cs => do
      let (p, rest) ← match cs with
        | '#' :: _ => some (p, cs)
        | '\n' :: _ => some (p, cs)
        | '\r' :: _ => some (p, cs)
        | '[' :: '[' :: rest => readRepeatedHeader p rest
        | '[' :: rest => readHeader p rest
        | _ => readSetting p cs
      let rest ← endLine rest
      readLines fuel p rest

/-- The document that a text holds. A mark of the byte order may stand in front. -/
def read (text : String) : Option Json :=
  let cs := match text.toList with
    | '\uFEFF' :: rest => rest
    | cs => cs
  (readLines (cs.length + 1) ⟨[], []⟩ cs).map fun fields => .object (fieldsToJson fields)

end ChangeFeed.Toml
