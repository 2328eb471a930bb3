import ChangeFeed.Json.Basic
import ChangeFeed.Number.Shortest

/-!
# Writing JSON

`Json.render` writes a document without spaces, `Json.renderIndented` one field or item per line.
Numbers take the fewest digits that read back; what is no finite number becomes `null`.
-/

namespace ChangeFeed.Json

open Number (Layout)

/-- Exponents from -5 to 15 are written positionally in numbers of 64 bits. -/
def doubleLayout : Layout := ⟨-5, 16⟩

/-- Exponents from -6 to 12 are written positionally in numbers of 32 bits. -/
def singleLayout : Layout := ⟨-6, 13⟩

/-- A character inside a text. -/
def escaped (c : Char) : List Char :=
  match c with
  | '"' => ['\\', '"']
  | '\\' => ['\\', '\\']
  | '\x08' => ['\\', 'b']
  | '\x0c' => ['\\', 'f']
  | '\n' => ['\\', 'n']
  | '\r' => ['\\', 'r']
  | '\t' => ['\\', 't']
  | _ =>
    if c.toNat < 0x20 then
      ['\\', 'u', '0', '0', Number.digitChar (c.toNat / 16), Number.digitChar (c.toNat % 16)]
    else [c]

/-- A text between quotes. -/
def quotedText (text : String) : List Char :=
  '"' :: text.toList.flatMap escaped ++ ['"']

/-- Texts with a separator between neighbours. -/
def separated (separator : List Char) : List (List Char) → List Char
  | [] => []
  | [part] => part
  | part :: rest => part ++ separator ++ separated separator rest

/-- A value without parts. -/
def renderLeaf : Json → List Char
  | .bool true => ['t', 'r', 'u', 'e']
  | .bool false => ['f', 'a', 'l', 's', 'e']
  | .integer value => (Number.decimalInt value).toList
  | .real value => (doubleLayout.write value).getD ['n', 'u', 'l', 'l']
  | .single value => (singleLayout.write value).getD ['n', 'u', 'l', 'l']
  | .text value => quotedText value
  | _ => ['n', 'u', 'l', 'l']

mutual

/-- A document without spaces. -/
def renderChars : Json → List Char
  | .list items => '[' :: separated [','] (renderItems items) ++ [']']
  | .object fields => '{' :: separated [','] (renderFields fields) ++ ['}']
  | leaf => renderLeaf leaf

/-- The items of a list, each without spaces. -/
def renderItems : List Json → List (List Char)
  | [] => []
  | item :: rest => renderChars item :: renderItems rest

/-- The fields of an object, each without spaces. -/
def renderFields : List (String × Json) → List (List Char)
  | [] => []
  | (name, value) :: rest => (quotedText name ++ ':' :: renderChars value) :: renderFields rest

end

/-- A document without spaces. -/
def render (json : Json) : String :=
  String.ofList (renderChars json)

/-- A new line, indented by `depth` levels of two spaces. -/
def newLine (depth : Nat) : List Char :=
  '\n' :: List.replicate (2 * depth) ' '

/-- The parts of a list or an object on lines of their own. -/
def block (opening closing : Char) (depth : Nat) (parts : List (List Char)) : List Char :=
  if parts.isEmpty then [opening, closing]
  else
    opening :: newLine (depth + 1) ++ separated (',' :: newLine (depth + 1)) parts ++
      newLine depth ++ [closing]

mutual

/-- A document with its parts on lines of their own, inside `depth` lists and objects. -/
def indentedChars (depth : Nat) : Json → List Char
  | .list items => block '[' ']' depth (indentedItems (depth + 1) items)
  | .object fields => block '{' '}' depth (indentedFields (depth + 1) fields)
  | leaf => renderLeaf leaf

/-- The items of a list, each with its parts on lines of their own. -/
def indentedItems (depth : Nat) : List Json → List (List Char)
  | [] => []
  | item :: rest => indentedChars depth item :: indentedItems depth rest

/-- The fields of an object, each with its parts on lines of their own. -/
def indentedFields (depth : Nat) : List (String × Json) → List (List Char)
  | [] => []
  | (name, value) :: rest =>
    (quotedText name ++ ':' :: ' ' :: indentedChars depth value) :: indentedFields depth rest

end

/-- A document with every part on a line of its own. -/
def renderIndented (json : Json) : String :=
  String.ofList (indentedChars 0 json)

end ChangeFeed.Json
