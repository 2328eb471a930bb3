import ChangeFeed.Event.Basic

/-!
# Literals of messages

How a message shows the value of a column: a word for the missing value, a word for a value that
was not sent, a text in single quotes with its own quotes doubled, or anything else as it is.
-/

namespace ChangeFeed.Plugin

/-- A text in which every pair of single quotes becomes one. -/
def undouble : List Char → List Char
  | '\'' :: '\'' :: rest => '\'' :: undouble rest
  | c :: rest => c :: undouble rest
  | [] => []

/-- What stands between the quotes of a quoted literal. -/
def quotedPart : List Char → Option (List Char)
  | '\'' :: rest => if rest.getLast? = some '\'' then some rest.dropLast else none
  | _ => none

/-- The value that a literal shows. -/
def literalValue (literal : List Char) : RawValue :=
  if String.ofList literal = "null" then .null
  else if String.ofList literal = "unchanged-toast-datum" then .unchangedToast
  else
    match quotedPart literal with
    | some inner => .text (String.ofList (undouble inner))
    | none => .text (String.ofList literal)

end ChangeFeed.Plugin
