/-!
# Array literals

A one-dimensional array is written between braces with commas between its elements. An element in
double quotes may hold anything, with a backslash before quotes and backslashes; any other element
runs up to the next comma. The bare word `NULL` is the missing element.
-/

namespace ChangeFeed.ArrayLiteral

/-- Why a text is no array literal. -/
inductive Fault where
  | noBraces
  | danglingEscape
  | unterminatedQuote
  | multiDimensional
  | unexpected (c : Char)
  deriving DecidableEq, Repr

/-- The wording of a fault. -/
def Fault.message : Fault → String
  | .noBraces => "array literal must be enclosed in braces"
  | .danglingEscape => "dangling escape in array literal"
  | .unterminatedQuote => "unterminated quoted array element"
  | .multiDimensional => "multi-dimensional arrays are not supported"
  | .unexpected c => "unexpected '" ++ String.singleton c ++ "' after array element"

/-- How far an element has been read; its characters so far are in reverse order. -/
inductive Mode where
  /-- In front of an element. -/
  | start
  | bare (read : List Char)
  | quoted (read : List Char)
  /-- Behind a backslash inside quotes. -/
  | escaped (read : List Char)
  /-- Behind the closing quote. -/
  | closed (read : List Char)

/-- A bare element: the word `NULL` is the missing one. -/
def bareElement (read : List Char) : Option String :=
  let text := String.ofList read.reverse
  if text = "NULL" then none else some text

/-- A quoted element. -/
def quotedElement (read : List Char) : Option String :=
  some (String.ofList read.reverse)

/-- The elements from the current one on. -/
def elements : Mode → List Char → Except Fault (List (Option String))
  | .start, [] => .ok [bareElement []]
  | .start, c :: rest =>
    if c = '"' then elements (.quoted []) rest
    else if c = ',' then (elements .start rest).map (bareElement [] :: ·)
    else if c = '{' then .error .multiDimensional
    else elements (.bare [c]) rest
  | .bare read, [] => .ok [bareElement read]
  | .bare read, c :: rest =>
    if c = ',' then (elements .start rest).map (bareElement read :: ·)
    else if c = '{' then .error .multiDimensional
    else elements (.bare (c :: read)) rest
  | .quoted _, [] => .error .unterminatedQuote
  | .quoted read, c :: rest =>
    if c = '\\' then elements (.escaped read) rest
    else if c = '"' then elements (.closed read) rest
    else elements (.quoted (c :: read)) rest
  | .escaped _, [] => .error .danglingEscape
  | .escaped read, c :: rest => elements (.quoted (c :: read)) rest
  | .closed read, [] => .ok [quotedElement read]
  | .closed read, c :: rest =>
    if c = ',' then (elements .start rest).map (quotedElement read :: ·)
    else .error (.unexpected c)

/-- What stands between the outer braces. -/
def inside : List Char → Option (List Char)
  | '{' :: rest => if rest.getLast? = some '}' then some rest.dropLast else none
  | _ => none

/-- The elements of an array literal. -/
def read (text : String) : Except Fault (List (Option String)) :=
  match inside text.toList with
  | none => .error .noBraces
  | some [] => .ok []
  | some cs => elements .start cs

end ChangeFeed.ArrayLiteral
