import ChangeFeed.Number.Integer

/-!
# Texts and keys of TOML

Texts stand between double quotes, with escapes, or between single quotes, without. Three quotes
open a text of several lines. A key is bare or a text of one line, and dots join keys to a path.
-/

namespace ChangeFeed.Toml

/-- The blanks within a line. -/
def isBlank (c : Char) : Bool :=
  c == ' ' || c == '\t'

/-- The text behind its leading blanks. -/
def skipBlanks (cs : List Char) : List Char :=
  cs.dropWhile isBlank

/-- What follows the end of a line. -/
def afterLineEnd? : List Char → Option (List Char)
  | '\n' :: rest => some rest
  | '\r' :: '\n' :: rest => some rest
  | _ => none

/-- Whether a character may stand in a comment or in a text: no control character but the tab. -/
def isPlain (c : Char) : Bool :=
  c == '\t' || (0x20 ≤ c.toNat && c.toNat != 0x7F)

/-- The character of a given number of hexadecimal digits. -/
def numberedChar (width : Nat) (cs : List Char) : Option (Char × List Char) := do
  let digits ← (cs.take width).mapM (Number.digitValue? 16)
  let n := digits.foldl (fun n digit => 16 * n + digit) 0
  if digits.length = width ∧ n.isValidChar then some (Char.ofNat n, cs.drop width) else none

/-- The character of an escape, from behind its backslash on. -/
def escapedChar : List Char → Option (Char × List Char)
  | 'b' :: rest => some ('\x08', rest)
  | 't' :: rest => some ('\t', rest)
  | 'n' :: rest => some ('\n', rest)
  | 'f' :: rest => some ('\x0c', rest)
  | 'r' :: rest => some ('\r', rest)
  | '"' :: rest => some ('"', rest)
  | '\\' :: rest => some ('\\', rest)
  | 'u' :: rest => numberedChar 4 rest
  | 'U' :: rest => numberedChar 8 rest
  | _ => none

/-- The rest of a text of one line in double quotes. -/
def quotedLine : Nat → List Char → Option (List Char × List Char)
  | 0, _ => none
  | _, [] => none
  | fuel + 1, c :: rest =>
    if c == '"' then some ([], rest)
    else if c == '\\' then do
      let (char, rest) ← escapedChar rest
      let (tail, after) ← quotedLine fuel rest
      return (char :: tail, after)
    else if isPlain c then do
      let (tail, after) ← quotedLine fuel rest
      return (c :: tail, after)
    else none

/-- The rest of a text of one line in single quotes. -/
def literalLine : List Char → Option (List Char × List Char)
  | [] => none
  | c :: rest =>
    if c == '\'' then some ([], rest)
    else if isPlain c then (literalLine rest).map fun (tail, after) => (c :: tail, after)
    else none

/-- Whether a character is a blank or belongs to the end of a line. -/
def isSpace (c : Char) : Bool :=
  isBlank c || c == '\n' || c == '\r'

/-- The text behind blanks and line ends. -/
def skipSpaces : Nat → List Char → List Char
  | 0, cs => cs
  | fuel + 1, cs =>
    let cs := skipBlanks cs
    match afterLineEnd? cs with
    | some rest => skipSpaces fuel rest
    | none => cs

/-- The rest of a text of several lines. Up to two quotes may stand in front of the closing three.
A backslash at the end of a line swallows the blanks and line ends that follow. -/
def longText (quote : Char) : Nat → List Char → Option (List Char × List Char)
  | 0, _ => none
  | _, [] => none
  | fuel + 1, c :: rest =>
    let quotes := ((c :: rest).takeWhile (· == quote)).length
    if 3 ≤ quotes then
      if quotes ≤ 5 then some (List.replicate (quotes - 3) quote, (c :: rest).drop quotes)
      else none
    else if c == '\\' && quote == '"' then
      match afterLineEnd? (skipBlanks rest) with
      | some rest => longText quote fuel (skipSpaces rest.length rest)
      | none => do
        let (char, rest) ← escapedChar rest
        let (tail, after) ← longText quote fuel rest
        return (char :: tail, after)
    else
      match afterLineEnd? (c :: rest) with
      | some rest => do
        let (tail, after) ← longText quote fuel rest
        return ('\n' :: tail, after)
      | none =>
        if isPlain c then do
          let (tail, after) ← longText quote fuel rest
          return (c :: tail, after)
        else none

/-- The rest of a text of several lines, without a line end directly behind the opening quotes. -/
def longTextBody (quote : Char) (cs : List Char) : Option (List Char × List Char) :=
  let body := (afterLineEnd? cs).getD cs
  longText quote (body.length + 1) body

/-- A text at the start of a document part, if there is one. -/
def readText : List Char → Option (List Char × List Char)
  | '"' :: '"' :: '"' :: rest => longTextBody '"' rest
  | '"' :: rest => quotedLine (rest.length + 1) rest
  | '\'' :: '\'' :: '\'' :: rest => longTextBody '\'' rest
  | '\'' :: rest => literalLine rest
  | _ => none

/-- Whether a character may stand in a bare key. -/
def isKeyChar (c : Char) : Bool :=
  c.isAlphanum || c == '_' || c == '-'

/-- A single key. -/
def readKey (cs : List Char) : Option (String × List Char) :=
  match cs with
  | '"' :: rest => (quotedLine (rest.length + 1) rest).map fun (key, after) =>
    (String.ofList key, after)
  | '\'' :: rest => (literalLine rest).map fun (key, after) => (String.ofList key, after)
  | _ =>
    let key := cs.takeWhile isKeyChar
    if key.isEmpty then none else some (String.ofList key, cs.dropWhile isKeyChar)

/-- Keys with dots between them. -/
def readKeys : Nat → List Char → Option (List String × List Char)
  | 0, _ => none
  | fuel + 1, cs => do
    let (key, rest) ← readKey (skipBlanks cs)
    match skipBlanks rest with
    | '.' :: rest => do
      let (keys, after) ← readKeys fuel rest
      return (key :: keys, after)
    | rest => return ([key], rest)

/-- The bound on the length of paths and on the depth of values. -/
def nestingLimit : Nat := 80

/-- A path of keys. -/
def readPath (cs : List Char) : Option (List String × List Char) :=
  (readKeys nestingLimit cs).filter fun (keys, _) => keys.length < nestingLimit

end ChangeFeed.Toml
