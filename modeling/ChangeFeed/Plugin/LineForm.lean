import ChangeFeed.Calendar.Read
import ChangeFeed.Plugin.Fault
import ChangeFeed.Plugin.Literal
import ChangeFeed.Text.Cut

/-!
# Messages in line form

The form of the `test_decoding` plugin: one line of text per message. `BEGIN` and `COMMIT` frame a
transaction; a row names its table, its operation and its columns, each as name, type in brackets
and literal.
-/

namespace ChangeFeed.Plugin.LineForm

/-- What follows a keyword that stands alone or before a space. -/
def afterKeyword (keyword : String) (cs : List Char) : Option (List Char) :=
  match Text.stripStart keyword.toList cs with
  | none => none
  | some [] => some []
  | some (' ' :: rest) => some (Text.trimStart rest)
  | some _ => none

/-- A transaction number, which may be missing. -/
def readXid (cs : List Char) : Except Malformation (Option UInt64) :=
  if cs.isEmpty then .ok none
  else
    match Number.readUInt64 cs with
    | .ok n => .ok (some n)
    | .error _ => .error (.invalidXid (String.ofList cs))

/-- The moment of a commit, given from its opening parenthesis on. -/
def readCommitTime (cs : List Char) : Except Malformation Calendar.Instant :=
  match (Text.stripStart "(at ".toList cs).bind (Text.stripEnd [')']) with
  | none => .error .unterminatedCommitTime
  | some inner =>
    match Calendar.readOffsetDateTime inner with
    | some time => .ok time
    | none => .error (.invalidCommitTime (String.ofList inner))

/-- Number and moment of a commit. -/
def readCommit (cs : List Char) :
    Except Malformation (Option UInt64 × Option Calendar.Instant) := do
  let (number, time) := match Text.cutAtText "(at ".toList cs with
    | some (before, after) => (Text.trimEnd before, some ("(at ".toList ++ after))
    | none => (cs, none)
  let time ← time.mapM readCommitTime
  let xid ← readXid number
  return (xid, time)

/-- The rest of a name behind its opening quote; a doubled quote belongs to the name. -/
def takeQuotedName : List Char → Option (List Char × List Char)
  | [] => none
  | '"' :: '"' :: rest => (takeQuotedName rest).map fun (name, after) => ('"' :: name, after)
  | '"' :: rest => some ([], rest)
  | c :: rest => (takeQuotedName rest).map fun (name, after) => (c :: name, after)

/-- A name: in double quotes, or up to one of the characters that end it. -/
def takeName (ends : List Char) (cs : List Char) : Option (List Char × List Char) :=
  match cs with
  | '"' :: rest => takeQuotedName rest
  | _ =>
    match Text.cutWhere (ends.contains ·) cs with
    | none => none
    | some ([], _, _) => none
    | some (name, found, after) => some (name, found :: after)

/-- The rest of a literal behind its opening quote, closing quote included. -/
def takeQuotedLiteral : List Char → Option (List Char × List Char)
  | [] => none
  | '\'' :: '\'' :: rest =>
    (takeQuotedLiteral rest).map fun (literal, after) => ('\'' :: '\'' :: literal, after)
  | '\'' :: rest => some (['\''], rest)
  | c :: rest => (takeQuotedLiteral rest).map fun (literal, after) => (c :: literal, after)

/-- A literal: in single quotes, or up to the next space. -/
def takeLiteral (cs : List Char) : Option (List Char × List Char) :=
  match cs with
  | '\'' :: rest =>
    (takeQuotedLiteral rest).map fun (literal, after) => ('\'' :: literal, after)
  | _ => some (cs.takeWhile (· != ' '), cs.dropWhile (· != ' '))

/-- The start of a text as errors show it. -/
def preview (cs : List Char) : String :=
  String.ofList (cs.take 40)

/-- The word between the old key and the new row of an update. -/
def newTupleMark : List Char := "new-tuple:".toList

/-- One column, and the text after it. -/
def takeColumn (cs : List Char) : Except Malformation (RawColumn × List Char) :=
  match takeName ['['] cs with
  | none => .error (.badColumnName (preview cs))
  | some (name, rest) =>
    let name := String.ofList name
    match rest with
    | '[' :: rest =>
      match Text.cutAtText [']', ':'] rest with
      | none => .error (.unterminatedType name)
      | some (typeName, rest) =>
        match takeLiteral rest with
        | none => .error (.unterminatedValue name)
        | some (literal, rest) =>
          .ok (⟨name, String.ofList typeName, literalValue literal⟩, rest)
    | _ => .error (.noColumnType name)

/-- At most `fuel` columns, up to the end or the mark of the new row, and the text after them. -/
def columnsWithin : Nat → List Char → Except Malformation (List RawColumn × List Char)
  | fuel, cs =>
    let cs := Text.trimStart cs
    if cs.isEmpty || newTupleMark.isPrefixOf cs then .ok ([], cs)
    else
      match fuel with
      | 0 => .error (.badColumnName (preview cs))
      | fuel + 1 => do
        let (column, rest) ← takeColumn cs
        let (columns, rest) ← columnsWithin fuel rest
        return (column :: columns, rest)

/-- Columns up to the end or the mark of the new row; each takes at least one character. -/
def takeColumns (cs : List Char) : Except Malformation (List RawColumn × List Char) :=
  columnsWithin cs.length cs

/-- A whole row, which may be left out. -/
def readTuple (cs : List Char) : Except Malformation (List RawColumn) :=
  let body := Text.trim cs
  if String.ofList body = "(no-tuple-data)" then .ok []
  else do
    let (columns, tail) ← takeColumns body
    if (Text.trim tail).isEmpty then return columns
    else throw (.trailingData (preview tail))

/-- The old key and the new row of an update. -/
def readUpdate (cs : List Char) : Except Malformation (List RawColumn × List RawColumn) := do
  match Text.stripStart "old-key:".toList cs with
  | none => return (← readTuple cs, [])
  | some old =>
    let (keys, tail) ← takeColumns old
    match Text.stripStart newTupleMark tail with
    | none => throw .oldKeyWithoutNewTuple
    | some rest => return (← readTuple rest, keys)

/-- Schema and table at the start of a text; the schema may be missing. -/
def takeTableName (cs : List Char) : Option ((String × String) × List Char) := do
  let (first, rest) ← takeName ['.', ':'] cs
  match rest with
  | '.' :: rest =>
    let (table, rest) ← takeName [':'] rest
    return ((String.ofList first, String.ofList table), rest)
  | rest => return (("", String.ofList first), rest)

/-- What a message about a table says. -/
def readTable (position : Position) (cs : List Char) : Except DecodeError Event := do
  let malformed {α : Type} (result : Except Malformation α) : Except DecodeError α :=
    result.mapError (.malformed position)
  let some ((schema, table), rest) := takeTableName cs
    | throw (.malformed position .badTableName)
  let some rest := Text.stripStart [':', ' '] rest
    | throw (.malformed position .noSeparatorAfterTable)
  let some (action, body) := Text.cutAt ':' rest
    | throw (.malformed position .noAction)
  let body := Text.trimStart body
  let row (kind : RowKind) (columns oldKeys : List RawColumn) : Event :=
    .row ⟨position, kind, schema, table, columns, oldKeys, none, none⟩
  match String.ofList action with
  | "INSERT" => return row .insert (← malformed (readTuple body)) []
  | "UPDATE" =>
    let (columns, oldKeys) ← malformed (readUpdate body)
    return row .update columns oldKeys
  | "DELETE" => return row .delete (← malformed (readTuple body)) []
  | "TRUNCATE" => return .placeholder position
  | _ =>
    throw (.ofUnrecognized position ("table action '".toList ++ action ++ ['\'']))

/-- The event of a message. -/
def read (position : Position) (message : List Char) : Except DecodeError Event :=
  let cs := Text.trimEnd message
  match afterKeyword "BEGIN" cs with
  | some rest => do
    let xid ← (readXid rest).mapError (.malformed position)
    return .begin position xid none
  | none =>
    match afterKeyword "COMMIT" cs with
    | some rest => do
      let (xid, time) ← (readCommit rest).mapError (.malformed position)
      return .commit position xid none time
    | none =>
      match Text.stripStart "table ".toList cs with
      | some rest => readTable position rest
      | none =>
        if "message:".toList.isPrefixOf cs then .ok (.placeholder position)
        else .error (.ofUnrecognized position cs)

end ChangeFeed.Plugin.LineForm
