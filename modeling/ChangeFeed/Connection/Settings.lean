import ChangeFeed.Connection.Address
import ChangeFeed.Text.Blank
import ChangeFeed.Text.Utf8

/-!
# Connection settings

Connection strings in their two forms. The first is a row of parameters, each a key, an equals
sign and a value, bare or in single quotes, with backslashes before characters taken as they are.
The second is a URL whose parts are percent-encoded. A parameter that is not known, or whose value
is out of its range, makes the string invalid.
-/

namespace ChangeFeed.Connection

/-- What a connection string says about the connection. -/
structure Settings where
  user : Option String
  database : Option String
  password : Option (List UInt8)
  /-- The hosts in order, as bytes; one that starts with a slash is a directory of sockets. -/
  hosts : List (List UInt8)
  addresses : List String
  ports : List Nat

namespace Settings

/-- Settings that say nothing. -/
def empty : Settings := ⟨none, none, none, [], [], []⟩

/-- The values of parameters that choose among words. -/
def choices : List (String × List String) :=
  [("sslmode", ["disable", "prefer", "require"]),
    ("sslnegotiation", ["postgres", "direct"]),
    ("target_session_attrs", ["any", "read-write", "read-only"]),
    ("channel_binding", ["disable", "prefer", "require"]),
    ("load_balance_hosts", ["disable", "random"])]

/-- Parameters that are texts without consequence here. -/
def texts : List String := ["options", "application_name"]

/-- Parameters that are signed numbers of 64 bits. -/
def signedNumbers : List String :=
  ["connect_timeout", "tcp_user_timeout", "keepalives_idle", "keepalives_interval"]

/-- Whether a text is a signed number of 64 bits. -/
def isSigned (cs : List Char) : Bool :=
  (Number.readInt (Nat.pow 2 63) (Nat.pow 2 63 - 1) cs).toOption.isSome

/-- Whether a text is a natural number up to a bound. -/
def isNatural (bound : Nat) (cs : List Char) : Bool :=
  (Number.readNat 10 bound cs).toOption.isSome

/-- A port; an empty one is the usual port. -/
def portOf (cs : List Char) : Option Nat :=
  if cs.isEmpty then some 5432 else (Number.readNat 10 65535 cs).toOption

/-- Sets a parameter. -/
def set (s : Settings) (key : String) (value : List Char) : Option Settings :=
  match key with
  | "user" => some { s with user := some (String.ofList value) }
  | "password" => some { s with password := some (Text.toUtf8 value) }
  | "dbname" => some { s with database := some (String.ofList value) }
  | "host" => some { s with hosts := s.hosts ++ (Text.parts ',' value).map Text.toUtf8 }
  | "hostaddr" =>
    let addresses := Text.parts ',' value
    if addresses.all isAddress then
      some { s with addresses := s.addresses ++ addresses.map String.ofList }
    else none
  | "port" => do
    let ports ← (Text.parts ',' value).mapM portOf
    return { s with ports := s.ports ++ ports }
  | "keepalives" => if isNatural (Nat.pow 2 64 - 1) value then some s else none
  | "keepalives_retries" => if isNatural (Nat.pow 2 32 - 1) value then some s else none
  | _ =>
    if texts.contains key then some s
    else if signedNumbers.contains key then if isSigned value then some s else none
    else
      match choices.lookup key with
      | some words => if words.contains (String.ofList value) then some s else none
      | none => none

end Settings

/-! ## Rows of parameters -/

/-- A bare value: up to the next blank; a backslash takes the next character as it is. -/
def bareValue : List Char → List Char × List Char
  | '\\' :: c :: rest =>
    let (value, after) := bareValue rest
    (c :: value, after)
  | ['\\'] => ([], [])
  | c :: rest =>
    if Text.isBlank c then ([], c :: rest)
    else
      let (value, after) := bareValue rest
      (c :: value, after)
  | [] => ([], [])

/-- The rest of a quoted value behind its opening quote. -/
def quotedValue : List Char → Option (List Char × List Char)
  | '\\' :: c :: rest => (quotedValue rest).map fun (value, after) => (c :: value, after)
  | ['\\'] => none
  | '\'' :: rest => some ([], rest)
  | c :: rest => (quotedValue rest).map fun (value, after) => (c :: value, after)
  | [] => none

/-- A value, which must not be empty unless it is quoted. -/
def parameterValue (cs : List Char) : Option (List Char × List Char) :=
  match cs with
  | '\'' :: rest => quotedValue rest
  | _ =>
    match bareValue cs with
    | ([], _) => none
    | found => some found

/-- Whether a character belongs to a key. -/
def isKeyChar (c : Char) : Bool :=
  !Text.isBlank c && c != '='

/-- Sets the parameters of a text. A text that goes on with an equals sign ends there. At most
`fuel` parameters are read. -/
def setParameters : Nat → Settings → List Char → Option Settings
  | 0, _, _ => none
  | fuel + 1, s, cs => do
    let cs := Text.trimStart cs
    let key := cs.takeWhile isKeyChar
    if key.isEmpty then return s
    else
      let '=' :: cs := Text.trimStart (cs.dropWhile isKeyChar) | none
      let (value, cs) ← parameterValue (Text.trimStart cs)
      let s ← s.set (String.ofList key) value
      setParameters fuel s cs

/-! ## URLs -/

/-- Bytes with every percent sign and two hexadecimal digits made one byte. -/
def percentDecoded : List UInt8 → List UInt8
  | 0x25 :: high :: low :: rest =>
    match Number.digitValue? 16 (Char.ofNat high.toNat),
        Number.digitValue? 16 (Char.ofNat low.toNat) with
    | some h, some l => UInt8.ofNat (16 * h + l) :: percentDecoded rest
    | _, _ => 0x25 :: percentDecoded (high :: low :: rest)
  | byte :: rest => byte :: percentDecoded rest
  | [] => []

/-- A percent-encoded text. -/
def decoded (cs : List Char) : Option (List Char) :=
  (Text.ofUtf8 (percentDecoded (Text.toUtf8 cs))).toOption

/-- Adds a percent-encoded host. A directory may be any bytes, a name must be a text. -/
def addHost (s : Settings) (cs : List Char) : Option Settings :=
  let bytes := percentDecoded (Text.toUtf8 cs)
  if bytes.head? = some 0x2F ∨ (Text.ofUtf8 bytes).toOption.isSome then
    some { s with hosts := s.hosts ++ [bytes] }
  else none

/-- What stands before the first of some characters, and the text from there on; without one of
them, everything. -/
def upTo (ends : List Char) (cs : List Char) : List Char × List Char :=
  (cs.takeWhile (!ends.contains ·), cs.dropWhile (!ends.contains ·))

/-- Adds the user and the password in front of an at sign, if there is one. -/
def addCredentials (s : Settings) (cs : List Char) : Option (Settings × List Char) :=
  match Text.cutAt '@' cs with
  | none => some (s, cs)
  | some (credentials, rest) =>
    match Text.cutAt ':' credentials with
    | none => do
      let user ← decoded credentials
      return ({ s with user := some (String.ofList user) }, rest)
    | some (user, password) => do
      let user ← decoded user
      return ({ s with
        user := some (String.ofList user)
        password := some (percentDecoded (Text.toUtf8 password)) }, rest)

/-- Host and port of one entry of a host list. A host in brackets may hold colons. -/
def hostAndPort (cs : List Char) : Option (List Char × Option (List Char)) :=
  match cs with
  | '[' :: _ => do
    let (front, rest) ← Text.cutAt ']' cs
    match rest with
    | [] => some (front.drop 1, none)
    | ':' :: port => some (front.drop 1, some port)
    | _ => none
  | _ =>
    match Text.cutAt ':' cs with
    | some (host, port) => some (host, some port)
    | none => some (cs, none)

/-- Adds the entries of a host list. -/
def addHosts : Settings → List (List Char) → Option Settings
  | s, [] => some s
  | s, entry :: rest => do
    let (host, port) ← hostAndPort entry
    let s ← addHost s host
    let port ← decoded (port.getD "5432".toList)
    let s ← s.set "port" port
    addHosts s rest

/-- Adds the hosts in front of the next slash or question mark. -/
def addHostList (s : Settings) (cs : List Char) : Option (Settings × List Char) :=
  let (hosts, rest) := upTo ['/', '?'] cs
  if hosts.isEmpty then some (s, rest)
  else (addHosts s (Text.parts ',' hosts)).map (·, rest)

/-- Adds the database behind a slash, up to the next question mark. -/
def addDatabase (s : Settings) (cs : List Char) : Option (Settings × List Char) :=
  match cs with
  | '/' :: cs =>
    let (database, rest) := upTo ['?'] cs
    if database.isEmpty then some (s, rest)
    else (decoded database).map fun database =>
      ({ s with database := some (String.ofList database) }, rest)
  | _ => some (s, cs)

/-- Sets the parameters behind a question mark. At most `fuel` of them are read. -/
def setQuery : Nat → Settings → List Char → Option Settings
  | 0, _, _ => none
  | fuel + 1, s, cs =>
    if cs.isEmpty then some s
    else do
      let (key, rest) ← Text.cutAt '=' cs
      let key ← decoded key
      let (value, rest) := upTo ['&'] rest
      let s ←
        if String.ofList key = "host" then addHost s value
        else do
          let value ← decoded value
          s.set (String.ofList key) value
      setQuery fuel s (rest.drop 1)

/-- The settings of a URL from behind its scheme on. -/
def ofUrl (cs : List Char) : Option Settings := do
  let (s, cs) ← addCredentials .empty cs
  let (s, cs) ← addHostList s cs
  let (s, cs) ← addDatabase s cs
  match cs with
  | '?' :: cs => setQuery (cs.length + 1) s cs
  | _ => some s

/-- What follows the scheme of a URL. -/
def afterScheme (cs : List Char) : Option (List Char) :=
  (Text.stripStart "postgres://".toList cs).or (Text.stripStart "postgresql://".toList cs)

/-- The settings of a connection string. -/
def Settings.read (text : String) : Option Settings :=
  match afterScheme text.toList with
  | some rest => ofUrl rest
  | none => setParameters (text.toList.length + 1) .empty text.toList

end ChangeFeed.Connection
