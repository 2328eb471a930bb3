import ChangeFeed.Connection.Redacted
import ChangeFeed.Connection.Settings
import ChangeFeed.Feed.Fault
import ChangeFeed.Json.Canonical
import ChangeFeed.Json.Shape
import ChangeFeed.Text.Quoted

/-!
# Data sources

Where changes are read from: one server, or a logical view of several. Only one server has a slot
to read, so a view is no source of a feed.
-/

namespace ChangeFeed

/-- Where changes are read from. -/
inductive DataSource where
  | standard (connection : String)
  /-- Names and connection strings of several servers, in ascending order of the names. -/
  | sharding (connections : List (String × String))
  deriving DecidableEq

namespace DataSource

/-- A source as a document. -/
def toJson : DataSource → Json
  | .standard connection =>
    .object [("type", .text "standard"), ("connection_string", .text connection)]
  | .sharding connections =>
    .object [("type", .text "sharding"),
      ("data_sources", .object (connections.map fun (name, connection) =>
        (name, .text connection)))]

/-- The texts under the names of an object. -/
def connectionsOf : Json → Option (List (String × String))
  | .object fields => do
    let connections ← fields.mapM fun (name, value) => value.toText?.map fun text => (name, text)
    return Json.sortedFields connections
  | _ => none

/-- The source that a document holds. -/
def ofJson? (json : Json) : Option DataSource := do
  let (name, body) ← Json.tagged "type" ["standard", "sharding"] false json
  if name = "standard" then
    let [some connection] ← Json.members [("connection_string", .required)] body | none
    return .standard (← connection.toText?)
  else
    let [some connections] ← Json.members [("data_sources", .required)] body | none
    return .sharding (← connectionsOf connections)

/-- How diagnostics show a source: without passwords. -/
def shown : DataSource → String
  | .standard connection =>
    "Standard \x7b connection_string: " ++ Text.quoted (Connection.redacted connection) ++ " \x7d"
  | .sharding connections =>
    let entries := connections.map fun (name, connection) =>
      Text.quoted name ++ ": " ++ Text.quoted (Connection.redacted connection)
    "Sharding \x7b data_sources: \x7b" ++ Text.joined ", " entries ++ "\x7d \x7d"

/-- The connection settings of a source that can be read. -/
def settings : DataSource → Except FeedFault Connection.Settings
  | .standard connection =>
    match Connection.Settings.read connection with
    | some settings => .ok settings
    | none => .error (.unsupportedSource ("invalid connection string " ++
        Connection.redacted connection ++ ": " ++ unstatedDetail))
  | .sharding connections =>
    .error (.unsupportedSource ("sharding data source with " ++
      Number.decimal connections.length ++
      " physical sources cannot be replicated directly"))

/-- The database of a source, or else its user. -/
def databaseName (source : DataSource) : Except FeedFault String := do
  let settings ← source.settings
  match settings.database.or settings.user with
  | some name => return name
  | none =>
    throw (.unsupportedSource "connection string names neither a database nor a user")

end DataSource

end ChangeFeed
