import ChangeFeed.Checkpoint.Store
import ChangeFeed.DataSource
import ChangeFeed.Duration
import ChangeFeed.Feed.Settings
import ChangeFeed.Plugin.Basic
import ChangeFeed.Session.SlotName
import ChangeFeed.Toml.Read

/-!
# Job settings

What a job file says. Fields that the file leaves out have defaults, and the file must not have
fields that are not known. Durations stay texts until they are asked for; a job whose settings are
valid has good ones.
-/

namespace ChangeFeed

/-- How a job gets over session failures, as its file says it. -/
structure ReconnectSettings where
  maxAttempts : Nat
  backoff : String
  idleBackoff : String
  deriving DecidableEq, Repr

/-- The settings of a job. -/
structure JobSettings where
  jobId : String
  source : DataSource
  plugin : Plugin
  /-- Whether a transaction is delivered as a whole. -/
  grouped : Bool
  /-- The schema whose tables are looked up. -/
  schema : String
  /-- The tables to follow; an empty list follows all. -/
  tables : List String
  /-- A file with the definitions of the tables, in place of a look-up. -/
  schemaFile : Option String
  channelCapacity : Nat
  /-- The slot, in place of the one named after database and job. -/
  slot : Option String
  reconnect : ReconnectSettings
  checkpoint : CheckpointStorage
  checkpointInterval : String
  rateLimit : Option RateLimit
  deriving DecidableEq

namespace ReconnectSettings

/-- The settings of a job that says nothing. -/
def default : ReconnectSettings := ⟨5, "5s", "10ms"⟩

/-- The policy that the settings describe. -/
def policy (s : ReconnectSettings) : Except Failure ReconnectPolicy := do
  if s.maxAttempts = 0 then throw (.ofMessage "reconnect.max_attempts must be at least 1")
  let backoff ← inContext "Invalid reconnect.backoff"
    ((Duration.read s.backoff).mapError Duration.Fault.failure)
  let idleBackoff ← inContext "Invalid reconnect.idle_backoff"
    ((Duration.read s.idleBackoff).mapError Duration.Fault.failure)
  return ⟨s.maxAttempts, backoff, idleBackoff⟩

/-- The settings that a part of a job file holds. -/
def ofJson? (json : Json) : Option ReconnectSettings := do
  let [maxAttempts, backoff, idleBackoff] ← Json.knownMembers
    [("max_attempts", .defaulted), ("backoff", .defaulted), ("idle_backoff", .defaulted)]
    json | none
  return {
    maxAttempts := ← maxAttempts.elim (some default.maxAttempts) (Json.toNatBelow? (Nat.pow 2 32))
    backoff := ← backoff.elim (some default.backoff) Json.toText?
    idleBackoff := ← idleBackoff.elim (some default.idleBackoff) Json.toText? }

end ReconnectSettings

namespace JobSettings

/-- The settings of a job that only names itself and its source. -/
def ofSource (jobId : String) (source : DataSource) : JobSettings where
  jobId := jobId
  source := source
  plugin := .default
  grouped := true
  schema := "public"
  tables := []
  schemaFile := none
  channelCapacity := 10000
  slot := none
  reconnect := .default
  checkpoint := .default
  checkpointInterval := "1s"
  rateLimit := none

/-- The plugin that a part of a job file names: its name, or an empty part under its name. -/
def pluginOf : Json → Option Plugin
  | .text name => Plugin.ofName? name
  | .object [(name, .object [])] => Plugin.ofName? name
  | .object [(name, .list [])] => Plugin.ofName? name
  | _ => none

/-- The fields of a job file. -/
def fields : List (String × Json.Presence) :=
  [("job_id", .required), ("data_source", .required), ("plugin", .defaulted),
    ("decode_with_tx", .defaulted), ("schema", .defaulted), ("tables", .defaulted),
    ("schema_file", .defaulted), ("channel_capacity", .defaulted), ("slot_name", .defaulted),
    ("reconnect", .defaulted), ("checkpoint", .defaulted), ("checkpoint_interval", .defaulted),
    ("rate_limit", .defaulted)]

/-- The settings that a job file holds. -/
def ofJson? (json : Json) : Option JobSettings := do
  let [some jobId, some source, plugin, grouped, schema, tables, schemaFile, channelCapacity,
    slot, reconnect, checkpoint, checkpointInterval, rateLimit] ←
      Json.knownMembers fields json | none
  let default := ofSource (← jobId.toText?) (← DataSource.ofJson? source)
  return { default with
    plugin := ← plugin.elim (some default.plugin) pluginOf
    grouped := ← grouped.elim (some default.grouped) Json.toBool?
    schema := ← schema.elim (some default.schema) Json.toText?
    tables := ← tables.elim (some default.tables) (Json.toListOf? Json.toText?)
    schemaFile := ← schemaFile.elim (some none) fun value => value.toText?.map some
    channelCapacity := ← channelCapacity.elim (some default.channelCapacity)
      (Json.toNatBelow? (Nat.pow 2 64))
    slot := ← slot.elim (some none) fun value => value.toText?.map some
    reconnect := ← reconnect.elim (some default.reconnect) ReconnectSettings.ofJson?
    checkpoint := ← checkpoint.elim (some default.checkpoint) CheckpointStorage.ofJson?
    checkpointInterval := ← checkpointInterval.elim (some default.checkpointInterval) Json.toText?
    rateLimit := ← rateLimit.elim (some none) fun value => (RateLimit.ofJson? value).map some }

/-- The time between two looks at what is to be saved. -/
def checkpointMillis (s : JobSettings) : Except Failure Nat :=
  inContext "Invalid checkpoint_interval"
    ((Duration.read s.checkpointInterval).mapError Duration.Fault.failure)

/-- Whether a job can run with the settings. -/
def validate (s : JobSettings) : Except Failure Unit := do
  if (Text.trim s.jobId.toList).isEmpty then throw (.ofMessage "job_id must not be empty")
  if s.channelCapacity = 0 then throw (.ofMessage "channel_capacity must be positive")
  let _ ← s.reconnect.policy
  let _ ← s.checkpointMillis

/-- The valid settings in the text of a job file. -/
def read (text : String) : Except Failure JobSettings := do
  match (Toml.read text).bind ofJson? with
  | none => throw (.ofCause .jobFile)
  | some settings =>
    settings.validate
    return settings

/-- The valid settings in a job file. -/
def ofFile (tree : FileTree) (path : String) : Except Failure JobSettings := do
  let content ← inContext ("Failed to read job config " ++ path)
    ((tree.read path).mapError fun fault => .ofCause (.file fault))
  inContext ("Invalid job config " ++ path) (read content)

/-- The slot of the job. -/
def slotName (s : JobSettings) : Except Failure String := do
  match s.slot with
  | some slot => return slot
  | none =>
    let database ← s.source.databaseName.mapError FeedFault.failure
    return SlotName.ofJob database s.jobId

/-- The settings of the job's feed. -/
def feedSettings (s : JobSettings) : Except Failure FeedSettings := do
  let slot ← s.slotName
  let policy ← s.reconnect.policy
  return ⟨s.jobId, slot, s.grouped, policy⟩

end JobSettings

end ChangeFeed
