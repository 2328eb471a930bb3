import ChangeFeed.Connection.Target
import ChangeFeed.Job.Pipeline
import ChangeFeed.Job.Settings
import ChangeFeed.Schema.Document
import ChangeFeed.Schema.Lookup
import ChangeFeed.Session.Basic

/-!
# Running a job

How a job starts, what each part of its pipeline asks of the surroundings when it is its turn, and
how the job ends. A job starts from its checkpoint, with the definitions of its tables from a file
or from the server.
-/

namespace ChangeFeed

/-- What a job needs of the world, whose state is of any type. -/
structure Surroundings (σ : Type) where
  /-- Opens a connection, or says why it cannot be opened. -/
  connect : Connection.Settings → σ → Except (List Cause) Unit × σ
  /-- Answers statements over an open connection. -/
  server : Server σ
  /-- The content of a file. -/
  content : String → σ → Except FileFault String
  /-- The position that a job saved last. -/
  load : CheckpointStorage → String → σ → Except Failure (Option Position)
  /-- Saves the position of a job. -/
  save : CheckpointStorage → String → Position → σ → Except Failure Unit × σ
  /-- Writes a line to the output. -/
  write : String → σ → Except FileFault Unit × σ
  /-- Flushes the output. -/
  flush : σ → Except FileFault Unit × σ

/-- Why a job does not start. -/
inductive StartFault where
  | failure (failure : Failure)
  /-- There is no channel of the wanted capacity. -/
  | channel (fault : ChannelFault)

/-- A job that runs. -/
structure Job (σ : Type) where
  settings : JobSettings
  connection : Connection.Settings
  context : PipelineContext
  pipeline : Pipeline
  session : Option Session
  world : σ

namespace Job

variable {σ : Type}

/-! ## The start -/

/-- The definitions of the tables of a job. -/
def loadSchema (s : Surroundings σ) (settings : JobSettings) (world : σ) :
    Except Failure Schema × σ :=
  match settings.schemaFile with
  | some path =>
    let schema := (Schema.ofFile (s.content path world)).mapError SchemaFileFault.failure
    (inContext ("Failed to load schema file " ++ path) schema, world)
  | none =>
    match settings.source.settings with
    | .error fault => (.error fault.failure, world)
    | .ok connection =>
      match s.connect connection world with
      | (.error causes, world) =>
        (.error (Failure.within ("Failed to connect to " ++ settings.source.shown) ⟨causes⟩), world)
      | (.ok (), world) => Schema.load s.server settings.schema settings.tables world

/-- Checks a rate limit. A limiter has no say in what a job does, only in how fast. -/
def checkRateLimit : Option RateLimit → Except Failure Unit
  | none => .ok ()
  | some limit =>
    match RateLimiter.ofLimit limit with
    | .ok _ => .ok ()
    | .error fault => .error (FeedFault.rateLimit fault).failure

/-- The job over a channel, from its tables and a start position on. -/
def assemble (settings : JobSettings) (schema : Schema) (start : Position)
    (channel : Channel Record) (world : σ) : Except Failure (Job σ) := do
  let interval ← settings.checkpointMillis
  let feed ← settings.feedSettings
  let connection ← settings.source.settings.mapError FeedFault.failure
  checkRateLimit settings.rateLimit
  let context : PipelineContext :=
    { feed := ⟨feed, settings.plugin, ⟨schema, settings.tables⟩, start⟩
      interval := interval
      flushEvery := Applier.defaultFlushEvery }
  return {
    settings := settings
    connection := connection
    context := context
    pipeline := context.pipeline channel
    session := none
    world := world }

/-- Starts a job. -/
def start (s : Surroundings σ) (settings : JobSettings) (world : σ) :
    Except StartFault (Job σ) × σ :=
  match settings.validate with
  | .error failure => (.error (.failure failure), world)
  | .ok () =>
    match s.load settings.checkpoint settings.jobId world with
    | .error failure =>
      (.error (.failure (failure.within "Failed to load checkpoint")), world)
    | .ok saved =>
      match loadSchema s settings world with
      | (.error failure, world) => (.error (.failure failure), world)
      | (.ok schema, world) =>
        match Channel.create settings.channelCapacity with
        | .error fault => (.error (.channel fault), world)
        | .ok channel =>
          ((assemble settings schema (saved.getD .zero) channel world).mapError .failure, world)

/-! ## Turns -/

/-- The job after a turn of its pipeline. -/
def turn (job : Job σ) (turn : Turn) : Option (Job σ) :=
  (job.pipeline.step job.context turn).map fun pipeline => { job with pipeline := pipeline }

/-- Opens a session that goes on from a position. -/
def openSession (s : Surroundings σ) (job : Job σ) (resume : Position) :
    Except SessionFault Session × σ :=
  match s.connect job.connection job.world with
  | (.error causes, world) => (.error (.connect causes), world)
  | (.ok (), world) =>
    Session.open s.server job.context.feed.settings.slot job.context.feed.plugin
      Session.defaultPageSize resume world

/-- The job with its session after an exchange with the server. -/
def afterExchange (job : Job σ) (session : Session) (world : σ) : Job σ :=
  { job with session := some session, world := world }

/-- The turn of the read loop: what it waits for comes about, or it sees that it should stop. -/
def turnLoop (s : Surroundings σ) (job : Job σ) : Option (Job σ) :=
  let orStop (go : Option (Job σ)) : Option (Job σ) :=
    if job.pipeline.loop.stopAsked then job.turn (.read .stopSeen) else go
  match job.pipeline.loop.control, job.session with
  | .opening resume, _ => orStop <|
    match openSession s job resume with
    | (.ok session, world) => (job.afterExchange session world).turn (.read (.opened (.ok ())))
    | (.error fault, world) => { job with world := world }.turn (.read (.opened (.error fault)))
  | .confirming target, some session =>
    let (result, session, world) := session.confirm s.server target job.world
    (job.afterExchange session world).turn (.read (.confirmed result))
  | .polling _, some session => orStop <|
    let (result, session, world) := session.poll s.server job.world
    (job.afterExchange session world).turn (.read (.polled result))
  | .pushing _ _ _, _ => job.turn .learn
  | .idling _, _ => orStop (job.turn (.read .woke))
  | .backingOff, _ => orStop (job.turn (.read .woke))
  | .closing _, _ => { job with session := none }.turn (.read (.closed (.ok ())))
  | _, _ => job.turn (.read .next)

/-- The turn of the applier. -/
def turnApplier (s : Surroundings σ) (job : Job σ) : Option (Job σ) :=
  match job.pipeline.applier.control with
  | .receiving => job.turn .take
  | .writing record =>
    let (result, world) := s.write (Applier.lineOf record) job.world
    { job with world := world }.turn (.wrote result)
  | .flushing _ =>
    let (result, world) := s.flush job.world
    { job with world := world }.turn (.flushed result)
  | .finished _ => none

/-- The store takes a position, or fails to. -/
def saveCheckpoint (s : Surroundings σ) (job : Job σ) (target : Position) : Option (Job σ) :=
  let (result, world) := s.save job.settings.checkpoint job.settings.jobId target job.world
  { job with world := world }.turn (.persist (.saved result))

/-- The turn of the persister, which wakes if a tick is due or if it is told to end. -/
def turnPersister (s : Surroundings σ) (job : Job σ) (isDue : Bool) : Option (Job σ) :=
  match job.pipeline.persister.control with
  | .starting => job.turn (.persist .next)
  | .waiting => if isDue ∨ job.pipeline.endAsked then job.turn (.persist .woke) else none
  | .saving target => saveCheckpoint s job target
  | .savingLast target => saveCheckpoint s job target
  | .finished _ => none
  | .broken => none

/-- Asks the job to stop. -/
def stop (job : Job σ) : Option (Job σ) :=
  job.turn .stop

/-- How the job has ended, if it has. -/
def result? (job : Job σ) : Option (Except Failure Position) :=
  job.pipeline.result? job.settings.jobId

end Job

end ChangeFeed
