import ChangeFeed.Applier
import ChangeFeed.Channel
import ChangeFeed.Checkpoint.Persister
import ChangeFeed.Feed.Loop

/-!
# The pipeline of a job

A read loop pushes records into a channel, an applier writes them and acknowledges what is
flushed, and a persister saves what is acknowledged; what is saved is durable, and only that is
confirmed to the server. `Pipeline.step` is one transition of one of the parts. The order in which
the parts take turns is not fixed.
-/

namespace ChangeFeed

/-- What a pipeline runs with. -/
structure PipelineContext where
  feed : FeedContext
  /-- The milliseconds between the looks of the persister. -/
  interval : Nat
  /-- The records that the applier writes between flushes at most. -/
  flushEvery : Nat

/-- The parts of a job that runs. -/
structure Pipeline where
  loop : Loop
  channel : Channel Record
  applier : Applier
  persister : Persister
  /-- Whether the persister is told to end. -/
  endAsked : Bool

/-- A turn of one of the parts. -/
inductive Turn where
  /-- The read loop goes on with what the world answers. -/
  | read (event : LoopEvent)
  /-- The read loop learns how its push went. -/
  | learn
  /-- The applier takes the next record, or meets the end of the channel. -/
  | take
  /-- The output has taken a record or not. -/
  | wrote (result : Except FileFault Unit)
  /-- The output has flushed or not. -/
  | flushed (result : Except FileFault Unit)
  /-- The persister goes on with what the world answers. -/
  | persist (event : PersisterEvent)
  /-- Somebody asks the read loop to stop. -/
  | stop
  /-- The persister is told to end, after the other parts have ended. -/
  | wrapUp

namespace PipelineContext

/-- The pipeline that starts over a channel, where everything up to the start of the feed is
durable. -/
def pipeline (c : PipelineContext) (channel : Channel Record) : Pipeline where
  loop := c.feed.loop
  channel := channel
  applier := .start c.feed.start
  persister := .start c.feed.start
  endAsked := false

end PipelineContext

namespace Pipeline

/-- What the persister sees when it looks around. -/
def acknowledged (p : Pipeline) : Acknowledged :=
  ⟨p.applier.acknowledged, p.applier.isFinished, p.endAsked⟩

/-- The pipeline with the read loop after a transition. A loop that has come to a push starts it. -/
def withLoop (p : Pipeline) (loop : Loop) : Pipeline :=
  match loop.control with
  | .pushing records _ _ => { p with loop := loop, channel := p.channel.push records }
  | _ => { p with loop := loop }

/-- The pipeline with the applier after a transition. An applier that has ended lets the channel
go. -/
def withApplier (p : Pipeline) (applier : Applier) : Pipeline :=
  let channel := if applier.isFinished then p.channel.discard else p.channel
  { p with applier := applier, channel := channel }

/-- Gives an event to the read loop. -/
def giveLoop (c : PipelineContext) (p : Pipeline) (event : LoopEvent) : Option Loop :=
  p.loop.step c.feed (some p.persister.durable) event

/-- Gives an event to the applier. -/
def giveApplier (c : PipelineContext) (p : Pipeline) (event : ApplierEvent) : Option Applier :=
  p.applier.step c.flushEvery event

/-- One transition. There is none for a turn that cannot be taken. -/
def step (c : PipelineContext) (p : Pipeline) : Turn → Option Pipeline
  | .read (.pushed _) => none
  | .read event => (p.giveLoop c event).map p.withLoop
  | .learn =>
    match p.channel.lastPush? with
    | some .pushed =>
      (p.giveLoop c (.pushed true)).map fun loop => { p with loop := loop }
    | some .closed =>
      (p.giveLoop c (.pushed false)).map fun loop => { p with loop := loop }
    | _ => none
  | .take =>
    match p.channel.receive with
    | (some record, channel) =>
      (p.giveApplier c (.received record)).map { p with channel := channel }.withApplier
    | (none, _) =>
      if p.channel.isDrained p.loop.isFinished then
        (p.giveApplier c .ended).map p.withApplier
      else none
  | .wrote result =>
    (p.giveApplier c (.wrote result p.channel.buffered.isEmpty)).map p.withApplier
  | .flushed result => (p.giveApplier c (.flushed result)).map p.withApplier
  | .persist event =>
    (p.persister.step c.interval p.acknowledged event).map fun persister =>
      { p with persister := persister }
  | .stop => some { p with loop := p.loop.stop }
  | .wrapUp =>
    if p.loop.isFinished ∧ p.applier.isFinished ∧ ¬p.endAsked then some { p with endAsked := true }
    else none

/-- How a job has ended whose parts have ended. A failure of the applier comes before one of the
persister, and that before one of the feed. -/
def result? (jobId : String) (p : Pipeline) : Option (Except Failure Position) := do
  let outcome ← p.loop.result?
  match ← p.applier.result? with
  | .error failure => return .error failure
  | .ok _ =>
    match ← p.persister.outcome? with
    | .broken =>
      return .error ((Failure.ofCause .broken).within "Checkpoint persister task panicked")
    | .ended (.error failure) => return .error failure
    | .ended (.ok ()) =>
      return inContext ("Job '" ++ jobId ++ "' failed") (outcome.mapError FeedFault.failure)

end Pipeline

end ChangeFeed
