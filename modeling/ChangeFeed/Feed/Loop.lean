import ChangeFeed.Feed.Lifecycle
import ChangeFeed.Feed.Settings
import ChangeFeed.Plugin.Basic
import ChangeFeed.Record.Converter
import ChangeFeed.Session.DeliveryLog
import ChangeFeed.TransactionBuffer

/-!
# The read loop

The loop of a feed as a machine. Its control point says what it does next or waits for, and an
event is what the world answers: a session that opens or fails, a message, a push that went
through, a wait that is over. `Loop.step` is one transition.

A request to stop is looked at where the loop is about to open, to poll or to rest, and while it
waits for that; a confirm, a push and a close are never cut short.
-/

namespace ChangeFeed

/-- What a feed reads with, and where it starts. -/
structure FeedContext where
  settings : FeedSettings
  plugin : Plugin
  converter : Converter
  start : Position

/-- The control point of a read loop with the values that live across it. -/
inductive Control where
  /-- About to open a session. -/
  | starting
  /-- Waiting for a session that goes on from a position. -/
  | opening (resume : Position)
  /-- At the head of the inner loop; everything up to a position is confirmed. -/
  | attending (confirmed : Position)
  /-- Waiting for the server to take a durable position. -/
  | confirming (target : Position)
  /-- About to poll. -/
  | ready (confirmed : Position)
  | polling (confirmed : Position)
  /-- Waiting for the channel to take a batch that ends at a position. -/
  | pushing (records : List Record) (last confirmed : Position)
  /-- About to rest because nothing was pending. -/
  | pausing (confirmed : Position)
  | idling (confirmed : Position)
  /-- Waiting for the session to close. -/
  | closing (outcome : Except FeedFault Unit)
  /-- About to wait after a failure. -/
  | shaken
  | backingOff
  | finished (result : Except FeedFault Position)

/-- A read loop. -/
structure Loop where
  /-- The greatest position of what was pushed; observers see it too. -/
  position : Position
  /-- The session failures since the last poll that succeeded. -/
  failures : Nat
  buffer : TransactionBuffer
  lifecycle : Lifecycle
  /-- Whether somebody has asked the loop to stop. -/
  stopAsked : Bool
  control : Control

/-- What the world answers to a read loop. -/
inductive LoopEvent where
  /-- Nothing: the loop goes on by itself. -/
  | next
  | opened (result : Except SessionFault Unit)
  | confirmed (result : Except SessionFault Unit)
  | polled (result : Except SessionFault (Option Message))
  /-- The channel has taken the batch or is closed. -/
  | pushed (taken : Bool)
  /-- The session is closed, or closing it failed; either way it is gone. -/
  | closed (result : Except SessionFault Unit)
  /-- A wait is over. -/
  | woke
  /-- The loop sees that it should stop. -/
  | stopSeen

/-- A batch of records and the greatest position of its events. -/
structure Batch where
  records : List Record
  last : Position

namespace FeedContext

/-- The read loop of a feed that starts. -/
def loop (c : FeedContext) : Loop where
  position := c.start
  failures := 0
  buffer := .empty c.settings.grouped
  lifecycle := .running
  stopAsked := false
  control := .starting

/-- Where a session goes on: from the durable position, or from the last push if durability is not
tracked. -/
def resume (c : FeedContext) (durable : Option Position) (loop : Loop) : Position :=
  match durable with
  | some position => max position c.start
  | none => loop.position

/-- The greatest position of events. -/
def lastPosition (events : List Event) (otherwise : Position) : Position :=
  match events with
  | [] => otherwise
  | event :: rest => rest.foldl (fun last event => max last event.position) event.position

/-- What a message adds: the buffer after it, and the batch that it completes. A session that was
opened anew repeats transactions, and those that were pushed before are skipped. -/
def receive (c : FeedContext) (loop : Loop) (message : Message) :
    Except FeedFault (TransactionBuffer × Option Batch) := do
  let event ← (c.plugin.decode message.position message.data).mapError .decode
  let (buffer, events) ← (loop.buffer.offer event).mapError .decode
  match events with
  | none => return (buffer, none)
  | some events =>
    let last := lastPosition events message.position
    if buffer.grouped ∧ last ≤ loop.position then return (buffer, none)
    else
      let records ← c.converter.convertAll events
      return (buffer, some ⟨records, last⟩)

end FeedContext

namespace Loop

/-- The loop at another control point. -/
def goTo (loop : Loop) (control : Control) : Loop :=
  { loop with control := control }

/-- The loop in another state of its life. -/
def become (loop : Loop) (next : Lifecycle) : Loop :=
  { loop with lifecycle := next.moveTo loop.lifecycle }

/-- Asks the loop to stop. -/
def stop (loop : Loop) : Loop :=
  { loop with lifecycle := loop.lifecycle.askToStop, stopAsked := true }

/-- The end of a loop that was asked to stop. -/
def finish (loop : Loop) : Loop :=
  (loop.become .stopped).goTo (.finished (.ok loop.position))

/-- The end of a loop that cannot go on. -/
def fail (loop : Loop) (fault : FeedFault) : Loop :=
  (loop.become .failed).goTo (.finished (.error fault))

/-- After a failure of a session: the loop gives up if there were too many in a row. What was
received of an open transaction is forgotten, because the next session repeats it. -/
def shake (loop : Loop) (policy : ReconnectPolicy) (fault : SessionFault) : Loop :=
  let failures := loop.failures + 1
  let loop := { loop with failures := failures }
  if policy.maxAttempts ≤ failures then loop.fail (.exhausted failures fault)
  else
    let loop := loop.become (.reconnecting failures)
    { loop with buffer := loop.buffer.reset, control := .shaken }

/-- After a poll that succeeded. -/
def recover (loop : Loop) : Loop :=
  if loop.failures = 0 then loop else { loop with failures := 0 }.become .running

/-- After a message was dealt with: without a durable feed, what was pushed counts as durable. -/
def settle (loop : Loop) (durable : Option Position) (confirmed : Position) : Loop :=
  if durable.isNone ∧ confirmed < loop.position then loop.goTo (.confirming loop.position)
  else loop.goTo (.attending confirmed)

/-- Deals with a message. -/
def take (c : FeedContext) (durable : Option Position) (loop : Loop) (confirmed : Position)
    (message : Message) : Loop :=
  match c.receive loop message with
  | .error fault => loop.goTo (.closing (.error fault))
  | .ok (buffer, none) => { loop with buffer := buffer }.settle durable confirmed
  | .ok (buffer, some batch) =>
    { loop with buffer := buffer }.goTo (.pushing batch.records batch.last confirmed)

/-- The loop goes on to where it may wait, unless it was asked to stop. -/
def unlessStopped (loop : Loop) (ending : Loop → Loop) (control : Control) : Loop :=
  if loop.stopAsked then ending loop else loop.goTo control

/-- Leaves the session because of a request to stop. -/
def leave (loop : Loop) : Loop :=
  loop.goTo (.closing (.ok ()))

/-- One transition of a read loop; `durable` is the durable feed at this moment, if there is one.
There is none for an event that the control point does not wait for. -/
def step (c : FeedContext) (durable : Option Position) (loop : Loop) (event : LoopEvent) :
    Option Loop :=
  match loop.control, event with
  | .starting, .next =>
    some (loop.unlessStopped finish (.opening (c.resume durable loop)))
  | .opening _, .opened (.ok ()) => some (loop.goTo (.attending (c.resume durable loop)))
  | .opening _, .opened (.error fault) => some (loop.shake c.settings.reconnect fault)
  | .opening _, .stopSeen => if loop.stopAsked then some loop.finish else none
  | .attending confirmed, .next =>
    match durable with
    | some position =>
      if confirmed < position then some (loop.goTo (.confirming position))
      else some (loop.goTo (.ready confirmed))
    | none => some (loop.goTo (.ready confirmed))
  | .confirming target, .confirmed (.ok ()) => some (loop.goTo (.ready target))
  | .confirming _, .confirmed (.error fault) =>
    some (loop.goTo (.closing (.error (.session fault))))
  | .ready confirmed, .next => some (loop.unlessStopped leave (.polling confirmed))
  | .polling confirmed, .polled (.ok none) => some (loop.recover.goTo (.pausing confirmed))
  | .polling confirmed, .polled (.ok (some message)) =>
    some (take c durable loop.recover confirmed message)
  | .polling _, .polled (.error fault) =>
    some (loop.goTo (.closing (.error (.session fault))))
  | .polling _, .stopSeen => if loop.stopAsked then some loop.leave else none
  | .pushing _ last confirmed, .pushed true =>
    some ({ loop with position := max loop.position last }.settle durable confirmed)
  | .pushing _ _ _, .pushed false => some (loop.goTo (.closing (.error .channelClosed)))
  | .pausing confirmed, .next => some (loop.unlessStopped leave (.idling confirmed))
  | .idling confirmed, .woke => some (loop.goTo (.attending confirmed))
  | .idling _, .stopSeen => if loop.stopAsked then some loop.leave else none
  | .closing (.ok ()), .closed _ => some loop.finish
  | .closing (.error (.session fault)), .closed _ =>
    some (loop.shake c.settings.reconnect fault)
  | .closing (.error fault), .closed _ => some (loop.fail fault)
  | .shaken, .next => some (loop.unlessStopped finish .backingOff)
  | .backingOff, .woke => some (loop.goTo .starting)
  | .backingOff, .stopSeen => if loop.stopAsked then some loop.finish else none
  | _, _ => none

/-- Whether the loop has ended. -/
def isFinished (loop : Loop) : Bool :=
  match loop.control with
  | .finished _ => true
  | _ => false

/-- How the loop has ended. -/
def result? (loop : Loop) : Option (Except FeedFault Position) :=
  match loop.control with
  | .finished result => some result
  | _ => none

end Loop

end ChangeFeed
