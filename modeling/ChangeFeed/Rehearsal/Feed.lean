import ChangeFeed.Channel
import ChangeFeed.Feed.Loop
import ChangeFeed.Rehearsal.Clock

/-!
# Rehearsals of a feed

A feed that runs on scripted sessions in rehearsed time. A script says how long a session takes to
open, what each poll gives and which confirms fail; when the scripts are used up, no session opens.
-/

namespace ChangeFeed.Rehearsal

/-- What a poll meets. -/
inductive PollStep where
  | delay (millis : Nat)
  | idle
  | fault (fault : SessionFault)
  | message (message : Message)

/-- The script of a session. -/
structure SessionScript where
  openDelay : Nat
  openFault : Option SessionFault
  polls : List PollStep
  /-- Which of the confirms fail; those behind the end of the list succeed. -/
  confirms : List (Option SessionFault)

/-- The script of a session when there is none left. -/
def SessionScript.refused : SessionScript :=
  ⟨0, some (.disconnected "connection refused"), [], []⟩

/-- A rehearsal of a feed. -/
structure FeedRun where
  context : FeedContext
  loop : Loop
  channel : Channel Record
  /-- The durable feed, if there is one. -/
  durable : Option Position
  now : Nat
  /-- When the wait that is under way is over. -/
  due : Nat
  session : SessionScript
  scripts : List SessionScript
  /-- The positions of all opens. -/
  opens : List Position
  /-- The positions of all confirms that succeeded. -/
  confirmed : List Position
  closes : Nat

namespace FeedRun

/-- A rehearsal that is about to start. -/
def start (context : FeedContext) (channel : Channel Record) (durable : Option Position)
    (scripts : List SessionScript) : FeedRun :=
  ⟨context, context.loop, channel, durable, 0, 0, .refused, scripts, [], [], 0⟩

/-- Starts what the loop has come to: an open, a push or a wait. -/
def begin (r : FeedRun) : FeedRun :=
  match r.loop.control with
  | .opening resume =>
    let session := r.scripts.headD .refused
    { r with
      session := session
      scripts := r.scripts.tail
      due := r.now + session.openDelay
      opens := r.opens ++ [resume] }
  | .polling _ => { r with due := r.now }
  | .pushing records _ _ => { r with channel := r.channel.push records }
  | .idling _ => { r with due := r.now + r.context.settings.reconnect.idleBackoff }
  | .backingOff => { r with due := r.now + r.context.settings.reconnect.backoff }
  | _ => r

/-- Gives an event to the loop. -/
def give (r : FeedRun) (event : LoopEvent) : Option FeedRun :=
  (r.loop.step r.context r.durable event).map fun loop => begin { r with loop := loop }

/-- Gives an event to a loop that waits, once it is due, or lets it see that it should stop. -/
def giveWhenDue (r : FeedRun) (event : FeedRun → Option FeedRun) : Option FeedRun :=
  if r.loop.stopAsked then r.give .stopSeen
  else if r.due ≤ r.now then event r
  else none

/-- One step of a poll. -/
def pollOnce (r : FeedRun) : Option FeedRun :=
  match r.session.polls with
  | [] => r.give (.polled (.ok none))
  | step :: polls =>
    let r := { r with session := { r.session with polls := polls } }
    match step with
    | .delay millis => some { r with due := r.now + millis }
    | .idle => r.give (.polled (.ok none))
    | .fault fault => r.give (.polled (.error fault))
    | .message message => r.give (.polled (.ok (some message)))

/-- Lets one thing happen, if anything can happen now. -/
def move (r : FeedRun) : Option FeedRun :=
  match r.loop.control with
  | .opening _ =>
    r.giveWhenDue fun r => r.give (.opened (match r.session.openFault with
      | some fault => .error fault
      | none => .ok ()))
  | .polling _ => r.giveWhenDue pollOnce
  | .idling _ => r.giveWhenDue fun r => r.give .woke
  | .backingOff => r.giveWhenDue fun r => r.give .woke
  | .confirming target =>
    let session := { r.session with confirms := r.session.confirms.tail }
    match r.session.confirms with
    | some fault :: _ => { r with session := session }.give (.confirmed (.error fault))
    | _ => { r with session := session, confirmed := r.confirmed ++ [target] }.give
        (.confirmed (.ok ()))
  | .pushing _ _ _ =>
    match r.channel.lastPush? with
    | some .pushed => r.give (.pushed true)
    | some .closed => r.give (.pushed false)
    | _ => none
  | .closing _ => { r with closes := r.closes + 1 }.give (.closed (.ok ()))
  | .finished _ => none
  | _ => r.give .next

/-- Lets at most a number of things happen. -/
def settleWithin : Nat → FeedRun → FeedRun
  | 0, r => r
  | fuel + 1, r =>
    match r.move with
    | some r => settleWithin fuel r
    | none => r

/-- More than can happen at one moment of a rehearsal whose waits take time. -/
def bustle : Nat := 100000

/-- Lets everything happen that can happen now. -/
def settle (r : FeedRun) : FeedRun :=
  r.settleWithin bustle

/-- When the wait that is under way is over. -/
def due? (r : FeedRun) : Option Nat :=
  match r.loop.control with
  | .opening _ => some r.due
  | .polling _ => some r.due
  | .idling _ => some r.due
  | .backingOff => some r.due
  | _ => none

instance : Timed FeedRun where
  now := now
  due? := due?
  arrive t r := { r with now := t }.settle
  isOver r := r.loop.isFinished

/-- Asks the feed to stop. -/
def stop (r : FeedRun) : FeedRun :=
  { r with loop := r.loop.stop }

/-- Publishes a durable position, if the feed has a durable feed. -/
def publish (r : FeedRun) (position : Position) : FeedRun :=
  { r with durable := r.durable.map fun _ => position }

/-- Whether a receiver would learn that there is nothing more to come. -/
def isDrained (r : FeedRun) : Bool :=
  r.channel.isDrained r.loop.isFinished

/-- Receives up to a number of records without letting time pass. The feed runs on in between. Says
also whether the end of the channel was met. -/
def take : Nat → FeedRun → List Record × Bool × FeedRun
  | 0, r => ([], false, r.settle)
  | count + 1, r =>
    let r := r.settle
    match r.channel.receive with
    | (some record, channel) =>
      let (records, isEnd, r) := take count { r with channel := channel }
      (record :: records, isEnd, r)
    | (none, _) => ([], r.isDrained, r)

end FeedRun

end ChangeFeed.Rehearsal
