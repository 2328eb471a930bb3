import ChangeFeed.Channel

/-!
# Rehearsals of a channel

A channel between one sender and one receiver, each of which may go away. Pushes run in the
background; nothing but the receiver makes room, so a wait on an empty channel is in vain.
-/

namespace ChangeFeed.Rehearsal

/-- A rehearsal of a channel. -/
structure ChannelRun (α : Type) where
  channel : Channel α
  senderGone : Bool
  receiverGone : Bool

/-- What a receiver meets. -/
inductive Received (α : Type) where
  | record (record : α)
  /-- The channel is closed and empty. -/
  | ended
  | timedOut
  deriving DecidableEq, Repr

namespace ChannelRun

variable {α : Type}

/-- Starts a push. -/
def push (r : ChannelRun α) (records : List α) : ChannelRun α :=
  if r.senderGone then r else { r with channel := r.channel.push records }

/-- Waits for the next record; nothing if the receiver has gone. -/
def receive (r : ChannelRun α) : Option (Received α) × ChannelRun α :=
  if r.receiverGone then (none, r)
  else
    match r.channel.receive with
    | (some record, channel) => (some (.record record), { r with channel := channel })
    | (none, _) =>
      (some (if r.channel.isDrained r.senderGone then .ended else .timedOut), r)

/-- Fetches up to a number of records, and says how long that takes if the first one may be waited
for that long; nothing if the receiver has gone. -/
def fetch (r : ChannelRun α) (count timeout : Nat) :
    Option (List α × Nat) × ChannelRun α :=
  if r.receiverGone then (none, r)
  else
    match r.channel.fetch count with
    | ([], _) =>
      let waits := 0 < count ∧ ¬r.channel.isDrained r.senderGone
      (some ([], if waits then timeout else 0), r)
    | (records, channel) => (some (records, 0), { r with channel := channel })

/-- Closes the channel. -/
def close (r : ChannelRun α) : ChannelRun α :=
  if r.receiverGone then r else { r with channel := r.channel.close }

/-- The receiver goes away. -/
def dropReceiver (r : ChannelRun α) : ChannelRun α :=
  { r with channel := r.channel.discard, receiverGone := true }

/-- The sender goes away; pushes that are under way go on. -/
def dropSender (r : ChannelRun α) : ChannelRun α :=
  { r with senderGone := true }

end ChannelRun

end ChangeFeed.Rehearsal
