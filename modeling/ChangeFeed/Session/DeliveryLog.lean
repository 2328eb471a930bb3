import ChangeFeed.Position

/-!
# What a session has handed out

Reading changes does not consume them: every page starts with those that are not confirmed yet.
So the log counts the messages at the head of the slot that were delivered before and skips them.
A page ends with a transaction, hence a delivered transaction is complete unless the next pending
message still belongs to it.
-/

namespace ChangeFeed

/-- A message read from a slot. -/
structure Message where
  position : Position
  /-- The transaction that the message belongs to. -/
  xid : Option UInt64
  data : List UInt8
  deriving DecidableEq

/-- A transaction of which messages were delivered. -/
structure DeliveredTransaction where
  xid : Option UInt64
  /-- The greatest position of its messages. -/
  last : Position
  messages : Nat
  deriving DecidableEq

/-- What a session has read and delivered. -/
structure DeliveryLog where
  /-- Messages that were read but not delivered. -/
  pending : List Message
  delivered : List DeliveredTransaction
  /-- The messages at the head of the slot that were delivered. -/
  consumed : Nat
  deriving DecidableEq

namespace DeliveryLog

/-- A log of a new session. -/
def empty : DeliveryLog := ⟨[], [], 0⟩

/-- Takes the messages of a page that were neither delivered nor are pending. -/
def acceptPage (log : DeliveryLog) (page : List Message) : DeliveryLog :=
  { log with pending := log.pending ++ page.drop (log.consumed + log.pending.length) }

/-- Counts a message to the last delivered transaction, or to a new one. -/
def deliver (message : Message) : List DeliveredTransaction → List DeliveredTransaction
  | [] => [⟨message.xid, message.position, 1⟩]
  | [t] =>
    if t.xid = message.xid then
      [{ t with messages := t.messages + 1, last := max t.last message.position }]
    else [t, ⟨message.xid, message.position, 1⟩]
  | t :: rest => t :: deliver message rest

/-- The next pending message. -/
def next (log : DeliveryLog) : Option (Message × DeliveryLog) :=
  match log.pending with
  | [] => none
  | message :: pending =>
    some (message, ⟨pending, deliver message log.delivered, log.consumed + 1⟩)

/-- Whether the first of the delivered transactions is complete. -/
def isFirstComplete (log : DeliveryLog) : Bool :=
  match log.delivered, log.pending with
  | [t], message :: _ => t.xid != message.xid
  | _, _ => true

/-- Forgets complete transactions from the first on, as far as they end by a position. -/
def releaseAlong (position : Position) (pending : List Message) :
    List DeliveredTransaction → Nat → Option Position → DeliveryLog × Option Position
  | [], consumed, released => (⟨pending, [], consumed⟩, released)
  | t :: rest, consumed, released =>
    if t.last ≤ position ∧ isFirstComplete ⟨pending, t :: rest, consumed⟩ then
      releaseAlong position pending rest (consumed - t.messages) (some t.last)
    else (⟨pending, t :: rest, consumed⟩, released)

/-- Forgets complete transactions that end by a position, and says how far the slot may advance:
to the end of the last one. -/
def releaseThrough (log : DeliveryLog) (position : Position) : DeliveryLog × Option Position :=
  releaseAlong position log.pending log.delivered log.consumed none

end DeliveryLog

end ChangeFeed
