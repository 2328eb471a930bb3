/-!
# The pipeline channel

A channel holds records up to its capacity, in order. A push hands over a whole batch: it is
admitted in slices, each only when there is room for all of it, and pushes take turns in the order
in which they started. So batches never mix. Closing fails the pushes that wait; what was admitted
can still be received.
-/

namespace ChangeFeed

/-- Why a channel cannot be made. -/
inductive ChannelFault where
  | noCapacity
  | tooLarge
  deriving DecidableEq, Repr

/-- The wording of a channel fault. -/
def ChannelFault.message : ChannelFault → String
  | .noCapacity => "pipeline channel capacity must be positive"
  | .tooLarge =>
    "a semaphore may not have more than MAX_PERMITS permits (2305843009213693951)"

/-- How far a push has come. -/
inductive Push (α : Type) where
  /-- These records are not admitted yet. -/
  | pending (left : List α)
  | pushed
  | closed
  deriving DecidableEq, Repr

/-- A channel of records. -/
structure Channel (α : Type) where
  capacity : Nat
  /-- The records that were admitted and not received. -/
  buffered : List α
  /-- All pushes in the order in which they started. -/
  pushes : List (Push α)
  /-- Whether the receiving side takes nothing more in. -/
  isClosed : Bool
  deriving DecidableEq, Repr

namespace Channel

variable {α : Type}

/-- The largest capacity. -/
def largestCapacity : Nat := Nat.pow 2 61 - 1

/-- An empty channel. -/
def create (capacity : Nat) : Except ChannelFault (Channel α) :=
  if capacity = 0 then .error .noCapacity
  else if largestCapacity < capacity then .error .tooLarge
  else .ok ⟨capacity, [], [], false⟩

/-- Admits one slice of the first push that waits, if there is room: the buffer and the pushes
after it. -/
def admitFirst (capacity : Nat) (buffered : List α) :
    List (Push α) → Option (List α × List (Push α))
  | [] => none
  | .pending left :: rest =>
    let slice := left.take capacity
    if buffered.length + slice.length ≤ capacity then
      let left := left.drop capacity
      some (buffered ++ slice, (if left.isEmpty then .pushed else .pending left) :: rest)
    else none
  | push :: rest =>
    (admitFirst capacity buffered rest).map fun (buffered, rest) => (buffered, push :: rest)

/-- Admits one slice, if there is room for it. -/
def admit? (c : Channel α) : Option (Channel α) :=
  if c.isClosed then none
  else (admitFirst c.capacity c.buffered c.pushes).map fun (buffered, pushes) =>
    { c with buffered := buffered, pushes := pushes }

/-- Admits up to a number of slices. -/
def settleWithin : Nat → Channel α → Channel α
  | 0, c => c
  | fuel + 1, c =>
    match c.admit? with
    | some c => settleWithin fuel c
    | none => c

/-- Admits slices as long as there is room. A slice that does not end its push fills the channel,
so there are not more of them than pushes, but for one. -/
def settle (c : Channel α) : Channel α :=
  settleWithin (c.pushes.length + 1) c

/-- Starts a push. An empty one is done at once; on a closed channel others fail at once. -/
def push (c : Channel α) (records : List α) : Channel α :=
  let push :=
    if records.isEmpty then Push.pushed else if c.isClosed then .closed else .pending records
  settle { c with pushes := c.pushes ++ [push] }

/-- Receives the next record. -/
def receive (c : Channel α) : Option α × Channel α :=
  match c.buffered with
  | [] => (none, c)
  | record :: rest => (some record, settle { c with buffered := rest })

/-- Receives up to a number of the records that are there. -/
def fetch (c : Channel α) (count : Nat) : List α × Channel α :=
  (c.buffered.take count, settle { c with buffered := c.buffered.drop count })

/-- A push that the channel will not take any more. -/
def failed : Push α → Push α
  | .pending _ => .closed
  | push => push

/-- Closes the channel. -/
def close (c : Channel α) : Channel α :=
  { c with isClosed := true, pushes := c.pushes.map failed }

/-- Closes the channel and lets its records go. -/
def discard (c : Channel α) : Channel α :=
  { c.close with buffered := [] }

/-- Whether a push waits. -/
def hasPending (c : Channel α) : Bool :=
  c.pushes.any fun
    | .pending _ => true
    | _ => false

/-- The state of the last push. -/
def lastPush? (c : Channel α) : Option (Push α) :=
  c.pushes.getLast?

/-- Whether nothing more can be received, when there is nobody left who could start a push. -/
def isDrained (c : Channel α) (senderGone : Bool) : Bool :=
  c.buffered.isEmpty && (c.isClosed || (senderGone && !c.hasPending))

end Channel

end ChangeFeed
