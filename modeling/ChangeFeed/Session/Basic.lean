import ChangeFeed.Plugin.Basic
import ChangeFeed.Session.DeliveryLog
import ChangeFeed.Session.Statement

/-!
# Replication sessions

A session reads one slot over one connection. Polling hands out one message at a time and reads a
page when none is pending; confirming lets the slot advance past transactions that are complete
and durable.
-/

namespace ChangeFeed

/-- The state of a connection. -/
inductive Link where
  | live
  /-- The connection has broken; nothing reaches the server any more. -/
  | lost
  /-- The session was closed. -/
  | closed
  deriving DecidableEq, Repr

/-- An exchange with a server over a connection. -/
abbrev Exchange (σ α : Type) := Link × σ → Except SessionFault α × (Link × σ)

namespace Exchange

/-- Asks the server. -/
def ask {σ : Type} (server : Server σ) (task : SessionTask) (statement : Statement) :
    Exchange σ (List (List Cell))
  | (.closed, world) => (.error .closed, .closed, world)
  | (.lost, world) => (.error (.statement task .connectionLost), .lost, world)
  | (.live, world) =>
    match server statement world with
    | (.rows rows, world) => (.ok rows, .live, world)
    | (.refused code message, world) =>
      (.error (.statement task (.refused code message)), .live, world)
    | (.lost, world) => (.error (.statement task .connectionLost), .lost, world)

/-- Goes on with the answer of an exchange. -/
def andThen {σ α β : Type} (first : Exchange σ α) (next : α → Exchange σ β) : Exchange σ β :=
  fun state =>
    match first state with
    | (.ok value, state) => next value state
    | (.error fault, state) => (.error fault, state)

/-- An exchange that needs no server. -/
def ofResult {σ α : Type} (result : Except SessionFault α) : Exchange σ α :=
  fun state => (result, state)

end Exchange

/-- A value of an answer, read for a task. -/
def SessionTask.reading {α : Type} (task : SessionTask) (value : Except StatementFault α) :
    Except SessionFault α :=
  value.mapError (.statement task)

/-- The only row of an answer. -/
def onlyRow (task : SessionTask) : List (List Cell) → Except SessionFault (List Cell)
  | [row] => .ok row
  | _ => .error (.statement task .wrongRowCount)

/-- The position that the server names; no text stands for the start of the log. -/
def Position.ofReply : Option String → Except SessionFault Position
  | none => .ok .zero
  | some text =>
    match Position.read text with
    | some position => .ok position
    | none => .error (.protocol (Position.faultMessage text))

/-- The message in a row of changes. -/
def Message.ofRow (row : List Cell) : Except SessionFault Message := do
  let lsn ← SessionTask.readChangePosition.reading (textAt row 0)
  let xid ← SessionTask.readChangeXid.reading (optionalTextAt row 1)
  let data ← SessionTask.readChangeData.reading (optionalTextAt row 2)
  let position ← Position.ofReply (some lsn)
  return {
    position := position
    xid := xid.bind fun text => (Number.readUInt64 text.toList).toOption
    data := Text.toUtf8 (data.getD "").toList }

/-- A session on a slot. -/
structure Session where
  slot : String
  /-- Names and values of the plugin's options in turn. -/
  options : List String
  /-- About how many changes are read at once. -/
  pageSize : Nat
  link : Link
  log : DeliveryLog
  deriving DecidableEq

namespace Session

/-- The page size of a session that sets none. -/
def defaultPageSize : Nat := 1000

/-- The greatest number of changes that can be asked for. -/
def greatestLimit : Nat := Nat.pow 2 31 - 1

/-- Finds the position of a slot, which is created if it is missing. -/
def findPosition {σ : Type} (server : Server σ) (slot : String) (plugin : Plugin) :
    Exchange σ Position :=
  (Exchange.ask server .findSlot (.findSlot slot)).andThen fun
    | row :: _ => .ofResult do
      let _ ← SessionTask.readPlugin.reading (optionalTextAt row 0)
      let lsn ← SessionTask.readSlotPosition.reading (optionalTextAt row 1)
      Position.ofReply lsn
    | [] =>
      (Exchange.ask server .createSlot (.createSlot slot plugin.name)).andThen fun rows =>
        .ofResult do
          let row ← onlyRow .createSlot rows
          let lsn ← SessionTask.readCreatedPosition.reading (optionalTextAt row 0)
          Position.ofReply lsn

/-- Advances a slot. -/
def advance {σ : Type} (server : Server σ) (slot : String) (position : Position) :
    Exchange σ Unit :=
  (Exchange.ask server .advanceSlot (.advanceSlot slot position)).andThen fun _ =>
    .ofResult (.ok ())

/-- Makes a slot ready to give what comes after a position. The slot never moves back. -/
def prepare {σ : Type} (server : Server σ) (slot : String) (plugin : Plugin)
    (start : Position) : Exchange σ Unit :=
  (findPosition server slot plugin).andThen fun current =>
    if current < start then advance server slot start else .ofResult (.ok ())

/-- Opens a session over a new connection. -/
def «open» {σ : Type} (server : Server σ) (slot : String) (plugin : Plugin) (pageSize : Nat)
    (start : Position) (world : σ) : Except SessionFault Session × σ :=
  match prepare server slot plugin start (.live, world) with
  | (.ok (), link, world) =>
    (.ok {
      slot := slot
      options := plugin.slotOptions.flatMap fun (name, value) => [name, value]
      pageSize := max 1 pageSize
      link := link
      log := .empty }, world)
  | (.error fault, _, world) => (.error fault, world)

/-- How many changes the next page asks for: those delivered before and a page of new ones. The sum
is one of 64 bits, which wraps around. -/
def limit (s : Session) : Nat :=
  min greatestLimit ((s.log.consumed + s.pageSize) % Nat.pow 2 64)

/-- Hands out the next message of the log. -/
def handOut (s : Session) : Option Message × Session :=
  match s.log.next with
  | some (message, log) => (some message, { s with log := log })
  | none => (none, s)

/-- The next message, or nothing if none is pending on the server either. -/
def poll {σ : Type} (server : Server σ) (s : Session) (world : σ) :
    Except SessionFault (Option Message) × Session × σ :=
  match s.handOut with
  | (some message, s) => (.ok (some message), s, world)
  | (none, s) =>
    let (result, link, world) := Exchange.ask server .peekChanges
      (.peekChanges s.slot s.limit s.options) (s.link, world)
    let s := { s with link := link }
    match result.bind fun rows => rows.mapM Message.ofRow with
    | .error fault => (.error fault, s, world)
    | .ok page =>
      let (message, s) := { s with log := s.log.acceptPage page }.handOut
      (.ok message, s, world)

/-- Lets the slot advance past what is durable: complete transactions that end by a position. -/
def confirm {σ : Type} (server : Server σ) (s : Session) (position : Position) (world : σ) :
    Except SessionFault Unit × Session × σ :=
  match s.log.releaseThrough position with
  | (log, none) => (.ok (), { s with log := log }, world)
  | (log, some last) =>
    let (result, link, world) := advance server s.slot last (s.link, world)
    (result, { s with log := log, link := link }, world)

/-- Gives the connection back. -/
def close (s : Session) : Session :=
  { s with link := .closed }

end Session

end ChangeFeed
