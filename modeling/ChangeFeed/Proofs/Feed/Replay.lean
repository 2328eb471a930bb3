import ChangeFeed.Proofs.Feed.Framing
import ChangeFeed.Proofs.Feed.Wholeness

/-!
# Exactly once

A feed that reads the log of a server over sessions that fail and are opened anew: each one gives
again, in order and whole, the transactions that were committed behind the position it was opened
at. `Relay.exactly_once` says that a feed that groups pushes each transaction behind its start
once and in order, wherever the sessions fail and however far what is durable lags behind.
-/

namespace ChangeFeed

open LoggedTransaction

/-- The records that the receiver has taken. -/
def Trail.received (trail : List Happening) : List Record :=
  trail.flatMap fun
    | .received record => [record]
    | _ => []

/-- What the receiver has taken has left the channel. -/
theorem Trail.mem_taken_of_received {trail : List Happening} {r : Record}
    (h : r ∈ received trail) : r ∈ taken trail := by
  obtain ⟨happening, hmem, hr⟩ := List.mem_flatMap.mp h
  cases happening with
  | received record => exact List.mem_flatMap.mpr ⟨_, hmem, hr⟩
  | _ => exact absurd hr List.not_mem_nil

/-- A feed with a session on a server. -/
structure Relay where
  feed : Feed
  /-- What the session still has to give. -/
  left : List Message

/-- What can happen to a feed with a server. -/
inductive RelayMove where
  /-- A session is opened and starts to give what was committed behind its position. -/
  | opened
  /-- The session gives its next message. -/
  | polled
  /-- A position becomes durable; it is the start or that of a record which was received. -/
  | persisted (position : Position)
  /-- Anything else: a failure, a poll that finds nothing, a wait that is over, a request to
  stop, a record that is received. -/
  | other (move : FeedMove)

namespace FeedContext

/-- The feed that starts, with or without a durable feed. -/
def relay (c : FeedContext) (capacity : Nat) (tracked : Bool) : Relay where
  feed := c.feed capacity (if tracked then some c.start else none)
  left := []

end FeedContext

namespace Relay

/-- One move. A move that is not possible changes nothing. -/
def step (c : FeedContext) (server : SlotServer) (r : Relay) : RelayMove → Relay
  | .opened =>
    match r.feed.loop.control with
    | .opening resume =>
      ⟨r.feed.give c (.opened (.ok ())), messagesOf (server.past resume)⟩
    | _ => r
  | .polled =>
    match r.left, r.feed.loop.control with
    | m :: rest, .polling _ => ⟨r.feed.give c (.polled (.ok (some m))), rest⟩
    | _, _ => r
  | .persisted position =>
    if position ∈ c.start :: (Trail.received r.feed.trail).map Record.position then
      ⟨r.feed.step c (.persist position), r.left⟩
    else r
  | .other (.read (.opened (.ok ()))) => r
  | .other (.read (.polled (.ok (some _)))) => r
  | .other (.persist _) => r
  | .other move => ⟨r.feed.step c move, r.left⟩

/-- A sequence of moves. -/
def run (c : FeedContext) (server : SlotServer) (r : Relay) (moves : List RelayMove) : Relay :=
  moves.foldl (step c server) r

/-! ## What is pushed up to a position -/

/-- What was pushed are the records of the transactions between the start and a position. -/
def Pushed (c : FeedContext) (server : SlotServer) (trail : List Happening) (p : Position) : Prop :=
  ∃ batches, List.Forall₂ (IsConverted c) (server.between c.start p) batches ∧
    Trail.pushed trail = batches.flatten

variable {c : FeedContext} {server : SlotServer} {trail : List Happening} {p : Position}

/-- No record that was pushed is behind the position up to which was pushed. -/
theorem Pushed.position_le (h : Pushed c server trail p) {r : Record}
    (hr : r ∈ Trail.pushed trail) : r.position ≤ p := by
  obtain ⟨batches, hbatches, heq⟩ := h
  rw [heq] at hr
  obtain ⟨records, hrecords, hr⟩ := List.mem_flatten.mp hr
  obtain ⟨t, ht, hconverted⟩ := hbatches.exists_of_mem_right hrecords
  simp only [SlotServer.between, List.mem_filter, decide_eq_true_eq] at ht
  exact (hconverted.position_le hr).trans ht.2.2

/-- The transactions up to a position, when the log is cut where everything before is up to it. -/
theorem between_of_cut {before todo : List LoggedTransaction} {start : Position}
    (hcut : server.committed = before ++ todo) (hbefore : ∀ u ∈ before, u.position ≤ p)
    (htodo : ∀ u ∈ todo, p < u.position) :
    server.between start p = before.filter fun u => start < u.position := by
  rw [SlotServer.between, hcut, List.filter_append]
  have hnone : todo.filter (fun u => start < u.position ∧ u.position ≤ p) = [] := by
    rw [List.filter_eq_nil_iff]
    intro u hu
    simp [not_le.mpr (htodo u hu)]
  rw [hnone, List.append_nil]
  refine List.filter_congr ?_
  intro u hu
  simp [hbefore u hu]

/-- The next transaction of the log comes right behind those up to a position. -/
theorem between_next {before rest : List LoggedTransaction} {t : LoggedTransaction}
    {start : Position} (hcut : server.committed = before ++ t :: rest)
    (hbefore : ∀ u ∈ before, u.position ≤ p) (hp : p < t.position) (hstart : start ≤ p) :
    server.between start t.position = server.between start p ++ [t] := by
  have hsorted := server.ascending
  rw [hcut] at hsorted
  have hrest : ∀ u ∈ rest, t.position < u.position :=
    (List.pairwise_cons.mp (List.pairwise_append.mp hsorted).2.1).1
  have hcut' : server.committed = (before ++ [t]) ++ rest := by rw [hcut]; simp
  rw [between_of_cut hcut hbefore, between_of_cut hcut', List.filter_append]
  · simp [hstart.trans_lt hp]
  · intro u hu
    rcases List.mem_append.mp hu with hu | hu
    · exact (hbefore u hu).trans hp.le
    · exact (congrArg LoggedTransaction.position (List.mem_singleton.mp hu)).le
  · exact hrest
  · intro u hu
    rcases List.mem_cons.mp hu with rfl | hu
    · exact hp
    · exact hp.trans (hrest u hu)

/-! ## How far a session has come -/

/-- How far a session has come when everything before is up to a position: the first of what is
still to be told may be told in part, and the buffer holds that part. -/
structure Reached (c : FeedContext) (server : SlotServer) (p : Position) (left : List Message)
    (b : TransactionBuffer) : Prop where
  cut : ∃ before todo part, server.committed = before ++ todo ∧ (∀ u ∈ before, u.position ≤ p) ∧
    IsPart todo part ∧ messagesOf todo = part ++ left ∧ Cursor c part b []

/-- A transaction that was received whole and is to be handed over: everything before it is up to
the position, and it is not. -/
structure Next (c : FeedContext) (server : SlotServer) (p : Position) (left : List Message)
    (b : TransactionBuffer) (records : List Record) (last : Position) : Prop where
  cut : ∃ before rest t, server.committed = before ++ t :: rest ∧
    (∀ u ∈ before, u.position ≤ p) ∧ p < t.position ∧ last = t.position ∧
    t.IsConverted c records ∧ left = messagesOf rest
  idle : b = ⟨c.settings.grouped, none⟩

/-- A session has come to the end of a transaction. -/
theorem Reached.between {before todo : List LoggedTransaction}
    (hcut : server.committed = before ++ todo) (hbefore : ∀ u ∈ before, u.position ≤ p)
    {b : TransactionBuffer} (hb : b = ⟨c.settings.grouped, none⟩) :
    Reached c server p (messagesOf todo) b :=
  ⟨before, todo, [], hcut, hbefore, .inl rfl, rfl, hb ▸ .between⟩

/-- A session has come to the end of one more transaction. -/
theorem Reached.past_next {before rest : List LoggedTransaction} {t : LoggedTransaction}
    (hcut : server.committed = before ++ t :: rest) (hbefore : ∀ u ∈ before, u.position ≤ p)
    (ht : t.position ≤ p) {b : TransactionBuffer} (hb : b = ⟨c.settings.grouped, none⟩) :
    Reached c server p (messagesOf rest) b := by
  have hcut' : server.committed = (before ++ [t]) ++ rest := by rw [hcut]; simp
  refine .between hcut' ?_ hb
  intro u hu
  rcases List.mem_append.mp hu with hu | hu
  · exact hbefore u hu
  · exact List.mem_singleton.mp hu ▸ ht

/-- What a message of the log leads to: the session comes further, or its transaction is handed
over. -/
theorem Reached.receives (hframed : ∀ t ∈ server.committed, t.IsFramed c.plugin)
    (hgrouped : c.settings.grouped = true) {loop : Loop} {m : Message} {left : List Message}
    {after : TransactionBuffer} {out : Option Batch}
    (h : Reached c server loop.position (m :: left) loop.buffer)
    (hreceive : c.receive loop m = .ok (after, out)) :
    (out = none ∧ Reached c server loop.position left after) ∨
      ∃ batch, out = some batch ∧
        Next c server loop.position left after batch.records batch.last := by
  obtain ⟨before, todo, part, hcut, hbefore, hpart, htodo, hcursor⟩ := h.cut
  obtain ⟨t, rest, more, rfl, hmessages, rfl⟩ := hpart.next htodo
  have hframe := hframed t (by simp [hcut])
  rcases hcursor.receives hframe hmessages hreceive with
    ⟨hmore, ⟨rfl, hon⟩ | ⟨-, hpasses, -⟩⟩ |
    ⟨rfl, hidle, ⟨rfl, -, hle⟩ | ⟨records, rfl, hrecords, hlt⟩⟩
  · refine .inl ⟨rfl, before, t :: rest, part ++ [m], hcut, hbefore, .inr ?_, ?_, hon⟩
    · exact ⟨t, rest, more, rfl, by simp [hmessages], hmore⟩
    · simp [hmessages]
  · exact absurd (hgrouped.symm.trans hpasses) (by simp)
  · exact .inl ⟨rfl, .past_next hcut hbefore hle hidle⟩
  · exact .inr ⟨_, rfl, ⟨before, rest, t, hcut, hbefore, hlt hgrouped, rfl, hrecords, rfl⟩, hidle⟩

/-! ## The invariant -/

/-- What was pushed are the records of the transactions up to a position, and nothing behind it is
durable. -/
structure Settled (c : FeedContext) (server : SlotServer) (trail : List Happening)
    (durable : Option Position) (p : Position) : Prop where
  start_le : c.start ≤ p
  pushed : Pushed c server trail p
  durable_le : ∀ d, durable = some d → d ≤ p

/-- A batch that is handed over: it is the next one behind those that were pushed before. -/
structure Hands (c : FeedContext) (server : SlotServer) (trail : List Happening)
    (durable : Option Position) (left : List Message) (p : Position) (b : TransactionBuffer)
    (records : List Record) (last : Position) : Prop where
  start_le : c.start ≤ p
  next : Next c server p left b records last
  pushed : ∃ batches, List.Forall₂ (IsConverted c) (server.between c.start p) batches ∧
    Trail.pushed trail = batches.flatten ++ records
  durable_le : ∀ d, durable = some d → d ≤ last

/-- What was pushed are the records of the first transactions behind the start. -/
def Emitted (c : FeedContext) (server : SlotServer) (trail : List Happening) : Prop :=
  ∃ done todo batches, server.past c.start = done ++ todo ∧
    List.Forall₂ (IsConverted c) done batches ∧ Trail.pushed trail = batches.flatten

/-- What holds at a control point of a feed with a server. -/
def Stage (c : FeedContext) (server : SlotServer) (trail : List Happening)
    (durable : Option Position) (left : List Message) (p : Position) (b : TransactionBuffer) :
    Control → Prop
  | .pushing records last _ => Hands c server trail durable left p b records last
  | .closing (.error (.session _)) =>
    Settled c server trail durable p ∧ b.grouped = c.settings.grouped
  | .closing _ => Emitted c server trail
  | .finished _ => Emitted c server trail
  | .starting => Settled c server trail durable p ∧ b = ⟨c.settings.grouped, none⟩
  | .opening resume =>
    Settled c server trail durable p ∧ b = ⟨c.settings.grouped, none⟩ ∧ resume ≤ p
  | .shaken => Settled c server trail durable p ∧ b = ⟨c.settings.grouped, none⟩
  | .backingOff => Settled c server trail durable p ∧ b = ⟨c.settings.grouped, none⟩
  | _ => Settled c server trail durable p ∧ Reached c server p left b

variable {durable : Option Position} {left : List Message} {b : TransactionBuffer}
  {control : Control}

/-- What holds while the loop reads. -/
theorem stage_reads (h : control.Reads) : Stage c server trail durable left p b control ↔
    Settled c server trail durable p ∧ Reached c server p left b := by
  cases control <;> first | exact h.elim | rfl

/-- What holds while the loop has no session. -/
theorem stage_waits (h : control.Waits) : Stage c server trail durable left p b control ↔
    Settled c server trail durable p ∧ b = ⟨c.settings.grouped, none⟩ ∧
      ∀ resume, control = .opening resume → resume ≤ p := by
  cases control <;> first | exact h.elim | simp [Stage]

/-- Up to a position that is not before the start, what was pushed are the records of the first
transactions. -/
theorem Settled.emitted (h : Settled c server trail durable p) : Emitted c server trail := by
  obtain ⟨batches, hbatches, hpushed⟩ := h.pushed
  exact ⟨_, _, batches, (server.between_append_past h.start_le).symm, hbatches, hpushed⟩

/-- Once the batch is handed over, what was pushed are the records up to its end. -/
theorem Hands.settled {records : List Record} {last : Position}
    (h : Hands c server trail durable left p b records last) :
    p < last ∧ Settled c server trail durable last ∧ Reached c server last left b := by
  obtain ⟨before, rest, t, hcut, hbefore, hlt, rfl, hconverted, hleft⟩ := h.next.cut
  obtain ⟨batches, hbatches, hpushed⟩ := h.pushed
  refine ⟨hlt, ⟨h.start_le.trans hlt.le, ⟨batches ++ [records], ?_, ?_⟩, h.durable_le⟩, ?_⟩
  · rw [between_next hcut hbefore hlt h.start_le]
    exact List.rel_append hbatches (.cons hconverted .nil)
  · rw [hpushed]
    simp
  · rw [hleft]
    exact .past_next hcut (fun u hu => (hbefore u hu).trans hlt.le) (le_refl _) h.next.idle

/-- At every control point, what was pushed are the records of the first transactions. -/
theorem Stage.emitted (h : Stage c server trail durable left p b control) :
    Emitted c server trail := by
  by_cases hreads : control.Reads
  · exact ((stage_reads hreads).mp h).1.emitted
  by_cases hwaits : control.Waits
  · exact ((stage_waits hwaits).mp h).1.emitted
  cases control with
  | pushing records last confirmed => exact (Hands.settled h).2.1.emitted
  | closing outcome =>
      cases outcome with
      | ok _ => exact h
      | error fault =>
          cases fault with
          | session fault => exact h.1.emitted
          | _ => exact h
  | finished result => exact h
  | _ => first | exact absurd trivial hreads | exact absurd trivial hwaits

/-- What was pushed and what is durable decide what holds at a control point. -/
theorem Stage.congr {trail' : List Happening} {durable' : Option Position}
    (h : Stage c server trail durable left p b control)
    (hpushed : Trail.pushed trail' = Trail.pushed trail)
    (hdurable : ∀ d, durable' = some d → durable = some d ∨ d = c.start ∨
      ∃ r ∈ Trail.pushed trail, r.position = d) :
    Stage c server trail' durable' left p b control := by
  have hsettled {q : Position} (h : Settled c server trail durable q) :
      Settled c server trail' durable' q := by
    refine ⟨h.start_le, ?_, fun d hd => ?_⟩
    · rw [Pushed, hpushed]
      exact h.pushed
    · rcases hdurable d hd with hd | rfl | ⟨r, hr, rfl⟩
      · exact h.durable_le d hd
      · exact h.start_le
      · exact h.pushed.position_le hr
  have hemitted (h : Emitted c server trail) : Emitted c server trail' := by
    rw [Emitted, hpushed]
    exact h
  by_cases hreads : control.Reads
  · rw [stage_reads hreads] at h ⊢
    exact ⟨hsettled h.1, h.2⟩
  by_cases hwaits : control.Waits
  · rw [stage_waits hwaits] at h ⊢
    exact ⟨hsettled h.1, h.2⟩
  cases control with
  | pushing records last confirmed =>
      have hlast := hsettled (Hands.settled h).2.1
      exact ⟨h.start_le, h.next, hpushed ▸ h.pushed, hlast.durable_le⟩
  | closing outcome =>
      cases outcome with
      | ok _ => exact hemitted h
      | error fault =>
          cases fault with
          | session fault => exact ⟨hsettled h.1, h.2⟩
          | _ => exact hemitted h
  | finished result => exact hemitted h
  | _ => first | exact absurd trivial hreads | exact absurd trivial hwaits

/-- What holds of a feed with a server at every moment. -/
structure InStep (c : FeedContext) (server : SlotServer) (r : Relay) : Prop where
  stage : Stage c server r.feed.trail r.feed.durable r.left r.feed.loop.position
    r.feed.loop.buffer r.feed.loop.control
  sends : r.feed.Sends ∨ r.feed.Breaks

/-- A session goes on from where everything was pushed. -/
theorem Settled.resume_le {loop : Loop} (h : Settled c server trail durable loop.position) :
    c.resume durable loop ≤ loop.position := by
  unfold FeedContext.resume
  split
  · exact max_le (h.durable_le _ rfl) h.start_le
  · exact le_refl _

/-- A session is read into a buffer that groups as the feed does. -/
theorem Reached.grouped (h : Reached c server p left b) : b.grouped = c.settings.grouped := by
  obtain ⟨before, todo, part, -, -, -, -, hcursor⟩ := h.cut
  exact hcursor.grouped_eq

/-- A feed goes on where it goes on without a session. -/
theorem stage_of_waits {after : Loop} {f : Feed} (hbefore : f.loop.control.Waits)
    (hafter : after.control.Waits)
    (hresume : ∀ resume, after.control = .opening resume → resume = c.resume f.durable f.loop)
    (hposition : after.position = f.loop.position)
    (hbuffer : after.buffer = f.loop.buffer ∨ after.buffer = f.loop.buffer.reset)
    (h : Stage c server f.trail f.durable left f.loop.position f.loop.buffer f.loop.control) :
    Stage c server f.trail f.durable left after.position after.buffer after.control := by
  obtain ⟨hsettled, hb, -⟩ := (stage_waits hbefore).mp h
  rw [hposition]
  refine (stage_waits hafter).mpr ⟨hsettled, ?_, fun resume hopening => ?_⟩
  · rcases hbuffer with hbuffer | hbuffer
    · exact hbuffer.trans hb
    · rw [hbuffer, hb]
      rfl
  · rw [hresume resume hopening]
    exact hsettled.resume_le

/-- What is left when the loop leaves its session. -/
theorem stage_of_leaves {outcome : Except FeedFault Unit}
    (hsettled : Settled c server trail durable p) (hgrouped : b.grouped = c.settings.grouped) :
    Stage c server trail durable left p b (.closing outcome) := by
  cases outcome with
  | ok _ => exact hsettled.emitted
  | error fault =>
      cases fault with
      | session fault => exact ⟨hsettled, hgrouped⟩
      | _ => exact hsettled.emitted

variable {r : Relay} {event : LoopEvent} {after : Loop}

/-- Where the loop opens no session and receives no message, the feed stays in step. -/
theorem InStep.moves (h : r.InStep c server)
    (hmoves : r.feed.loop.Moves c r.feed.durable event after)
    (hhears : r.feed.Hears event) (hopened : event ≠ .opened (.ok ()))
    (hpolled : ∀ m, event ≠ .polled (.ok (some m))) :
    InStep c server ⟨r.feed.advance event after, r.left⟩ := by
  refine ⟨?_, Feed.sends_or_breaks_of_moves hmoves hhears h.sends⟩
  have hstage := h.stage
  cases hmoves with
  | waits hbefore hafter hresume hposition hbuffer hevent =>
      rw [Feed.advance_waits hbefore hafter hevent]
      exact stage_of_waits (f := r.feed) hbefore hafter hresume hposition hbuffer hstage
  | opens resume hbefore hafter hkeeps => exact absurd rfl hopened
  | reads hbefore hafter hconfirm hevent hkeeps =>
      rw [Feed.advance_reads hbefore hafter hevent]
      show Stage c server r.feed.trail r.feed.durable r.left after.position after.buffer
        after.control
      rw [hkeeps.1, hkeeps.2]
      exact (stage_reads hafter).mpr ((stage_reads hbefore).mp hstage)
  | leaves outcome hbefore hafter hevent hkeeps =>
      rw [Feed.advance_leaves hbefore hafter hevent]
      obtain ⟨hsettled, hreached⟩ := (stage_reads hbefore).mp hstage
      show Stage c server r.feed.trail r.feed.durable r.left after.position after.buffer
        after.control
      rw [hkeeps.1, hkeeps.2, hafter]
      exact stage_of_leaves hsettled hreached.grouped
  | rejects m fault confirmed hbefore hreceive hafter hkeeps => exact absurd rfl (hpolled m)
  | collects m buffer confirmed hbefore hreceive hafter hconfirm hposition hbuffer =>
      exact absurd rfl (hpolled m)
  | hands m buffer batch confirmed hbefore hreceive hafter hposition hbuffer =>
      exact absurd rfl (hpolled m)
  | publishes records last confirmed hbefore hafter hconfirm hposition hbuffer =>
      rw [hbefore] at hstage
      obtain ⟨hlt, hsettled, hreached⟩ := Hands.settled hstage
      rw [Feed.advance_publishes hbefore hafter]
      show Stage c server (r.feed.trail ++ [.published after.position r.feed.channel.buffered])
        r.feed.durable r.left after.position after.buffer after.control
      rw [hposition, hbuffer, max_eq_right hlt.le]
      refine Stage.congr ((stage_reads hafter).mpr ⟨hsettled, hreached⟩)
        (by simp [Trail.pushed]) (fun d hd => .inl hd)
  | refused records last confirmed hbefore hafter hkeeps =>
      rw [hbefore] at hstage
      rw [Feed.advance_refused hbefore hafter]
      show Stage c server r.feed.trail r.feed.durable r.left after.position after.buffer
        after.control
      rw [hafter]
      exact (Hands.settled hstage).2.1.emitted
  | recovers fault closed hbefore hafter hposition hbuffer =>
      rw [hbefore] at hstage
      have hwaits : after.control.Waits := hafter ▸ trivial
      rw [Feed.advance_recovers hbefore hafter]
      show Stage c server r.feed.trail r.feed.durable r.left after.position after.buffer
        after.control
      rw [hposition, hbuffer]
      refine (stage_waits hwaits).mpr ⟨hstage.1, ?_, ?_⟩
      · rw [TransactionBuffer.reset, hstage.2]
      · intro resume hopening
        exact absurd (hafter.symm.trans hopening) (by simp)
  | ends result hbefore hafter hposition hevent =>
      rw [Feed.advance_ends hbefore hafter hevent]
      show Stage c server r.feed.trail r.feed.durable r.left after.position after.buffer
        after.control
      rw [hafter]
      exact hstage.emitted

/-- A session that is opened starts with the transactions behind its position, and everything up
to there was pushed. -/
theorem InStep.opened (h : r.InStep c server) {resume : Position}
    (hopening : r.feed.loop.control = .opening resume)
    (hmoves : r.feed.loop.Moves c r.feed.durable (.opened (.ok ())) after) :
    InStep c server
      ⟨r.feed.advance (.opened (.ok ())) after, messagesOf (server.past resume)⟩ := by
  have hhears : r.feed.Hears (.opened (.ok ())) := fun _ heq => absurd heq (by simp)
  refine ⟨?_, Feed.sends_or_breaks_of_moves hmoves hhears h.sends⟩
  have hwaits : r.feed.loop.control.Waits := hopening ▸ trivial
  obtain ⟨hsettled, hb, hle⟩ := (stage_waits hwaits).mp h.stage
  -- What the session repeats is up to the position, for it goes on from there or from before.
  have hreached : Reached c server r.feed.loop.position (messagesOf (server.past resume))
      r.feed.loop.buffer := by
    refine .between (SlotServer.filter_split server.ascending resume).symm ?_ hb
    intro u hu
    have hu : u.position ≤ resume := by simpa using (List.mem_filter.mp hu).2
    exact hu.trans (hle resume hopening)
  obtain ⟨hafter, hkeeps⟩ := hmoves.opened_facts hopening
  have hreads : after.control.Reads := hafter ▸ trivial
  rw [Feed.advance_opens hopening hafter]
  show Stage c server (r.feed.trail ++ [.opened resume]) r.feed.durable
    (messagesOf (server.past resume)) after.position after.buffer after.control
  rw [hkeeps.1, hkeeps.2]
  exact Stage.congr ((stage_reads hreads).mpr ⟨hsettled, hreached⟩) (by simp [Trail.pushed])
    (fun d hd => .inl hd)

/-- A message of the session is received, and a transaction that it completes is handed over unless
it was pushed before. -/
theorem InStep.polled (hframed : ∀ t ∈ server.committed, t.IsFramed c.plugin)
    (hgrouped : c.settings.grouped = true) (h : r.InStep c server) {m : Message}
    {rest : List Message} (hleft : r.left = m :: rest) {confirmed : Position}
    (hpolling : r.feed.loop.control = .polling confirmed)
    (hmoves : r.feed.loop.Moves c r.feed.durable (.polled (.ok (some m))) after) :
    InStep c server ⟨r.feed.advance (.polled (.ok (some m))) after, rest⟩ := by
  have hhears : r.feed.Hears (.polled (.ok (some m))) := fun _ heq => absurd heq (by simp)
  refine ⟨?_, Feed.sends_or_breaks_of_moves hmoves hhears h.sends⟩
  have hreads : r.feed.loop.control.Reads := hpolling ▸ trivial
  obtain ⟨hsettled, hreached⟩ := (stage_reads hreads).mp h.stage
  rw [hleft] at hreached
  rcases hmoves.polled_cases hpolling with ⟨fault, -, hafter, hkeeps⟩ |
    ⟨hreceive, hafter, -, hposition⟩ | ⟨batch, hreceive, hafter, hposition⟩
  · rw [Feed.advance_rejects hpolling hafter]
    show Stage c server (r.feed.trail ++ [.polled m]) r.feed.durable rest after.position
      after.buffer after.control
    rw [hafter, hkeeps.1, hkeeps.2]
    exact Stage.congr (stage_of_leaves hsettled hreached.grouped) (by simp [Trail.pushed])
      (fun d hd => .inl hd)
  · rw [Feed.advance_collects hpolling hafter]
    show Stage c server (r.feed.trail ++ [.polled m]) r.feed.durable rest after.position
      after.buffer after.control
    rw [hposition]
    rcases hreached.receives hframed hgrouped hreceive with ⟨-, hon⟩ | ⟨batch, hbatch, -⟩
    · exact Stage.congr ((stage_reads hafter).mpr ⟨hsettled, hon⟩) (by simp [Trail.pushed])
        (fun d hd => .inl hd)
    · exact absurd hbatch (by simp)
  · rw [Feed.advance_hands hpolling hafter]
    show Stage c server (r.feed.trail ++ [.polled m] ++ [.pushed batch.records]) r.feed.durable rest
      after.position after.buffer after.control
    rw [hafter, hposition]
    rcases hreached.receives hframed hgrouped hreceive with ⟨hnone, -⟩ | ⟨batch', heq, hnext⟩
    · exact absurd hnone (by simp)
    · obtain rfl := Option.some.inj heq
      obtain ⟨before, more, t, -, -, hlt, hlast, -⟩ := hnext.cut
      obtain ⟨batches, hbatches, hpushed⟩ := hsettled.pushed
      refine ⟨hsettled.start_le, hnext, ⟨batches, hbatches, ?_⟩, fun d hd => ?_⟩
      · rw [Trail.pushed_append, Trail.pushed_append, hpushed]
        simp [Trail.pushed]
      · exact (hsettled.durable_le d hd).trans (hlast ▸ hlt.le)

/-- Giving the loop an answer that is neither a session nor a message keeps the feed in step. -/
theorem InStep.give (h : r.InStep c server) (hhears : r.feed.Hears event)
    (hopened : event ≠ .opened (.ok ())) (hpolled : ∀ m, event ≠ .polled (.ok (some m))) :
    InStep c server ⟨r.feed.give c event, r.left⟩ := by
  unfold Feed.give
  split
  · exact h.moves (Loop.moves_of_step ‹_›) hhears hopened hpolled
  · exact h

/-- What becomes of records keeps the feed in step. -/
theorem InStep.channel (h : r.InStep c server) {channel : Channel Record} {news : List Happening}
    (hpushed : Trail.pushed (r.feed.trail ++ news) = Trail.pushed r.feed.trail)
    (hsends : Feed.Sends { r.feed with channel := channel, trail := r.feed.trail ++ news } ∨
      Feed.Breaks { r.feed with channel := channel, trail := r.feed.trail ++ news }) :
    InStep c server
      ⟨{ r.feed with channel := channel, trail := r.feed.trail ++ news }, r.left⟩ :=
  ⟨h.stage.congr hpushed fun _ hd => .inl hd, hsends⟩

/-- A move of the feed that is neither a session nor a message nor a durable position keeps it in
step. -/
theorem InStep.other (h : r.InStep c server) (move : FeedMove) :
    (r.step c server (.other move)).InStep c server := by
  have hsends := Feed.sends_or_breaks_of_steps (Feed.steps_of_step c r.feed move) h.sends
  cases move with
  | read event =>
      cases event with
      | opened result =>
          cases result with
          | ok _ => exact h
          | error fault => exact h.give (fun _ heq => absurd heq (by simp)) (by simp) (by simp)
      | polled result =>
          rcases result with fault | _ | m
          · exact h.give (fun _ heq => absurd heq (by simp)) (by simp) (by simp)
          · exact h.give (fun _ heq => absurd heq (by simp)) (by simp) (by simp)
          · exact h
      | pushed taken => exact h
      | _ => exact h.give (fun _ heq => absurd heq (by simp)) (by simp) (by simp)
  | learn =>
      show InStep c server ⟨r.feed.step c .learn, r.left⟩
      rw [Feed.step]
      split
      · refine h.give ?_ (by simp) (by simp)
        intro taken heq
        obtain rfl := LoopEvent.pushed.inj heq
        assumption
      · refine h.give ?_ (by simp) (by simp)
        intro taken heq
        obtain rfl := LoopEvent.pushed.inj heq
        assumption
      · exact h
  | receive =>
      show InStep c server ⟨r.feed.step c .receive, r.left⟩
      rw [Feed.step] at hsends ⊢
      split at hsends
      · exact h.channel (by simp [Trail.pushed]) hsends
      · exact h
  | close => exact ⟨h.stage, hsends⟩
  | drop => exact h.channel (by simp [Trail.pushed]) hsends
  | persist position => exact h
  | stop => exact ⟨h.stage, hsends⟩

/-- Every move keeps the feed in step. -/
theorem InStep.step (hframed : ∀ t ∈ server.committed, t.IsFramed c.plugin)
    (hgrouped : c.settings.grouped = true) (h : r.InStep c server) (move : RelayMove) :
    (r.step c server move).InStep c server := by
  cases move with
  | opened =>
      rw [Relay.step]
      split
      · rename_i resume hopening
        unfold Feed.give
        split
        · exact h.opened hopening (Loop.moves_of_step ‹_›)
        · rename_i hstuck
          exact absurd hstuck (by simp [Loop.step, hopening])
      · exact h
  | polled =>
      rw [Relay.step]
      split
      · rename_i m rest confirmed hleft hpolling
        unfold Feed.give
        split
        · exact h.polled hframed hgrouped hleft hpolling (Loop.moves_of_step ‹_›)
        · rename_i hstuck
          exact absurd hstuck (by simp [Loop.step, hpolling])
      · exact h
  | persisted position =>
      rw [Relay.step]
      split
      · rename_i hposition
        have hsends := Feed.sends_or_breaks_of_steps
          (Feed.steps_of_step c r.feed (.persist position)) h.sends
        refine ⟨h.stage.congr rfl fun d hd => .inr ?_, hsends⟩
        obtain ⟨-, -, rfl⟩ := Option.map_eq_some_iff.mp hd
        rcases List.mem_cons.mp hposition with rfl | hreceived
        · exact .inl rfl
        · obtain ⟨record, hrecord, rfl⟩ := List.mem_map.mp hreceived
          refine .inr ⟨record, ?_, rfl⟩
          exact (Feed.pushed_prefix_of h.sends).subset
            (List.mem_append_left _ (Trail.mem_taken_of_received hrecord))
      · exact h
  | other move => exact h.other move

/-- A feed starts in step with its server. -/
theorem in_step_relay (c : FeedContext) (server : SlotServer) (capacity : Nat) (tracked : Bool) :
    (c.relay capacity tracked).InStep c server := by
  have hstart : Settled c server [] (if tracked then some c.start else none) c.start := by
    refine ⟨le_refl _, ⟨[], ?_, rfl⟩, fun d hd => ?_⟩
    · rw [SlotServer.between_self]
      exact .nil
    · cases tracked with
      | true => exact (Option.some.inj hd).symm.le
      | false => exact absurd hd (by simp)
  exact ⟨⟨hstart, rfl⟩, .inl (Feed.sends_feed c capacity _)⟩

/-! ## The main result -/

/-- A feed has pushed the records of the first transactions behind its start, each once and in the
order of the commits. What has arrived in the channel are the first of these records. -/
def PushesOnce (c : FeedContext) (server : SlotServer) (f : Feed) : Prop :=
  ∃ done todo batches, server.past c.start = done ++ todo ∧
    List.Forall₂ (IsConverted c) done batches ∧ Trail.pushed f.trail = batches.flatten ∧
    Trail.taken f.trail ++ f.channel.buffered <+: batches.flatten

/-- A feed that groups pushes the transactions behind its start in the order of their commits, none
left out and none twice, whatever the order of its moves. -/
theorem exactly_once (c : FeedContext) (hgrouped : c.settings.grouped = true)
    (server : SlotServer) (hframed : ∀ t ∈ server.committed, t.IsFramed c.plugin)
    (capacity : Nat) (tracked : Bool) (moves : List RelayMove) :
    PushesOnce c server ((c.relay capacity tracked).run c server moves).feed := by
  have hrun (r : Relay) (h : r.InStep c server) : (r.run c server moves).InStep c server := by
    induction moves generalizing r with
    | nil => exact h
    | cons move rest ih => exact ih _ (h.step hframed hgrouped move)
  have hstep := hrun _ (in_step_relay c server capacity tracked)
  obtain ⟨done, todo, batches, hpast, hbatches, hpushed⟩ := hstep.stage.emitted
  refine ⟨done, todo, batches, hpast, hbatches, hpushed, ?_⟩
  rw [← hpushed]
  exact Feed.pushed_prefix_of hstep.sends

end Relay

/-- The session of a feed fails inside of a transaction, and another one gives it whole. -/
def RelayMove.resumeItem : List RelayMove :=
  let next : List RelayMove := [.other (.read .next), .other (.read .next), .polled]
  [.other (.read .next), .opened] ++ next ++ next ++
    [.other (.read .next), .other (.read .next), .other (.read (.polled (.error .closed))),
      .other (.read (.closed (.ok ()))), .other (.read .next), .other (.read .woke),
      .other (.read .next), .opened] ++ next ++ next ++ next ++ [.other .learn]

/-- A feed whose session failed inside of a transaction pushes it once. -/
theorem Relay.exactly_once_item :
    FeedContext.ofItems.settings.grouped = true ∧
      (∀ t ∈ SlotServer.ofItem.committed, t.IsFramed FeedContext.ofItems.plugin) ∧
      Trail.published ((FeedContext.ofItems.relay 8 true).run .ofItems .ofItem
        RelayMove.resumeItem).feed.trail = [⟨30⟩] ∧
      PushesOnce .ofItems .ofItem ((FeedContext.ofItems.relay 8 true).run .ofItems .ofItem
        RelayMove.resumeItem).feed :=
  ⟨rfl, fun t ht => (SlotServer.framed_item t ht).1, by decide +kernel,
    exactly_once .ofItems rfl .ofItem (fun t ht => (SlotServer.framed_item t ht).1) 8 true
      RelayMove.resumeItem⟩

end ChangeFeed
