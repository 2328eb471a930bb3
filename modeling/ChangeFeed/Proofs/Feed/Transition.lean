import ChangeFeed.Proofs.Feed.Batch

/-!
# What a read loop can do

`Loop.Transition` lists the transitions of a read loop, each with what it needs and the loop that
it leads to (`Loop.transition_of_step`). All that is known about a step that a loop has taken is
drawn from this list.

`Loop.Moves` says what the transitions come to for what is read: how the loop waits for a session,
reads, hands a batch over, publishes a position and leaves. A rule says what happens to the position
and to the buffer, and where the loop goes.
-/

namespace ChangeFeed

namespace Control

/-- The loop has no session and is on its way to one. -/
def Waits : Control → Prop
  | .starting => True
  | .opening _ => True
  | .shaken => True
  | .backingOff => True
  | _ => False

/-- The loop has a session and nothing to hand over. -/
def Reads : Control → Prop
  | .attending _ => True
  | .confirming _ => True
  | .ready _ => True
  | .polling _ => True
  | .pausing _ => True
  | .idling _ => True
  | _ => False

/-- A loop that has a session is not on its way to one. -/
theorem not_waits_of_reads {control : Control} (h : control.Reads) : ¬ control.Waits := by
  cases control <;> first | exact h.elim | exact id

end Control

namespace Loop

/-! ## The transitions one by one -/

/-- The transitions of a read loop. -/
inductive Transition (c : FeedContext) (durable : Option Position) (loop : Loop) :
    LoopEvent → Loop → Prop
  /-- On request the loop ends without a session. -/
  | finishes {event : LoopEvent} (hevent : event = .next ∨ event = .stopSeen)
      (hbefore : loop.control.Waits) (hstop : loop.stopAsked = true) :
      Transition c durable loop event loop.finish
  | starts (hbefore : loop.control = .starting) (hstop : ¬ loop.stopAsked) :
      Transition c durable loop .next (loop.goTo (.opening (c.resume durable loop)))
  | opens (resume : Position) (hbefore : loop.control = .opening resume) :
      Transition c durable loop (.opened (.ok ()))
        (loop.goTo (.attending (c.resume durable loop)))
  | unopened (resume : Position) (fault : SessionFault) (hbefore : loop.control = .opening resume) :
      Transition c durable loop (.opened (.error fault)) (loop.shake c.settings.reconnect fault)
  /-- What is durable is ahead of what is confirmed. -/
  | asks (confirmed target : Position) (hbefore : loop.control = .attending confirmed)
      (hdurable : durable = some target) (hlt : confirmed < target) :
      Transition c durable loop .next (loop.goTo (.confirming target))
  | attends (confirmed : Position) (hbefore : loop.control = .attending confirmed)
      (hle : ∀ position ∈ durable, position ≤ confirmed) :
      Transition c durable loop .next (loop.goTo (.ready confirmed))
  | confirms (target : Position) (hbefore : loop.control = .confirming target) :
      Transition c durable loop (.confirmed (.ok ())) (loop.goTo (.ready target))
  | unconfirmed (target : Position) (fault : SessionFault)
      (hbefore : loop.control = .confirming target) :
      Transition c durable loop (.confirmed (.error fault))
        (loop.goTo (.closing (.error (.session fault))))
  /-- On request the loop leaves its session. -/
  | leaves {event : LoopEvent} (hevent : event = .next ∨ event = .stopSeen)
      (hbefore : loop.control.Reads) (hstop : loop.stopAsked = true) :
      Transition c durable loop event loop.leave
  | polls (confirmed : Position) (hbefore : loop.control = .ready confirmed)
      (hstop : ¬ loop.stopAsked) :
      Transition c durable loop .next (loop.goTo (.polling confirmed))
  | findsNothing (confirmed : Position) (hbefore : loop.control = .polling confirmed) :
      Transition c durable loop (.polled (.ok none)) (loop.recover.goTo (.pausing confirmed))
  | takes (confirmed : Position) (m : Message) (hbefore : loop.control = .polling confirmed) :
      Transition c durable loop (.polled (.ok (some m))) (take c durable loop.recover confirmed m)
  | unpolled (confirmed : Position) (fault : SessionFault)
      (hbefore : loop.control = .polling confirmed) :
      Transition c durable loop (.polled (.error fault))
        (loop.goTo (.closing (.error (.session fault))))
  | publishes (records : List Record) (last confirmed : Position)
      (hbefore : loop.control = .pushing records last confirmed) :
      Transition c durable loop (.pushed true)
        ({ loop with position := max loop.position last }.settle durable confirmed)
  | refused (records : List Record) (last confirmed : Position)
      (hbefore : loop.control = .pushing records last confirmed) :
      Transition c durable loop (.pushed false) (loop.goTo (.closing (.error .channelClosed)))
  | rests (confirmed : Position) (hbefore : loop.control = .pausing confirmed)
      (hstop : ¬ loop.stopAsked) :
      Transition c durable loop .next (loop.goTo (.idling confirmed))
  | wakes (confirmed : Position) (hbefore : loop.control = .idling confirmed) :
      Transition c durable loop .woke (loop.goTo (.attending confirmed))
  | closes (closed : Except SessionFault Unit) (hbefore : loop.control = .closing (.ok ())) :
      Transition c durable loop (.closed closed) loop.finish
  | shakes (fault : SessionFault) (closed : Except SessionFault Unit)
      (hbefore : loop.control = .closing (.error (.session fault))) :
      Transition c durable loop (.closed closed) (loop.shake c.settings.reconnect fault)
  /-- A new session does not overcome the fault. -/
  | fails (fault : FeedFault) (closed : Except SessionFault Unit)
      (hfault : ∀ reason, fault ≠ .session reason)
      (hbefore : loop.control = .closing (.error fault)) :
      Transition c durable loop (.closed closed) (loop.fail fault)
  | backsOff (hbefore : loop.control = .shaken) (hstop : ¬ loop.stopAsked) :
      Transition c durable loop .next (loop.goTo .backingOff)
  | restarts (hbefore : loop.control = .backingOff) :
      Transition c durable loop .woke (loop.goTo .starting)

section

variable {c : FeedContext} {durable : Option Position} {loop after : Loop}

/-- A request to stop that is seen is one that was made. -/
theorem eq_of_stop_seen {ending : Loop} (h : (if loop.stopAsked then some ending else none) =
    some after) : loop.stopAsked = true ∧ ending = after := by
  split at h
  · exact ⟨by assumption, Option.some.inj h⟩
  · exact absurd h (by simp)

/-- Every step is one of the transitions. -/
theorem transition_of_step {event : LoopEvent} (h : loop.step c durable event = some after) :
    Transition c durable loop event after := by
  -- The cases are those of the step, in its order.
  unfold step unlessStopped at h
  split at h <;> rename_i hcontrol
  · split at h <;> rename_i hstop <;> obtain rfl := Option.some.inj h
    · exact .finishes (.inl rfl) (hcontrol ▸ trivial) hstop
    · exact .starts hcontrol hstop
  · obtain rfl := Option.some.inj h
    exact .opens _ hcontrol
  · obtain rfl := Option.some.inj h
    exact .unopened _ _ hcontrol
  · obtain ⟨hstop, rfl⟩ := eq_of_stop_seen h
    exact .finishes (.inr rfl) (hcontrol ▸ trivial) hstop
  · rename_i confirmed
    cases durable with
    | none =>
        obtain rfl := Option.some.inj h
        exact .attends _ hcontrol nofun
    | some position =>
        dsimp only at h
        split at h <;> rename_i hahead <;> obtain rfl := Option.some.inj h
        · exact .asks _ _ hcontrol rfl hahead
        · refine .attends _ hcontrol ?_
          rintro _ ⟨⟩
          exact not_lt.mp hahead
  · obtain rfl := Option.some.inj h
    exact .confirms _ hcontrol
  · obtain rfl := Option.some.inj h
    exact .unconfirmed _ _ hcontrol
  · split at h <;> rename_i hstop <;> obtain rfl := Option.some.inj h
    · exact .leaves (.inl rfl) (hcontrol ▸ trivial) hstop
    · exact .polls _ hcontrol hstop
  · obtain rfl := Option.some.inj h
    exact .findsNothing _ hcontrol
  · obtain rfl := Option.some.inj h
    exact .takes _ _ hcontrol
  · obtain rfl := Option.some.inj h
    exact .unpolled _ _ hcontrol
  · obtain ⟨hstop, rfl⟩ := eq_of_stop_seen h
    exact .leaves (.inr rfl) (hcontrol ▸ trivial) hstop
  · obtain rfl := Option.some.inj h
    exact .publishes _ _ _ hcontrol
  · obtain rfl := Option.some.inj h
    exact .refused _ _ _ hcontrol
  · split at h <;> rename_i hstop <;> obtain rfl := Option.some.inj h
    · exact .leaves (.inl rfl) (hcontrol ▸ trivial) hstop
    · exact .rests _ hcontrol hstop
  · obtain rfl := Option.some.inj h
    exact .wakes _ hcontrol
  · obtain ⟨hstop, rfl⟩ := eq_of_stop_seen h
    exact .leaves (.inr rfl) (hcontrol ▸ trivial) hstop
  · obtain rfl := Option.some.inj h
    exact .closes _ hcontrol
  · obtain rfl := Option.some.inj h
    exact .shakes _ _ hcontrol
  · rename_i hfault
    obtain rfl := Option.some.inj h
    exact .fails _ _ hfault hcontrol
  · split at h <;> rename_i hstop <;> obtain rfl := Option.some.inj h
    · exact .finishes (.inl rfl) (hcontrol ▸ trivial) hstop
    · exact .backsOff hcontrol hstop
  · obtain rfl := Option.some.inj h
    exact .restarts hcontrol
  · obtain ⟨hstop, rfl⟩ := eq_of_stop_seen h
    exact .finishes (.inr rfl) (hcontrol ▸ trivial) hstop
  · exact absurd h (by simp)

end

/-! ## What the transitions come to for what is read -/

/-- A loop keeps its position and its buffer. -/
def Keeps (loop after : Loop) : Prop :=
  after.position = loop.position ∧ after.buffer = loop.buffer

/-- A loop that is about to confirm confirms what is durable, where durability is tracked. -/
def ConfirmsDurable (durable : Option Position) (after : Loop) : Prop :=
  ∀ target, after.control = .confirming target → durable = none ∨ durable = some target

/-- The rules for the transitions of a read loop. -/
inductive Moves (c : FeedContext) (durable : Option Position) (loop : Loop) :
    LoopEvent → Loop → Prop
  /-- The loop goes on without a session. -/
  | waits {event : LoopEvent} {after : Loop} (hbefore : loop.control.Waits)
      (hafter : after.control.Waits)
      (hresume : ∀ resume, after.control = .opening resume → resume = c.resume durable loop)
      (hposition : after.position = loop.position)
      (hbuffer : after.buffer = loop.buffer ∨ after.buffer = loop.buffer.reset)
      (hevent : event ≠ .opened (.ok ())) : Moves c durable loop event after
  /-- The loop has a session. -/
  | opens {after : Loop} (resume : Position) (hbefore : loop.control = .opening resume)
      (hafter : after.control = .attending (c.resume durable loop)) (hkeeps : loop.Keeps after) :
      Moves c durable loop (.opened (.ok ())) after
  /-- The loop goes on with its session and has received nothing. -/
  | reads {event : LoopEvent} {after : Loop} (hbefore : loop.control.Reads)
      (hafter : after.control.Reads) (hconfirm : after.ConfirmsDurable durable)
      (hevent : ∀ m, event ≠ .polled (.ok (some m))) (hkeeps : loop.Keeps after) :
      Moves c durable loop event after
  /-- The loop leaves its session. -/
  | leaves {event : LoopEvent} {after : Loop} (outcome : Except FeedFault Unit)
      (hbefore : loop.control.Reads) (hafter : after.control = .closing outcome)
      (hevent : ∀ m, event ≠ .polled (.ok (some m))) (hkeeps : loop.Keeps after) :
      Moves c durable loop event after
  /-- The loop leaves its session because of a message. -/
  | rejects {after : Loop} (m : Message) (fault : FeedFault) (confirmed : Position)
      (hbefore : loop.control = .polling confirmed) (hreceive : c.receive loop m = .error fault)
      (hafter : after.control = .closing (.error fault)) (hkeeps : loop.Keeps after) :
      Moves c durable loop (.polled (.ok (some m))) after
  /-- The loop has received a message that gives nothing to hand over. -/
  | collects {after : Loop} (m : Message) (buffer : TransactionBuffer) (confirmed : Position)
      (hbefore : loop.control = .polling confirmed)
      (hreceive : c.receive loop m = .ok (buffer, none)) (hafter : after.control.Reads)
      (hconfirm : after.ConfirmsDurable durable) (hposition : after.position = loop.position)
      (hbuffer : after.buffer = buffer) : Moves c durable loop (.polled (.ok (some m))) after
  /-- The loop has received a message that gives a batch to hand over. -/
  | hands {after : Loop} (m : Message) (buffer : TransactionBuffer) (batch : Batch)
      (confirmed : Position) (hbefore : loop.control = .polling confirmed)
      (hreceive : c.receive loop m = .ok (buffer, some batch))
      (hafter : after.control = .pushing batch.records batch.last confirmed)
      (hposition : after.position = loop.position) (hbuffer : after.buffer = buffer) :
      Moves c durable loop (.polled (.ok (some m))) after
  /-- The batch is handed over and its end published. -/
  | publishes {after : Loop} (records : List Record) (last confirmed : Position)
      (hbefore : loop.control = .pushing records last confirmed) (hafter : after.control.Reads)
      (hconfirm : after.ConfirmsDurable durable)
      (hposition : after.position = max loop.position last)
      (hbuffer : after.buffer = loop.buffer) : Moves c durable loop (.pushed true) after
  /-- The channel does not take the batch. -/
  | refused {after : Loop} (records : List Record) (last confirmed : Position)
      (hbefore : loop.control = .pushing records last confirmed)
      (hafter : after.control = .closing (.error .channelClosed)) (hkeeps : loop.Keeps after) :
      Moves c durable loop (.pushed false) after
  /-- The session failed and the loop tries again; what it held back is forgotten. -/
  | recovers {after : Loop} (fault : SessionFault) (closed : Except SessionFault Unit)
      (hbefore : loop.control = .closing (.error (.session fault)))
      (hafter : after.control = .shaken) (hposition : after.position = loop.position)
      (hbuffer : after.buffer = loop.buffer.reset) : Moves c durable loop (.closed closed) after
  /-- The loop ends. -/
  | ends {event : LoopEvent} {after : Loop} (result : Except FeedFault Position)
      (hbefore : loop.control.Waits ∨ ∃ outcome, loop.control = .closing outcome)
      (hafter : after.control = .finished result) (hposition : after.position = loop.position)
      (hevent : event ≠ .opened (.ok ())) : Moves c durable loop event after

variable {c : FeedContext} {durable : Option Position} {loop after : Loop}

/-- A loop that reads has read before or has handed a batch over, unless it has just opened its
session. -/
theorem Moves.reads_before {event : LoopEvent} (h : Moves c durable loop event after)
    (hopened : event ≠ .opened (.ok ())) (hreads : after.control.Reads) :
    loop.control.Reads ∨
      ∃ records last confirmed, loop.control = .pushing records last confirmed := by
  cases h with
  | waits hbefore hafter hresume hposition hbuffer hevent =>
      exact absurd hafter (Control.not_waits_of_reads hreads)
  | opens resume hbefore hafter hkeeps => exact absurd rfl hopened
  | reads hbefore hafter hconfirm hevent hkeeps => exact .inl hbefore
  | leaves outcome hbefore hafter hevent hkeeps => exact .inl hbefore
  | rejects m fault confirmed hbefore hreceive hafter hkeeps => exact .inl (hbefore ▸ trivial)
  | collects m buffer confirmed hbefore hreceive hafter hconfirm hposition hbuffer =>
      exact .inl (hbefore ▸ trivial)
  | hands m buffer batch confirmed hbefore hreceive hafter hposition hbuffer =>
      exact .inl (hbefore ▸ trivial)
  | publishes records last confirmed hbefore hafter hconfirm hposition hbuffer =>
      exact .inr ⟨records, last, confirmed, hbefore⟩
  | refused records last confirmed hbefore hafter hkeeps =>
      exact .inr ⟨records, last, confirmed, hbefore⟩
  | recovers fault closed hbefore hafter hposition hbuffer =>
      rw [hafter] at hreads
      exact hreads.elim
  | ends result hbefore hafter hposition hevent =>
      rw [hafter] at hreads
      exact hreads.elim

/-- A loop that neither has a session nor hands a batch over reads only once it has opened one. -/
theorem Moves.not_reads {event : LoopEvent} (h : Moves c durable loop event after)
    (hopened : event ≠ .opened (.ok ())) (hreads : ¬ loop.control.Reads)
    (hpushing : ∀ records last confirmed, loop.control ≠ .pushing records last confirmed) :
    ¬ after.control.Reads := by
  intro hafter
  rcases h.reads_before hopened hafter with hbefore | ⟨records, last, confirmed, hbefore⟩
  · exact hreads hbefore
  · exact hpushing records last confirmed hbefore

/-- A loop whose session has opened attends it. -/
theorem Moves.opened_facts (h : Moves c durable loop (.opened (.ok ())) after)
    {resume : Position} (hopening : loop.control = .opening resume) :
    after.control = .attending (c.resume durable loop) ∧ loop.Keeps after := by
  cases h with
  | opens _ hbefore hafter hkeeps => exact ⟨hafter, hkeeps⟩
  | waits hbefore hafter hresume hposition hbuffer hevent => exact absurd rfl hevent
  | reads hbefore hafter hconfirm hevent hkeeps =>
      rw [hopening] at hbefore
      exact hbefore.elim
  | leaves outcome hbefore hafter hevent hkeeps =>
      rw [hopening] at hbefore
      exact hbefore.elim
  | ends result hbefore hafter hposition hevent => exact absurd rfl hevent

/-- A loop that has received a message leaves its session because of it, goes on to read, or hands
a batch over. -/
theorem Moves.polled_cases {m : Message} (h : Moves c durable loop (.polled (.ok (some m))) after)
    {confirmed : Position} (hpolling : loop.control = .polling confirmed) :
    (∃ fault, c.receive loop m = .error fault ∧ after.control = .closing (.error fault) ∧
      loop.Keeps after) ∨
    (c.receive loop m = .ok (after.buffer, none) ∧ after.control.Reads ∧
      after.ConfirmsDurable durable ∧ after.position = loop.position) ∨
    ∃ batch, c.receive loop m = .ok (after.buffer, some batch) ∧
      after.control = .pushing batch.records batch.last confirmed ∧
      after.position = loop.position := by
  cases h with
  | rejects _ fault _ hbefore hreceive hafter hkeeps => exact .inl ⟨fault, hreceive, hafter, hkeeps⟩
  | collects _ buffer _ hbefore hreceive hafter hconfirm hposition hbuffer =>
      exact .inr (.inl ⟨hbuffer ▸ hreceive, hafter, hconfirm, hposition⟩)
  | hands _ buffer batch _ hbefore hreceive hafter hposition hbuffer =>
      obtain rfl := Control.polling.inj (hbefore.symm.trans hpolling)
      exact .inr (.inr ⟨batch, hbuffer ▸ hreceive, hafter, hposition⟩)
  | waits hbefore hafter hresume hposition hbuffer hevent =>
      rw [hpolling] at hbefore
      exact hbefore.elim
  | reads hbefore hafter hconfirm hevent hkeeps => exact absurd rfl (hevent m)
  | leaves outcome hbefore hafter hevent hkeeps => exact absurd rfl (hevent m)
  | ends result hbefore hafter hposition hevent =>
      rcases hbefore with hbefore | ⟨outcome, hbefore⟩
      · rw [hpolling] at hbefore
        exact hbefore.elim
      · exact absurd (hpolling.symm.trans hbefore) (by simp)

/-! ## Where the parts of a transition go -/

/-- A failure of a session leads to the next attempt or to the end. -/
theorem shake_cases (loop : Loop) (policy : ReconnectPolicy) (fault : SessionFault) :
    (loop.shake policy fault).position = loop.position ∧
      ((∃ result, (loop.shake policy fault).control = .finished result) ∨
        (loop.shake policy fault).control = .shaken ∧
          (loop.shake policy fault).buffer = loop.buffer.reset) := by
  unfold shake
  dsimp only
  split
  · exact ⟨rfl, .inl ⟨_, rfl⟩⟩
  · exact ⟨rfl, .inr ⟨rfl, rfl⟩⟩

/-- A poll that succeeded changes nothing of what is read. -/
theorem recover_facts (loop : Loop) :
    loop.recover.position = loop.position ∧ loop.recover.buffer = loop.buffer := by
  unfold recover
  split <;> exact ⟨rfl, rfl⟩

/-- After a message was dealt with, the loop goes on with its session. -/
theorem settle_facts (loop : Loop) (durable : Option Position) (confirmed : Position) :
    (loop.settle durable confirmed).control.Reads ∧
      (loop.settle durable confirmed).ConfirmsDurable durable ∧
      (loop.settle durable confirmed).position = loop.position ∧
      (loop.settle durable confirmed).buffer = loop.buffer := by
  unfold settle
  split
  · rename_i hnone
    exact ⟨trivial, fun _ _ => .inl (by simpa using hnone.1), rfl, rfl⟩
  · refine ⟨trivial, ?_, rfl, rfl⟩
    intro target h
    exact absurd h (by simp [goTo])

/-- Receiving looks at nothing but the position and the buffer. -/
theorem receive_of_keeps (h : loop.Keeps after) (m : Message) :
    c.receive after m = c.receive loop m := by
  obtain ⟨hposition, hbuffer⟩ := h
  unfold FeedContext.receive
  rw [hposition, hbuffer]

/-- Dealing with a message follows the rules. -/
theorem moves_of_take {confirmed : Position} (h : loop.control = .polling confirmed)
    (m : Message) :
    Moves c durable loop (.polled (.ok (some m))) (take c durable loop.recover confirmed m) := by
  have hrecover := loop.recover_facts
  have hreceive := receive_of_keeps (c := c) hrecover m
  unfold take
  split
  · rename_i fault hfault
    exact .rejects m fault confirmed h (hreceive ▸ hfault) rfl hrecover
  · rename_i buffer hok
    obtain ⟨hreads, hconfirm, hposition, hbuffer⟩ :=
      settle_facts { loop.recover with buffer := buffer } durable confirmed
    exact .collects m buffer confirmed h (hreceive ▸ hok) hreads hconfirm
      (hposition.trans hrecover.1) hbuffer
  · rename_i buffer batch hok
    exact .hands m buffer batch confirmed h (hreceive ▸ hok) rfl hrecover.1 rfl

/-- Going on without a session follows the rules. -/
theorem moves_of_wait {event : LoopEvent} {control : Control} (hbefore : loop.control.Waits)
    (hafter : control.Waits) (hresume : ∀ resume, control = .opening resume →
      resume = c.resume durable loop) (hevent : event ≠ .opened (.ok ())) :
    Moves c durable loop event (loop.goTo control) :=
  .waits hbefore hafter hresume rfl (.inl rfl) hevent

/-- Going on with a session follows the rules. -/
theorem moves_of_read {event : LoopEvent} {control : Control} (hbefore : loop.control.Reads)
    (hafter : control.Reads) (hconfirm : ∀ target, control = .confirming target →
      durable = none ∨ durable = some target) (hevent : ∀ m, event ≠ .polled (.ok (some m))) :
    Moves c durable loop event (loop.goTo control) :=
  .reads hbefore hafter hconfirm hevent ⟨rfl, rfl⟩

/-- Leaving a session follows the rules. -/
theorem moves_of_leave {event : LoopEvent} {outcome : Except FeedFault Unit}
    (hbefore : loop.control.Reads) (hevent : ∀ m, event ≠ .polled (.ok (some m))) :
    Moves c durable loop event (loop.goTo (.closing outcome)) :=
  .leaves outcome hbefore rfl hevent ⟨rfl, rfl⟩

/-- Ending on request follows the rules. -/
theorem moves_of_finish {event : LoopEvent}
    (hbefore : loop.control.Waits ∨ ∃ outcome, loop.control = .closing outcome)
    (hevent : event ≠ .opened (.ok ())) : Moves c durable loop event loop.finish :=
  .ends _ hbefore rfl rfl hevent

/-- A failure to open a session follows the rules. -/
theorem moves_of_shake {fault : SessionFault} {resume : Position}
    (h : loop.control = .opening resume) :
    Moves c durable loop (.opened (.error fault)) (loop.shake c.settings.reconnect fault) := by
  have hwaits : loop.control.Waits := h ▸ trivial
  obtain ⟨hposition, ⟨result, hresult⟩ | ⟨hshaken, hbuffer⟩⟩ :=
    loop.shake_cases c.settings.reconnect fault
  · exact .ends result (.inl hwaits) hresult hposition (by simp)
  · refine .waits hwaits (hshaken ▸ trivial) ?_ hposition (.inr hbuffer) (by simp)
    intro resume h
    exact absurd (hshaken.symm.trans h) (by simp)

/-- Trying again after a session follows the rules. -/
theorem moves_of_close {fault : SessionFault} {closed : Except SessionFault Unit}
    (h : loop.control = .closing (.error (.session fault))) :
    Moves c durable loop (.closed closed) (loop.shake c.settings.reconnect fault) := by
  obtain ⟨hposition, ⟨result, hresult⟩ | ⟨hshaken, hbuffer⟩⟩ :=
    loop.shake_cases c.settings.reconnect fault
  · exact .ends result (.inr ⟨_, h⟩) hresult hposition (by simp)
  · exact .recovers fault closed h hshaken hposition hbuffer

/-- Every transition follows the rules. -/
theorem moves_of_step {event : LoopEvent} (h : loop.step c durable event = some after) :
    Moves c durable loop event after := by
  cases transition_of_step h with
  | finishes hevent hbefore hstop =>
      exact moves_of_finish (.inl hbefore) (by rcases hevent with rfl | rfl <;> simp)
  | starts hbefore hstop =>
      exact moves_of_wait (hbefore ▸ trivial) trivial (by simp [eq_comm]) (by simp)
  | opens resume hbefore => exact .opens resume hbefore rfl ⟨rfl, rfl⟩
  | unopened resume fault hbefore => exact moves_of_shake hbefore
  | asks confirmed target hbefore hdurable hlt =>
      exact moves_of_read (hbefore ▸ trivial) trivial (by simp [hdurable]) (by simp)
  | attends confirmed hbefore | confirms target hbefore | polls confirmed hbefore
  | rests confirmed hbefore | wakes confirmed hbefore =>
      exact moves_of_read (hbefore ▸ trivial) trivial (by simp) (by simp)
  | unconfirmed target fault hbefore | unpolled confirmed fault hbefore =>
      exact moves_of_leave (hbefore ▸ trivial) (by simp)
  | leaves hevent hbefore hstop =>
      exact moves_of_leave hbefore (by rcases hevent with rfl | rfl <;> simp)
  | findsNothing confirmed hbefore =>
      exact .reads (hbefore ▸ trivial) trivial (fun _ h => absurd h (by simp [goTo])) (by simp)
        loop.recover_facts
  | takes confirmed m hbefore => exact moves_of_take hbefore m
  | publishes records last confirmed hbefore =>
      obtain ⟨hreads, hconfirm, hposition, hbuffer⟩ :=
        settle_facts { loop with position := max loop.position last } durable confirmed
      exact .publishes records last confirmed hbefore hreads hconfirm hposition hbuffer
  | refused records last confirmed hbefore =>
      exact .refused records last confirmed hbefore rfl ⟨rfl, rfl⟩
  | closes closed hbefore => exact moves_of_finish (.inr ⟨_, hbefore⟩) (by simp)
  | shakes fault closed hbefore => exact moves_of_close hbefore
  | fails fault closed hfault hbefore => exact .ends _ (.inr ⟨_, hbefore⟩) rfl rfl (by simp)
  | backsOff hbefore | restarts hbefore =>
      exact moves_of_wait (hbefore ▸ trivial) trivial (by simp) (by simp)

/-- A loop whose session fails does not read any more. -/
theorem not_reads_of_fault {event : LoopEvent} {fault : SessionFault}
    (h : loop.step c durable event = some after)
    (hevent : event = .confirmed (.error fault) ∨ event = .polled (.error fault)) :
    ¬ after.control.Reads := by
  cases transition_of_step h with
  | unconfirmed | unpolled => exact id
  | finishes hown | leaves hown => rcases hown with rfl | rfl <;> simp at hevent
  | _ => simp at hevent

end Loop

end ChangeFeed
