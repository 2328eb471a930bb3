import ChangeFeed.Proofs.Feed.Transition

/-!
# What a turn of a read loop comes to

The transitions of a read loop by what they come to for its life, for the count of its failures and
for a request to stop (`Loop.Turns`). `Loop.turns_of_step` draws them from the list of transitions;
`Loop.Moves` says what the same transitions come to for what is read. A loop that was asked to stop
comes closer to its end with every turn (`Loop.Turns.rank_lt`).
-/

namespace ChangeFeed

namespace LoopEvent

/-- The event says nothing about whether a session works. -/
def IsPlain : LoopEvent → Prop
  | .opened (.error _) => False
  | .confirmed (.error _) => False
  | .polled _ => False
  | .pushed false => False
  | .closed _ => False
  | _ => True

/-- The event is the failure of a session that was open. -/
def BreaksWith (fault : SessionFault) : LoopEvent → Prop
  | .confirmed (.error other) => other = fault
  | .polled (.error other) => other = fault
  | _ => False

/-- A loop that goes on by itself or sees a request to stop learns nothing about its session. -/
theorem is_plain_of_own {event : LoopEvent} (h : event = .next ∨ event = .stopSeen) :
    event.IsPlain := by
  rcases h with rfl | rfl <;> trivial

end LoopEvent

namespace Lifecycle

/-- Nothing holds a feed back from its end. -/
@[simp]
theorem move_to_stopped (current : Lifecycle) : Lifecycle.stopped.moveTo current = .stopped := by
  simp [moveTo, isActive]

/-- Nothing holds a feed back from a failure. -/
@[simp]
theorem move_to_failed (current : Lifecycle) : Lifecycle.failed.moveTo current = .failed := by
  simp [moveTo, isActive]

end Lifecycle

namespace Control

/-- The loop neither closes a session nor has ended. -/
def UnderWay : Control → Prop
  | .closing _ => False
  | .finished _ => False
  | _ => True

/-- The loop has started an operation that a request to stop cuts short: an open or a poll. -/
def Starts : Control → Prop
  | .opening _ => True
  | .polling _ => True
  | _ => False

/-- The loop has no session and will have to open one. -/
def Unopened : Control → Prop
  | .starting => True
  | .shaken => True
  | .backingOff => True
  | .closing (.error (.session _)) => True
  | _ => False

/-- The most turns that a loop takes to its end once it was asked to stop. -/
def rank : Control → Nat
  | .finished _ => 0
  | .starting => 1
  | .shaken => 1
  | .closing _ => 2
  | .backingOff => 2
  | .ready _ => 3
  | .pausing _ => 3
  | .confirming _ => 4
  | .attending _ => 5
  | .opening _ => 6
  | .idling _ => 6
  | .pushing _ _ _ => 6
  | .polling _ => 7

/-- The answers of the world that a loop waits for. -/
def Awaits : Control → LoopEvent → Prop
  | .starting, .next => True
  | .opening _, .opened _ => True
  | .attending _, .next => True
  | .confirming _, .confirmed _ => True
  | .ready _, .next => True
  | .polling _, .polled _ => True
  | .pushing _ _ _, .pushed _ => True
  | .pausing _, .next => True
  | .idling _, .woke => True
  | .closing _, .closed _ => True
  | .shaken, .next => True
  | .backingOff, .woke => True
  | _, _ => False

/-- A loop that is not on its way to a session and not at the rank of a poll has started neither. -/
theorem not_starts {control : Control} (hwaits : ¬ control.Waits) (hrank : control.rank < 7) :
    ¬ control.Starts := by
  cases control <;>
    first | exact id | exact absurd trivial hwaits | exact absurd hrank (Nat.lt_irrefl 7)

/-- A loop on its way to a session has not ended. -/
theorem Waits.rank_pos {control : Control} (h : control.Waits) : 0 < control.rank := by
  cases control <;> first | exact h.elim | exact Nat.succ_pos _

/-- A loop that is under way has not ended. -/
theorem UnderWay.not_finished {control : Control} (h : control.UnderWay)
    (result : Except FeedFault Position) : control ≠ .finished result := by
  rintro rfl
  exact h

/-- A loop that has to open a session and closes none is on its way to one. -/
theorem Unopened.waits {control : Control} (h : control.Unopened) (hway : control.UnderWay) :
    control.Waits := by
  cases control <;> first | exact h.elim | exact hway.elim | trivial

/-- A loop on its way to a session neither closes one nor has ended. -/
theorem Waits.under_way {control : Control} (h : control.Waits) : control.UnderWay := by
  cases control <;> first | exact h.elim | trivial

/-- A loop that reads is farther from its end than one that closes its session. -/
theorem Reads.rank_gt {control : Control} (h : control.Reads) : 2 < control.rank := by
  cases control <;> first | exact h.elim | simp [rank]

/-- A loop that reads neither closes a session nor has ended. -/
theorem Reads.under_way {control : Control} (h : control.Reads) : control.UnderWay := by
  cases control <;> first | exact h.elim | trivial

end Control

namespace Loop

/-- A loop keeps the count of its failures, its life and the request to stop. -/
def KeepsLife (loop after : Loop) : Prop :=
  after.failures = loop.failures ∧ after.lifecycle = loop.lifecycle ∧
    after.stopAsked = loop.stopAsked

/-- What a turn comes to. -/
inductive Turns (c : FeedContext) (durable : Option Position) (loop : Loop) :
    LoopEvent → Loop → Prop
  /-- The loop goes on. It comes to a session only where it has to open one, and it starts neither an
  open nor a poll once it was asked to stop. -/
  | goes {event : LoopEvent} {after : Loop} (hevent : event.IsPlain)
      (hbefore : loop.control.UnderWay) (hafter : after.control.UnderWay)
      (hwaits : after.control.Waits → loop.control.Unopened)
      (hstopped : loop.stopAsked →
        ¬ after.control.Starts ∧ after.control.rank < loop.control.rank)
      (hkeeps : loop.KeepsLife after) : Turns c durable loop event after
  /-- The loop leaves its session on request. -/
  | leaves {event : LoopEvent} (hevent : event.IsPlain) (hbefore : loop.control.Reads)
      (hrank : 2 < loop.control.rank) (hstop : loop.stopAsked = true) :
      Turns c durable loop event loop.leave
  /-- The channel does not take a batch. -/
  | refused {records : List Record} {last confirmed : Position}
      (hbefore : loop.control = .pushing records last confirmed) :
      Turns c durable loop (.pushed false) (loop.goTo (.closing (.error .channelClosed)))
  /-- A session that was open fails. -/
  | breaks {event : LoopEvent} (fault : SessionFault) (hevent : event.BreaksWith fault)
      (hbefore : loop.control.Reads) (hrank : 2 < loop.control.rank) :
      Turns c durable loop event (loop.goTo (.closing (.error (.session fault))))
  /-- A poll succeeds, and the loop goes on. -/
  | recovers {after : Loop} {confirmed : Position} (result : Option Message)
      (hbefore : loop.control = .polling confirmed)
      (hreceive : ∀ m, result = some m → ∃ received, c.receive loop m = .ok received)
      (hafter : after.control.UnderWay) (hwaits : ¬ after.control.Waits)
      (hrank : after.control.rank < 7) (hkeeps : loop.recover.KeepsLife after) :
      Turns c durable loop (.polled (.ok result)) after
  /-- A poll succeeds with a message that ends the session. -/
  | rejects {confirmed : Position} (m : Message) (fault : FeedFault)
      (hbefore : loop.control = .polling confirmed) (hreceive : c.receive loop m = .error fault) :
      Turns c durable loop (.polled (.ok (some m)))
        (loop.recover.goTo (.closing (.error fault)))
  /-- A session could not be opened. -/
  | unopened {resume : Position} (fault : SessionFault) (hbefore : loop.control = .opening resume) :
      Turns c durable loop (.opened (.error fault)) (loop.shake c.settings.reconnect fault)
  /-- A session that failed is gone. -/
  | shakes (fault : SessionFault) (closed : Except SessionFault Unit)
      (hbefore : loop.control = .closing (.error (.session fault))) :
      Turns c durable loop (.closed closed) (loop.shake c.settings.reconnect fault)
  /-- The loop ends on request without a session. -/
  | finishes {event : LoopEvent} (hevent : event.IsPlain) (hbefore : loop.control.Waits)
      (hstop : loop.stopAsked = true) : Turns c durable loop event loop.finish
  /-- The loop ends on request behind its session. -/
  | closes (closed : Except SessionFault Unit) (hbefore : loop.control = .closing (.ok ())) :
      Turns c durable loop (.closed closed) loop.finish
  /-- The loop ends because of a fault that a new session does not overcome. -/
  | fails (fault : FeedFault) (closed : Except SessionFault Unit)
      (hfault : ∀ reason, fault ≠ .session reason)
      (hbefore : loop.control = .closing (.error fault)) :
      Turns c durable loop (.closed closed) (loop.fail fault)

variable {c : FeedContext} {durable : Option Position} {loop after : Loop}

/-! ## Where the rules come from -/

/-- Going on to another control point keeps the life of the loop. -/
theorem keeps_life_go_to (loop : Loop) (control : Control) :
    loop.KeepsLife (loop.goTo control) :=
  ⟨rfl, rfl, rfl⟩

/-- Going on after a message keeps the life of the loop and comes closer to its end than a push or
a poll. -/
theorem settle_life (loop : Loop) (durable : Option Position) (confirmed : Position) :
    loop.KeepsLife (loop.settle durable confirmed) ∧
      (loop.settle durable confirmed).control.UnderWay ∧
      ¬ (loop.settle durable confirmed).control.Waits ∧
      (loop.settle durable confirmed).control.rank < 6 := by
  unfold settle
  split
  · exact ⟨⟨rfl, rfl, rfl⟩, trivial, id, by simp [goTo, Control.rank]⟩
  · exact ⟨⟨rfl, rfl, rfl⟩, trivial, id, by simp [goTo, Control.rank]⟩

/-- Going on towards the end is a turn, whether or not somebody has asked the loop to stop. -/
theorem turns_of_go {event : LoopEvent} {control : Control} (hevent : event.IsPlain)
    (hbefore : loop.control.UnderWay) (hafter : control.UnderWay)
    (hwaits : control.Waits → loop.control.Unopened) (hstarts : ¬ control.Starts)
    (hrank : control.rank < loop.control.rank) :
    Turns c durable loop event (loop.goTo control) :=
  .goes hevent hbefore hafter hwaits (fun _ => ⟨hstarts, hrank⟩) (loop.keeps_life_go_to control)

/-- Going on where nobody has asked the loop to stop is a turn. -/
theorem turns_of_proceed {event : LoopEvent} {control : Control} (hevent : event.IsPlain)
    (hbefore : loop.control.UnderWay) (hafter : control.UnderWay)
    (hwaits : control.Waits → loop.control.Unopened) (hstop : ¬ loop.stopAsked) :
    Turns c durable loop event (loop.goTo control) :=
  .goes hevent hbefore hafter hwaits (fun hasked => absurd hasked hstop)
    (loop.keeps_life_go_to control)

/-- Dealing with a message is a turn. -/
theorem turns_of_take {confirmed : Position} (h : loop.control = .polling confirmed)
    (m : Message) :
    Turns c durable loop (.polled (.ok (some m))) (take c durable loop.recover confirmed m) := by
  have hreceive := receive_of_keeps (c := c) loop.recover_facts m
  unfold take
  split
  · rename_i fault hfault
    exact .rejects m fault h (hreceive ▸ hfault)
  · rename_i buffer hok
    obtain ⟨hkeeps, hafter, hwaits, hrank⟩ :=
      settle_life { loop.recover with buffer := buffer } durable confirmed
    refine .recovers (some m) h ?_ hafter hwaits (Nat.lt_succ_of_lt hrank) hkeeps
    intro n hn
    obtain rfl := Option.some.inj hn
    exact ⟨_, hreceive ▸ hok⟩
  · rename_i buffer batch hok
    refine .recovers (some m) h ?_ trivial id (by simp [Loop.goTo, Control.rank]) ⟨rfl, rfl, rfl⟩
    intro n hn
    obtain rfl := Option.some.inj hn
    exact ⟨_, hreceive ▸ hok⟩

/-- Every transition is one of the turns. -/
theorem turns_of_step {event : LoopEvent} (h : loop.step c durable event = some after) :
    Turns c durable loop event after := by
  cases transition_of_step h with
  | finishes hevent hbefore hstop =>
      exact .finishes (LoopEvent.is_plain_of_own hevent) hbefore hstop
  | starts hbefore hstop | backsOff hbefore hstop =>
      exact turns_of_proceed trivial (hbefore ▸ trivial) trivial (fun _ => hbefore ▸ trivial) hstop
  | polls confirmed hbefore hstop | rests confirmed hbefore hstop =>
      exact turns_of_proceed trivial (hbefore ▸ trivial) trivial False.elim hstop
  | opens position hbefore | asks position _ hbefore | attends position hbefore
  | confirms position hbefore | wakes position hbefore =>
      exact turns_of_go trivial (hbefore ▸ trivial) trivial False.elim id
        (by simp [hbefore, Control.rank])
  | restarts hbefore =>
      exact turns_of_go trivial (hbefore ▸ trivial) trivial (fun _ => hbefore ▸ trivial) id
        (by simp [hbefore, Control.rank])
  | unopened resume fault hbefore => exact .unopened fault hbefore
  | unconfirmed position fault hbefore | unpolled position fault hbefore =>
      have hreads : loop.control.Reads := hbefore ▸ trivial
      exact .breaks fault rfl hreads hreads.rank_gt
  | leaves hevent hbefore hstop =>
      exact .leaves (LoopEvent.is_plain_of_own hevent) hbefore hbefore.rank_gt hstop
  | findsNothing confirmed hbefore =>
      exact .recovers none hbefore (by simp) trivial id (by simp [Loop.goTo, Control.rank])
        (loop.recover.keeps_life_go_to _)
  | takes confirmed m hbefore => exact turns_of_take hbefore m
  | publishes records last confirmed hbefore =>
      obtain ⟨hkeeps, hafter, hwaits, hrank⟩ :=
        settle_life { loop with position := max loop.position last } durable confirmed
      refine .goes trivial (hbefore ▸ trivial) hafter (fun h => absurd h hwaits) ?_ hkeeps
      intro _
      exact ⟨Control.not_starts hwaits (Nat.lt_succ_of_lt hrank), by rw [hbefore]; exact hrank⟩
  | refused records last confirmed hbefore => exact .refused hbefore
  | closes closed hbefore => exact .closes closed hbefore
  | shakes fault closed hbefore => exact .shakes fault closed hbefore
  | fails fault closed hfault hbefore => exact .fails fault closed hfault hbefore

/-- A message that cannot be received cannot be read or converted. -/
theorem receive_error {m : Message} {fault : FeedFault} (h : c.receive loop m = .error fault) :
    fault.OfMessage := by
  unfold FeedContext.receive at h
  obtain hdecode | ⟨event, -, h⟩ := Except.bind_eq_error.mp h
  · obtain ⟨error, -, rfl⟩ := Except.map_error_eq_error.mp hdecode
    trivial
  · obtain hoffer | ⟨⟨buffer, events⟩, -, h⟩ := Except.bind_eq_error.mp h
    · obtain ⟨error, -, rfl⟩ := Except.map_error_eq_error.mp hoffer
      trivial
    · cases events with
      | none => exact absurd h Except.pure_ne_error
      | some events =>
          dsimp only at h
          split at h
          · exact absurd h Except.pure_ne_error
          · obtain hconvert | ⟨records, -, hnone⟩ := Except.bind_eq_error.mp h
            · exact Converter.convert_all_error hconvert
            · exact absurd hnone Except.pure_ne_error

/-! ## What follows from the rules -/

/-- A loop has a result exactly if it has ended with it. -/
theorem result_eq_some_iff {result : Except FeedFault Position} :
    loop.result? = some result ↔ loop.control = .finished result := by
  rw [result?]
  cases loop.control <;> simp

/-- A failure of a session is counted; the loop gives up at the bound of its policy and otherwise
tries again. -/
theorem shake_spec (loop : Loop) (policy : ReconnectPolicy) (fault : SessionFault) :
    (loop.shake policy fault).failures = loop.failures + 1 ∧
      (loop.shake policy fault).stopAsked = loop.stopAsked ∧
      ((policy.maxAttempts ≤ loop.failures + 1 ∧
          (loop.shake policy fault).control =
            .finished (.error (.exhausted (loop.failures + 1) fault)) ∧
          (loop.shake policy fault).lifecycle = .failed) ∨
        (loop.failures + 1 < policy.maxAttempts ∧ (loop.shake policy fault).control = .shaken ∧
          (loop.shake policy fault).lifecycle =
            (Lifecycle.reconnecting (loop.failures + 1)).moveTo loop.lifecycle)) := by
  unfold shake
  dsimp only
  split
  · rename_i hbound
    exact ⟨rfl, rfl, .inl ⟨hbound, rfl, by simp [fail, become, goTo]⟩⟩
  · rename_i hbound
    exact ⟨rfl, rfl, .inr ⟨by omega, rfl, rfl⟩⟩

/-- A poll that succeeded ends the row of failures; the loop runs again unless it stops. -/
theorem recover_spec (loop : Loop) :
    loop.recover.failures = 0 ∧ loop.recover.stopAsked = loop.stopAsked ∧
      loop.recover.lifecycle = if loop.failures = 0 then loop.lifecycle
        else Lifecycle.running.moveTo loop.lifecycle := by
  unfold recover
  split
  · rename_i hzero
    exact ⟨hzero, rfl, rfl⟩
  · exact ⟨rfl, rfl, rfl⟩

/-- No turn asks the loop to stop or takes such a request back. -/
theorem Turns.stop_asked {event : LoopEvent} (h : Turns c durable loop event after) :
    after.stopAsked = loop.stopAsked := by
  cases h with
  | goes hevent hbefore hafter hwaits hstopped hkeeps => exact hkeeps.2.2
  | recovers result hbefore hreceive hafter hwaits hrank hkeeps =>
      exact hkeeps.2.2.trans loop.recover_spec.2.1
  | rejects m fault hbefore hreceive => exact loop.recover_spec.2.1
  | unopened fault hbefore => exact (loop.shake_spec _ fault).2.1
  | shakes fault closed hbefore => exact (loop.shake_spec _ fault).2.1
  | leaves | refused | breaks | finishes | closes | fails => rfl

/-- Only a failure makes it necessary to open another session. -/
theorem Turns.unopened_before {event : LoopEvent} (h : Turns c durable loop event after)
    (hopened : ∀ fault, event ≠ .opened (.error fault)) (hbreaks : ∀ fault, ¬ event.BreaksWith fault)
    (hafter : after.control.Unopened) : loop.control.Unopened := by
  cases h with
  | goes hevent hbefore hway hwaits hstopped hkeeps =>
      exact hwaits (hafter.waits hway)
  | breaks fault hevent hbefore hrank => exact absurd hevent (hbreaks fault)
  | recovers result hbefore hreceive hway hwaits hrank hkeeps =>
      exact absurd (hafter.waits hway) hwaits
  | rejects m fault hbefore hreceive =>
      -- The fault of a message is none of a session, so nothing is opened after it.
      have hmessage := receive_error hreceive
      cases fault with
      | session reason => exact hmessage.elim
      | _ => exact hafter.elim
  | unopened fault hbefore => exact absurd rfl (hopened fault)
  | shakes fault closed hbefore => exact hbefore ▸ trivial
  | leaves | refused | finishes | closes | fails => exact hafter.elim

/-- An open is started only where one is due. -/
theorem Turns.opening_due {event : LoopEvent} {resume : Position}
    (h : Turns c durable loop event after) (hafter : after.control = .opening resume) :
    loop.control.Unopened := by
  have hshake : ∀ fault, (loop.shake c.settings.reconnect fault).control ≠ .opening resume := by
    intro fault
    obtain ⟨-, -, ⟨-, hcontrol, -⟩ | ⟨-, hcontrol, -⟩⟩ :=
      loop.shake_spec c.settings.reconnect fault
    · simp [hcontrol]
    · simp [hcontrol]
  cases h with
  | goes hevent hbefore hway hwaits hstopped hkeeps => exact hwaits (hafter ▸ trivial)
  | recovers result hbefore hreceive hway hwaits hrank hkeeps =>
      exact absurd (hafter ▸ trivial) hwaits
  | unopened fault hbefore => exact absurd hafter (hshake fault)
  | shakes fault closed hbefore => exact absurd hafter (hshake fault)
  | leaves | refused | breaks | rejects | finishes | closes | fails =>
      exact absurd hafter (by simp [leave, goTo, finish, fail])

/-- A loop that was asked to stop comes closer to its end with every turn, and it starts neither an
open nor a poll. -/
theorem Turns.rank_lt {event : LoopEvent} (h : Turns c durable loop event after)
    (hstop : loop.stopAsked = true) :
    ¬ after.control.Starts ∧ after.control.rank < loop.control.rank := by
  have hshake : ∀ fault, ¬ (loop.shake c.settings.reconnect fault).control.Starts ∧
      (loop.shake c.settings.reconnect fault).control.rank < 2 := by
    intro fault
    obtain ⟨-, -, ⟨-, hcontrol, -⟩ | ⟨-, hcontrol, -⟩⟩ :=
      loop.shake_spec c.settings.reconnect fault
    · exact ⟨hcontrol ▸ id, by simp [hcontrol, Control.rank]⟩
    · exact ⟨hcontrol ▸ id, by simp [hcontrol, Control.rank]⟩
  cases h with
  | goes hevent hbefore hafter hwaits hstopped hkeeps => exact hstopped hstop
  | leaves hevent hbefore hrank hstop => exact ⟨id, hrank⟩
  | refused hbefore => exact ⟨id, by simp [hbefore, goTo, Control.rank]⟩
  | breaks fault hevent hbefore hrank => exact ⟨id, hrank⟩
  | recovers result hbefore hreceive hafter hwaits hrank hkeeps =>
      exact ⟨Control.not_starts hwaits hrank, by rw [hbefore]; exact hrank⟩
  | rejects m fault hbefore hreceive => exact ⟨id, by simp [hbefore, goTo, Control.rank]⟩
  | unopened fault hbefore =>
      refine ⟨(hshake fault).1, (hshake fault).2.trans ?_⟩
      simp [hbefore, Control.rank]
  | shakes fault closed hbefore =>
      refine ⟨(hshake fault).1, ?_⟩
      rw [hbefore]
      exact (hshake fault).2
  | finishes hevent hbefore hstop =>
      refine ⟨id, ?_⟩
      exact hbefore.rank_pos
  | closes closed hbefore => exact ⟨id, by simp [hbefore, finish, goTo, Control.rank]⟩
  | fails fault closed hfault hbefore => exact ⟨id, by simp [hbefore, fail, goTo, Control.rank]⟩

/-- A loop takes every answer that it waits for. -/
theorem exists_step_of_awaits {event : LoopEvent} (h : loop.control.Awaits event) :
    ∃ after, loop.step c durable event = some after := by
  -- An answer with a result is split by it; every other answer leads on as it is.
  unfold Control.Awaits at h
  split at h <;> rename_i hcontrol
  case h_2 result => cases result <;> simp [step, hcontrol]
  case h_3 confirmed =>
    simp only [step, hcontrol]
    split
    · split <;> exact ⟨_, rfl⟩
    · exact ⟨_, rfl⟩
  case h_4 result => cases result <;> simp [step, hcontrol]
  case h_6 result => rcases result with fault | ⟨_ | m⟩ <;> simp [step, hcontrol]
  case h_7 taken => cases taken <;> simp [step, hcontrol]
  case h_10 outcome result =>
    rcases outcome with fault | ⟨⟩
    · cases fault <;> simp [step, hcontrol]
    · simp [step, hcontrol]
  case h_13 => exact h.elim
  all_goals simp [step, hcontrol]

end Loop

end ChangeFeed
