import ChangeFeed.Proofs.Feed.Framing
import ChangeFeed.Proofs.Feed.Wholeness
import ChangeFeed.Proofs.Session.Release

/-!
# What a feed has confirmed

A read loop that follows a durable feed remembers one position, its mark, and tells its session what
is durable only when that is behind the mark. The session in turn releases what it has returned by
then. So what is durable is released at the moment when the loop tells its session, and what the
session returns afterwards has to wait for the next time: the slot has passed what is durable and
was returned if and only if it was returned before the session was told last
(`Subscription.released_iff_told`).

The mark starts anew behind each open, at what is durable then. If that has moved on while the
session was opened, the loop has nothing to tell when the session repeats what is durable, and an
idle feed leaves it unconfirmed (`Subscription.leaves_durable`).
-/

namespace ChangeFeed

open LoggedTransaction

namespace Control

/-- The position up to which a loop takes everything for confirmed while it has a session. -/
def mark? : Control → Option Position
  | .attending mark => some mark
  | .ready mark => some mark
  | .polling mark => some mark
  | .pushing _ _ mark => some mark
  | .pausing mark => some mark
  | .idling mark => some mark
  | _ => none

/-- The loop is at the head of its inner loop and has not looked at what is durable yet. -/
def Attends : Control → Prop
  | .attending _ => True
  | _ => False

/-- The loop has a session that works. -/
def InUse : Control → Prop
  | .attending _ => True
  | .confirming _ => True
  | .ready _ => True
  | .polling _ => True
  | .pushing _ _ _ => True
  | .pausing _ => True
  | .idling _ => True
  | _ => False

/-- The last poll found nothing. -/
def isPausing : Control → Bool
  | .pausing _ => true
  | _ => false

/-- A loop whose last poll found nothing has a mark. -/
theorem exists_of_is_pausing {control : Control} (h : control.isPausing = true) :
    ∃ mark, control = .pausing mark := by
  cases control <;> first | exact ⟨_, rfl⟩ | exact absurd h Bool.false_ne_true

/-- A loop that has a mark has a session. -/
theorem in_use_of_mark {control : Control} {mark : Position} (h : control.mark? = some mark) :
    control.InUse := by
  cases control <;> trivial

end Control

namespace LoopEvent

/-- A session has opened, or it has taken what is durable. -/
def Succeeds : LoopEvent → Prop
  | .opened (.ok ()) => True
  | .confirmed (.ok ()) => True
  | _ => False

/-- The event is the failure of a session. -/
def IsFailure : LoopEvent → Prop
  | .opened (.error _) => True
  | .confirmed (.error _) => True
  | .polled (.error _) => True
  | _ => False

end LoopEvent

namespace Loop

/-- What a transition comes to for the mark of a loop that follows a durable feed. -/
inductive Follows (c : FeedContext) (durable : Position) (loop : Loop) : LoopEvent → Loop → Prop
  /-- The loop has no session that works. -/
  | apart {event : LoopEvent} {after : Loop} (hafter : ¬ after.control.InUse) :
      Follows c durable loop event after
  /-- The loop has a session, and its mark is where the session would go on now. -/
  | opens {after : Loop} (resume : Position) (hbefore : loop.control = .opening resume)
      (hafter : after.control = .attending (c.resume (some durable) loop)) :
      Follows c durable loop (.opened (.ok ())) after
  /-- What is durable is behind the mark. -/
  | asks {after : Loop} (mark : Position) (hbefore : loop.control = .attending mark)
      (hlt : mark < durable) (hafter : after.control = .confirming durable) :
      Follows c durable loop .next after
  /-- What is durable is not behind the mark. -/
  | reads {after : Loop} (mark : Position) (hbefore : loop.control = .attending mark)
      (hle : durable ≤ mark) (hafter : after.control = .ready mark) :
      Follows c durable loop .next after
  /-- The session was told what is durable. -/
  | confirms {after : Loop} (target : Position) (hbefore : loop.control = .confirming target)
      (hafter : after.control = .ready target) : Follows c durable loop (.confirmed (.ok ())) after
  /-- The loop goes on and keeps its mark. -/
  | goes {event : LoopEvent} {after : Loop} (mark : Position) (hevent : ¬ event.IsFailure)
      (hbefore : loop.control.mark? = some mark) (hattends : ¬ loop.control.Attends)
      (hafter : after.control.mark? = some mark) : Follows c durable loop event after

variable {c : FeedContext} {durable : Position} {loop after : Loop}

/-- A loop that tries again or gives up has no session. -/
theorem not_in_use_shake (loop : Loop) (policy : ReconnectPolicy) (fault : SessionFault) :
    ¬ (loop.shake policy fault).control.InUse := by
  obtain ⟨-, ⟨result, hresult⟩ | ⟨hshaken, -⟩⟩ := loop.shake_cases policy fault
  · rw [hresult]
    exact id
  · rw [hshaken]
    exact id

/-- Dealing with a message keeps the mark or ends the session. -/
theorem follows_of_take {mark : Position} (h : loop.control = .polling mark) (m : Message) :
    Follows c durable loop (.polled (.ok (some m)))
      (take c (some durable) loop.recover mark m) := by
  have hmark : loop.control.mark? = some mark := by rw [h]; rfl
  have hattends : ¬ loop.control.Attends := by rw [h]; exact id
  unfold take
  split
  · exact .apart id
  · exact .goes mark id hmark hattends rfl
  · exact .goes mark id hmark hattends rfl

/-- Every transition follows the rules of the mark. -/
theorem follows_of_step {event : LoopEvent} (h : loop.step c (some durable) event = some after) :
    Follows c durable loop event after := by
  cases transition_of_step h with
  | opens resume hbefore => exact .opens resume hbefore rfl
  | asks mark target hbefore hdurable hlt =>
      obtain rfl := Option.some.inj hdurable
      exact .asks mark hbefore hlt rfl
  | attends mark hbefore hle => exact .reads mark hbefore (hle durable rfl) rfl
  | confirms target hbefore => exact .confirms target hbefore rfl
  | polls mark hbefore | findsNothing mark hbefore | publishes _ _ mark hbefore
  | rests mark hbefore | wakes mark hbefore =>
      exact .goes mark id (hbefore ▸ rfl) (hbefore ▸ id) rfl
  | takes mark m hbefore => exact follows_of_take hbefore m
  | unopened | shakes => exact .apart (loop.not_in_use_shake _ _)
  | finishes | starts | unconfirmed | leaves | unpolled | refused | closes | fails | backsOff
  | restarts => exact .apart id

end Loop

/-! ## A loop with its session -/

/-- A read loop that follows a durable feed, over sessions on a server. -/
structure Subscription where
  loop : Loop
  durable : Position
  dialogue : Dialogue
  /-- Where the slot stood when the session was opened. -/
  base : Position
  /-- What the session had returned when the loop told it last what is durable. -/
  told : List Message
  /-- What was durable when the loop looked last. -/
  seen : Position

/-- What can happen to a read loop with its sessions. -/
inductive SubscriptionMove where
  /-- The loop goes on without an answer of a session. -/
  | loop (event : LoopEvent)
  | opened
  | polled
  | confirmed
  /-- The session does not answer, or there is none. What it was asked may have been done, or done
  in part, so the slot is left anywhere. -/
  | failed (fault : SessionFault) (slot : Option Position)
  /-- What is durable moves, in either direction. -/
  | persisted (position : Position)
  /-- Another transaction commits at the server. -/
  | committed (t : LoggedTransaction)
  | stop

/-- A read loop that starts; a session that is closed stands in for the first one. -/
def FeedContext.subscription (c : FeedContext) (server : SlotServer) (durable : Position) :
    Subscription where
  loop := c.loop
  durable := durable
  dialogue := ⟨server, ⟨c.settings.slot, [], Session.defaultPageSize, .closed, .empty⟩, []⟩
  base := server.origin
  told := []
  seen := durable

namespace Subscription

/-- What was durable when the loop looked last, after an event. -/
def look (s : Subscription) (event : LoopEvent) : Position :=
  match s.loop.control, event with
  | .attending _, .next => s.durable
  | _, _ => s.seen

/-- The loop takes an event, if it waits for it. -/
def give (c : FeedContext) (s : Subscription) (event : LoopEvent) : Subscription :=
  match s.loop.step c (some s.durable) event with
  | some after => { s with loop := after, seen := s.look event }
  | none => s

/-- One move. A move that is not possible changes nothing. -/
def step (c : FeedContext) (pageSize : Nat) (s : Subscription) : SubscriptionMove → Subscription
  | .loop (.opened _) => s
  | .loop (.confirmed _) => s
  | .loop (.polled _) => s
  | .loop event => s.give c event
  | .opened =>
    match s.loop.control with
    | .opening resume =>
      match Dialogue.open s.dialogue.server c.settings.slot c.plugin pageSize resume with
      | .ok d =>
        { s with dialogue := d, base := d.server.slot.getD d.server.origin, told := [] }.give c
          (.opened (.ok ()))
      | .error fault => s.give c (.opened (.error fault))
    | _ => s
  | .polled =>
    match s.loop.control with
    | .polling _ =>
      { s with dialogue := s.dialogue.poll.2 }.give c (.polled s.dialogue.poll.1)
    | _ => s
  | .confirmed =>
    match s.loop.control with
    | .confirming target =>
      { s with
        dialogue := (s.dialogue.confirm target).2
        told := s.dialogue.returned }.give c (.confirmed (s.dialogue.confirm target).1)
    | _ => s
  | .failed fault slot =>
    let failing := { s with dialogue.server.slot := slot }
    match s.loop.control with
    | .opening _ => failing.give c (.opened (.error fault))
    | .confirming _ => failing.give c (.confirmed (.error fault))
    | .polling _ => failing.give c (.polled (.error fault))
    | _ => s
  | .persisted position => { s with durable := position }
  | .committed t => { s with dialogue := s.dialogue.step (.commit t) }
  | .stop => { s with loop := s.loop.stop }

/-- A sequence of moves. -/
def run (c : FeedContext) (pageSize : Nat) (s : Subscription) (moves : List SubscriptionMove) :
    Subscription :=
  moves.foldl (step c pageSize) s

/-- The transactions that the session has returned as a whole, as far as they end by what was
durable when the loop looked last. -/
def durableReturned (s : Subscription) : List LoggedTransaction :=
  (s.dialogue.server.past s.base).filter fun t =>
    s.dialogue.server.HasGiven s.base s.dialogue.returned t ∧ t.position ≤ s.seen

/-- Whenever a poll found nothing, the slot has passed what is durable and was returned. -/
def ReleasesDurable (s : Subscription) : Prop :=
  s.loop.control.isPausing = true →
    ∀ slot ∈ s.dialogue.server.slot, ∀ t ∈ s.durableReturned, t.position ≤ slot

/-- The slot has passed what is durable and was returned if and only if it was returned before the
session was told what is durable. -/
def ReleasesTold (s : Subscription) : Prop :=
  s.told <+: s.dialogue.returned ∧ ∃ slot, s.dialogue.server.slot = some slot ∧
    ∀ t ∈ s.durableReturned,
      (t.position ≤ slot ↔ s.dialogue.server.HasGiven s.base s.told t)

/-! ## The invariant -/

/-- What holds of a loop with its session at every moment. -/
structure OnCourse (pageSize : Nat) (s : Subscription) : Prop where
  told : s.loop.control.InUse → s.dialogue.HasTold s.base pageSize s.told
  /-- What was returned before the session was told and ends by the mark is released. -/
  released : DistinctNames s.dialogue.server.committed → ∀ mark,
    s.loop.control.mark? = some mark → s.dialogue.HasReleased s.base s.told mark
  seen_le : ∀ mark, s.loop.control.mark? = some mark → ¬ s.loop.control.Attends → s.seen ≤ mark
  seen_eq : ∀ target, s.loop.control = .confirming target → s.seen = target

variable {c : FeedContext} {pageSize : Nat} {s : Subscription} {event : LoopEvent}

/-- A loop without a session that works is on course. -/
theorem on_course_apart (h : ¬ s.loop.control.InUse) : s.OnCourse pageSize where
  told huse := absurd huse h
  released _ _ hmark := absurd (Control.in_use_of_mark hmark) h
  seen_le _ hmark := absurd (Control.in_use_of_mark hmark) h
  seen_eq _ htarget := by
    rw [htarget] at h
    exact absurd trivial h

/-- A loop that has a mark is on course where what ends by the mark is released. -/
theorem on_course_marked (mark : Position) (hmark : s.loop.control.mark? = some mark)
    (htold : s.dialogue.HasTold s.base pageSize s.told)
    (hreleased : DistinctNames s.dialogue.server.committed →
      s.dialogue.HasReleased s.base s.told mark)
    (hseen : ¬ s.loop.control.Attends → s.seen ≤ mark) : s.OnCourse pageSize where
  told _ := htold
  released hnames other hother := by
    obtain rfl := Option.some.inj (hmark.symm.trans hother)
    exact hreleased hnames
  seen_le other hother := by
    obtain rfl := Option.some.inj (hmark.symm.trans hother)
    exact hseen
  seen_eq target htarget := by
    rw [htarget] at hmark
    exact absurd hmark (by simp [Control.mark?])

/-- A loop that does not attend its session does not look at what is durable. -/
theorem look_eq (h : ¬ s.loop.control.Attends) (event : LoopEvent) : s.look event = s.seen := by
  unfold look
  split
  · rename_i mark hcontrol
    rw [hcontrol] at h
    exact absurd trivial h
  · rfl

/-- A loop that goes on and has neither got a session nor told it anything stays on course. -/
theorem OnCourse.give (h : s.OnCourse pageSize) (hevent : ¬ event.Succeeds) :
    (s.give c event).OnCourse pageSize := by
  unfold Subscription.give
  split
  · rename_i after hstep
    cases Loop.follows_of_step hstep with
    | apart hafter => exact on_course_apart hafter
    | opens resume hbefore hafter => exact absurd trivial hevent
    | confirms target hbefore hafter => exact absurd trivial hevent
    | asks mark hbefore hlt hafter =>
        -- There is no mark while the session is told; what the loop has looked at is the target.
        have huse : s.loop.control.InUse := by rw [hbefore]; trivial
        have hnone : after.control.mark? = none := by rw [hafter]; rfl
        refine ⟨fun _ => h.told huse, ?_, ?_, ?_⟩
        · intro _ mark hmark
          exact absurd (hnone.symm.trans hmark) (by simp)
        · intro mark hmark
          exact absurd (hnone.symm.trans hmark) (by simp)
        · intro target htarget
          obtain rfl := Control.confirming.inj (hafter.symm.trans htarget)
          simp [look, hbefore]
    | reads mark hbefore hle hafter =>
        have hmark : s.loop.control.mark? = some mark := by rw [hbefore]; rfl
        refine on_course_marked mark (by rw [hafter]; rfl)
          (h.told (Control.in_use_of_mark hmark)) (fun hnames => h.released hnames mark hmark) ?_
        intro _
        simpa [look, hbefore] using hle
    | goes mark _ hmark hattends hafter =>
        refine on_course_marked mark hafter (h.told (Control.in_use_of_mark hmark))
          (fun hnames => h.released hnames mark hmark) ?_
        intro _
        exact (look_eq hattends event).trans_le (h.seen_le mark hmark hattends)
  · exact h

/-- A loop that has opened a session has nothing to release yet. -/
theorem on_course_opened {resume : Position} (hopening : s.loop.control = .opening resume)
    {d : Dialogue}
    (hopen : Dialogue.open s.dialogue.server c.settings.slot c.plugin pageSize resume = .ok d) :
    ({ s with
        dialogue := d
        base := d.server.slot.getD d.server.origin
        told := [] }.give c (.opened (.ok ()))).OnCourse (max 1 pageSize) := by
  unfold Subscription.give
  split
  · rename_i after hstep
    cases Loop.follows_of_step hstep with
    | apart hafter => exact on_course_apart hafter
    | opens _ hbefore hafter =>
        obtain ⟨htold, hreleased⟩ := Dialogue.has_told_open hopen
        refine on_course_marked (c.resume (some s.durable) s.loop) (by rw [hafter]; rfl) htold
          (fun _ => hreleased) ?_
        intro hattends
        rw [hafter] at hattends
        exact absurd trivial hattends
    | goes mark _ hmark hattends hafter =>
        rw [hopening] at hmark
        exact absurd hmark (by simp [Control.mark?])
  · rename_i hstuck
    exact absurd hstuck (by simp [Loop.step, hopening])

/-- A loop that has polled its session stays on course. -/
theorem OnCourse.polled (h : s.OnCourse pageSize) {confirmed : Position}
    (hpolling : s.loop.control = .polling confirmed) :
    ({ s with dialogue := s.dialogue.poll.2 }.give c
      (.polled s.dialogue.poll.1)).OnCourse pageSize := by
  have hmark : s.loop.control.mark? = some confirmed := by rw [hpolling]; rfl
  obtain ⟨htold, hserver⟩ := (h.told (Control.in_use_of_mark hmark)).poll
  -- The server is as it was, so what was released stays so and nothing else is to be released.
  have hcourse : OnCourse pageSize { s with dialogue := s.dialogue.poll.2 } := by
    refine on_course_marked confirmed hmark htold ?_ (h.seen_le confirmed hmark)
    intro hnames
    have hreleased := h.released (hserver ▸ hnames) confirmed hmark
    rw [Dialogue.HasReleased, hserver]
    exact hreleased
  exact hcourse.give id

/-- A loop that has told its session what is durable stays on course. -/
theorem OnCourse.confirmed (h : s.OnCourse pageSize) {target : Position}
    (hconfirming : s.loop.control = .confirming target) :
    ({ s with
        dialogue := (s.dialogue.confirm target).2
        told := s.dialogue.returned }.give c
          (.confirmed (s.dialogue.confirm target).1)).OnCourse pageSize := by
  have huse : s.loop.control.InUse := by rw [hconfirming]; trivial
  obtain ⟨hok, htold, hcommitted⟩ := (h.told huse).confirm target
  rw [hok]
  unfold Subscription.give
  split
  · rename_i after hstep
    cases Loop.follows_of_step hstep with
    | apart hafter => exact on_course_apart hafter
    | confirms _ hbefore hafter =>
        obtain rfl := Control.confirming.inj (hconfirming.symm.trans hbefore)
        -- All that was returned by now is released up to the target, which becomes the mark.
        refine on_course_marked target (by rw [hafter]; rfl) htold ?_ ?_
        · intro hnames
          exact (h.told huse).in_step.confirm_releases (hcommitted ▸ hnames) target
        · intro _
          simp [look, hconfirming, h.seen_eq target hconfirming]
    | goes mark _ hmark hattends hafter =>
        rw [hconfirming] at hmark
        exact absurd hmark (by simp [Control.mark?])
  · rename_i hstuck
    exact absurd hstuck (by simp [Loop.step, hconfirming])

/-- A loop whose session has failed has none that works. -/
theorem on_course_failed (hfailure : event.IsFailure)
    (hstep : s.loop.step c (some s.durable) event ≠ none) : (s.give c event).OnCourse pageSize := by
  unfold Subscription.give
  split
  · rename_i after hsome
    cases Loop.follows_of_step hsome with
    | apart hafter => exact on_course_apart hafter
    | opens resume hbefore hafter => exact hfailure.elim
    | confirms target hbefore hafter => exact hfailure.elim
    | asks mark hbefore hlt hafter => exact hfailure.elim
    | reads mark hbefore hle hafter => exact hfailure.elim
    | goes mark hevent hmark hattends hafter => exact absurd hfailure hevent
  · exact absurd ‹_› hstep

/-- Another commit keeps the loop on course. -/
theorem OnCourse.committed (h : s.OnCourse pageSize) (t : LoggedTransaction) :
    OnCourse pageSize { s with dialogue := s.dialogue.step (.commit t) } where
  told huse := (h.told huse).commit t
  released hnames mark hmark :=
    (h.released hnames.of_commit mark hmark).commit (h.told (Control.in_use_of_mark hmark)) t
  seen_le := h.seen_le
  seen_eq := h.seen_eq

/-- Every move keeps the loop on course. -/
theorem OnCourse.step (h : s.OnCourse (max 1 pageSize)) (move : SubscriptionMove) :
    (s.step c pageSize move).OnCourse (max 1 pageSize) := by
  cases move with
  | loop event =>
      cases event with
      | opened result => exact h
      | confirmed result => exact h
      | polled result => exact h
      | _ => exact h.give id
  | opened =>
      rw [Subscription.step]
      split
      · rename_i resume hopening
        split
        · exact on_course_opened hopening ‹_›
        · exact h.give id
      · exact h
  | polled =>
      rw [Subscription.step]
      split
      · exact h.polled ‹_›
      · exact h
  | confirmed =>
      rw [Subscription.step]
      split
      · exact h.confirmed ‹_›
      · exact h
  | failed fault slot =>
      rw [Subscription.step]
      dsimp only
      split
      · rename_i resume hopening
        exact on_course_failed trivial (by simp [Loop.step, hopening])
      · rename_i target hconfirming
        exact on_course_failed trivial (by simp [Loop.step, hconfirming])
      · rename_i mark hpolling
        exact on_course_failed trivial (by simp [Loop.step, hpolling])
      · exact h
  | persisted position => exact ⟨h.told, h.released, h.seen_le, h.seen_eq⟩
  | committed t => exact h.committed t
  | stop => exact ⟨h.told, h.released, h.seen_le, h.seen_eq⟩

/-- Every sequence of moves keeps the loop on course. -/
theorem OnCourse.run (h : s.OnCourse (max 1 pageSize)) (moves : List SubscriptionMove) :
    (s.run c pageSize moves).OnCourse (max 1 pageSize) := by
  induction moves generalizing s with
  | nil => exact h
  | cons move rest ih => exact ih (h.step move)

/-! ## The main result -/

/-- When a poll found nothing, the slot has passed a transaction that is durable and was returned if
and only if it was returned before the session was told last what is durable. -/
theorem released_iff_told (c : FeedContext) (pageSize : Nat) (server : SlotServer)
    (durable : Position) (moves : List SubscriptionMove)
    (hnames : DistinctNames
      ((c.subscription server durable).run c pageSize moves).dialogue.server.committed)
    (hpausing : ((c.subscription server durable).run c pageSize moves).loop.control.isPausing) :
    ((c.subscription server durable).run c pageSize moves).ReleasesTold := by
  have hstart : (c.subscription server durable).OnCourse (max 1 pageSize) := on_course_apart id
  have hcourse := hstart.run (c := c) moves
  generalize (c.subscription server durable).run c pageSize moves = s at *
  obtain ⟨mark, hcontrol⟩ := Control.exists_of_is_pausing hpausing
  have hmark : s.loop.control.mark? = some mark := by rw [hcontrol]; rfl
  have hattends : ¬ s.loop.control.Attends := by rw [hcontrol]; exact id
  have htold := hcourse.told (Control.in_use_of_mark hmark)
  obtain ⟨slot, held, hslot, -⟩ := htold.in_step.agrees
  refine ⟨htold.told_prefix, slot, hslot, ?_⟩
  intro t ht
  obtain ⟨hpast, hdurable⟩ := List.mem_filter.mp ht
  have hle : t.position ≤ mark :=
    (of_decide_eq_true hdurable).2.trans (hcourse.seen_le mark hmark hattends)
  exact htold.passed_iff (hcourse.released hnames mark hmark) hpast hle hslot

end Subscription

namespace SubscriptionMove

/-- The loop finds nothing new to confirm and polls. -/
def polls : List SubscriptionMove :=
  [.loop .next, .loop .next, .polled]

/-- A session opens and gives an item. -/
def opens : List SubscriptionMove :=
  [.opened] ++ polls ++ polls ++ polls

/-- The session of a feed fails after the item was pushed, and the item becomes durable while
another session is opened. That one gives the item again, and nothing else. -/
def missesDurable : List SubscriptionMove :=
  [.loop .next] ++ opens ++ [.loop (.pushed true), .loop .next, .loop .next,
    .failed .closed (some .zero), .loop (.closed (.ok ())), .loop .next, .loop .woke, .loop .next,
    .persisted ⟨30⟩] ++ opens ++ polls

/-- Something else becomes durable. -/
def catchesUp : List SubscriptionMove :=
  [.persisted ⟨31⟩, .loop .next, .loop .woke, .loop .next, .confirmed, .loop .next, .polled]

end SubscriptionMove

namespace Subscription

/-- Whether what is durable is released can be decided. -/
instance (s : Subscription) : Decidable s.ReleasesDurable :=
  inferInstanceAs (Decidable (_ → ∀ slot ∈ s.dialogue.server.slot, _))

/-- A feed that has missed a durable position leaves what is durable unconfirmed. -/
theorem leaves_durable :
    DistinctNames ((FeedContext.ofItems.subscription .ofItem .zero).run .ofItems 10
        SubscriptionMove.missesDurable).dialogue.server.committed ∧
      ¬ ((FeedContext.ofItems.subscription .ofItem .zero).run .ofItems 10
        SubscriptionMove.missesDurable).ReleasesDurable := by
  decide +kernel

/-- A feed that has missed a durable position releases what it has missed with the next one. -/
theorem released_iff_told_item :
    ∃ s, s = (FeedContext.ofItems.subscription .ofItem .zero).run .ofItems 10
        (SubscriptionMove.missesDurable ++ SubscriptionMove.catchesUp) ∧
      s.durableReturned.length = 1 ∧ s.dialogue.server.slot = some ⟨30⟩ ∧ s.ReleasesTold := by
  have hfacts : ∀ s, s = (FeedContext.ofItems.subscription .ofItem .zero).run .ofItems 10
        (SubscriptionMove.missesDurable ++ SubscriptionMove.catchesUp) →
      DistinctNames s.dialogue.server.committed ∧ s.loop.control.isPausing = true ∧
        s.durableReturned.length = 1 ∧ s.dialogue.server.slot = some ⟨30⟩ := by
    intro s hs
    rw [hs]
    decide +kernel
  obtain ⟨hnames, hpausing, hlength, hslot⟩ := hfacts _ rfl
  exact ⟨_, rfl, hlength, hslot,
    released_iff_told .ofItems 10 .ofItem .zero _ hnames hpausing⟩

end Subscription

end ChangeFeed
