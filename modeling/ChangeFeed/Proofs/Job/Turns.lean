import ChangeFeed.Job.Pipeline
import ChangeFeed.Proofs.Applier.Transition
import ChangeFeed.Proofs.Feed.Trail
import ChangeFeed.Proofs.Feed.Turn
import ChangeFeed.Proofs.Job.Accounts

/-!
# The turns of a pipeline

`Pipeline.Takes` lists the turns of a pipeline. Beside it stands what a turn of the read loop does
to the position that it publishes next (`Loop.goal`), and that the channel goes on flowing as long
as nobody closes it (`Channel.Flows`).
-/

namespace ChangeFeed

/-! ## Channels that nobody has closed -/

namespace Channel

variable {α : Type} {c d : Channel α}

/-- Nobody has closed the channel, and no push has failed. -/
def Flows (c : Channel α) : Prop :=
  c.isClosed = false ∧ ∀ push ∈ c.pushes, push ≠ .closed

/-- Admitting a slice makes no push fail. -/
theorem admit_first_not_closed {capacity : Nat} {buffered buffered' : List α}
    {pushes pushes' : List (Push α)}
    (h : admitFirst capacity buffered pushes = some (buffered', pushes'))
    (hpushes : ∀ push ∈ pushes, push ≠ .closed) : ∀ push ∈ pushes', push ≠ .closed := by
  induction pushes generalizing pushes' with
  | nil => simp [admitFirst] at h
  | cons push rest ih =>
      obtain ⟨hpush, hrest⟩ := List.forall_mem_cons.mp hpushes
      cases push with
      | pending left =>
          rw [admitFirst] at h
          split at h
          · obtain ⟨-, rfl⟩ := Prod.mk.inj (Option.some.inj h)
            refine List.forall_mem_cons.mpr ⟨?_, hrest⟩
            split <;> simp
          · exact absurd h (by simp)
      | pushed =>
          simp only [admitFirst, Option.map_eq_some_iff, Prod.mk.injEq] at h
          obtain ⟨⟨_, more⟩, hmore, rfl, rfl⟩ := h
          exact List.forall_mem_cons.mpr ⟨hpush, ih hmore hrest⟩
      | closed => exact absurd rfl hpush

/-- A channel goes on flowing while slices are admitted. -/
theorem Flows.settle (h : c.Flows) : c.settle.Flows := by
  refine ⟨c.settle_is_closed.trans h.1, ?_⟩
  refine settle_keeps (P := fun d => ∀ push ∈ d.pushes, push ≠ .closed) ?_ h.2
  exact fun _ _ hadmit => admit_first_not_closed (admit_cases hadmit).2.1

/-- A channel goes on flowing when a push starts. -/
theorem Flows.push (h : c.Flows) (records : List α) : (c.push records).Flows := by
  refine Flows.settle ⟨h.1, ?_⟩
  intro push hpush
  rcases List.mem_append.mp hpush with hpush | hpush
  · exact h.2 push hpush
  · obtain rfl := List.mem_singleton.mp hpush
    split
    · exact nofun
    · simp [h.1]

/-- A channel goes on flowing when a record is received. -/
theorem Flows.receive (h : c.Flows) {record : α} (hreceive : c.receive = (some record, d)) :
    d.Flows ∧ c.inFlight = record :: d.inFlight := by
  unfold Channel.receive at hreceive
  split at hreceive
  · exact absurd hreceive (by simp)
  · rename_i first rest hbuffered
    obtain ⟨hfirst, rfl⟩ := Prod.mk.inj hreceive
    obtain rfl := Option.some.inj hfirst
    have hrest : ({ c with buffered := rest } : Channel α).Flows := h
    refine ⟨hrest.settle, ?_⟩
    rw [settle_in_flight, inFlight, hbuffered]
    rfl

/-- The last push of a channel that flows has not failed. -/
theorem Flows.last_push (h : c.Flows) : c.lastPush? ≠ some .closed := by
  intro hlast
  exact h.2 _ (List.mem_of_getLast? hlast) rfl

/-- Nothing is in flight any more in a drained channel that flows, and its sender is gone. -/
theorem Flows.of_drained (h : c.Flows) {senderGone : Bool} (hdrained : c.isDrained senderGone) :
    senderGone = true ∧ c.inFlight = [] := by
  simp only [isDrained, h.1, Bool.false_or, Bool.and_eq_true, List.isEmpty_iff,
    Bool.not_eq_true'] at hdrained
  obtain ⟨hbuffered, hgone, hpending⟩ := hdrained
  refine ⟨hgone, ?_⟩
  rw [inFlight, hbuffered, List.nil_append, List.flatMap_eq_nil_iff]
  intro push hpush
  cases push with
  | pending left => exact absurd hpending (by simpa [hasPending] using ⟨_, hpush, rfl⟩)
  | pushed | closed => rfl

end Channel

/-! ## The turns of a pipeline -/

/-- What is acknowledged does not go back. -/
theorem Applier.Moves.le_acknowledged {a after : Applier} {event : ApplierEvent}
    (h : a.Moves event after) : a.acknowledged ≤ after.acknowledged := by
  cases h with
  | receives | ends | writes | fails => exact le_refl _
  | flushes | flushesLast => exact a.le_acknowledge

namespace Pipeline

/-- The rules for the turns of a pipeline. -/
inductive Takes (c : PipelineContext) (p : Pipeline) : Turn → Pipeline → Prop
  /-- The read loop goes on, but not because of a push. -/
  | reads {event : LoopEvent} {after : Loop} (hevent : ∀ taken, event ≠ .pushed taken)
      (hstep : p.loop.step c.feed (some p.persister.durable) event = some after) :
      Takes c p (.read event) (p.withLoop after)
  /-- The read loop learns how its push went. -/
  | learns {taken : Bool} {after : Loop}
      (hlast : p.channel.lastPush? = some (if taken then .pushed else .closed))
      (hstep : p.loop.step c.feed (some p.persister.durable) (.pushed taken) = some after) :
      Takes c p .learn { p with loop := after }
  /-- The applier takes a record. -/
  | takes {record : Record} {channel : Channel Record} (hcontrol : p.applier.control = .receiving)
      (hreceive : p.channel.receive = (some record, channel)) :
      Takes c p .take
        { p with channel := channel, applier := { p.applier with control := .writing record } }
  /-- The applier meets the end of the channel. -/
  | meetsEnd (hcontrol : p.applier.control = .receiving)
      (hdrained : p.channel.isDrained p.loop.isFinished = true) :
      Takes c p .take { p with applier := { p.applier with control := .flushing true } }
  /-- The output has taken a record or not. -/
  | writes {result : Except FileFault Unit} {after : Applier}
      (hmoves : p.applier.Moves (.wrote result p.channel.buffered.isEmpty) after) :
      Takes c p (.wrote result) (p.withApplier after)
  /-- The output has flushed or not. -/
  | flushes {result : Except FileFault Unit} {after : Applier}
      (hmoves : p.applier.Moves (.flushed result) after) :
      Takes c p (.flushed result) (p.withApplier after)
  | persists {event : PersisterEvent} {after : Persister}
      (hstep : p.persister.step c.interval p.acknowledged event = some after) :
      Takes c p (.persist event) { p with persister := after }
  | stops : Takes c p .stop { p with loop := p.loop.stop }
  | wrapsUp (hover : p.loop.isFinished = true ∧ p.applier.isFinished = true) :
      Takes c p .wrapUp { p with endAsked := true }

variable {c : PipelineContext} {p after : Pipeline}

/-- Every turn of a pipeline follows the rules. -/
theorem takes_of_step {turn : Turn} (h : p.step c turn = some after) : Takes c p turn after := by
  cases turn with
  | read event =>
      cases event with
      | pushed => exact absurd h (by simp [step])
      | next | opened | polled | confirmed | woke | stopSeen | closed =>
          obtain ⟨loop, hloop, rfl⟩ := Option.map_eq_some_iff.mp h
          exact .reads (by simp) hloop
  | learn =>
      simp only [step] at h
      split at h
      · obtain ⟨loop, hloop, rfl⟩ := Option.map_eq_some_iff.mp h
        exact .learns (by assumption) hloop
      · obtain ⟨loop, hloop, rfl⟩ := Option.map_eq_some_iff.mp h
        exact .learns (by assumption) hloop
      · exact absurd h (by simp)
  | take =>
      simp only [step] at h
      split at h
      · rename_i record channel hreceive
        obtain ⟨applier, hgive, rfl⟩ := Option.map_eq_some_iff.mp h
        cases Applier.moves_of_step hgive with
        | receives hcontrol => exact .takes hcontrol hreceive
        | fails hevent => simp at hevent
      · split at h
        · rename_i hdrained
          obtain ⟨applier, hgive, rfl⟩ := Option.map_eq_some_iff.mp h
          cases Applier.moves_of_step hgive with
          | ends hcontrol => exact .meetsEnd hcontrol hdrained
          | fails hevent => simp at hevent
        · exact absurd h (by simp)
  | wrote result =>
      obtain ⟨applier, hgive, rfl⟩ := Option.map_eq_some_iff.mp h
      exact .writes (Applier.moves_of_step hgive)
  | flushed result =>
      obtain ⟨applier, hgive, rfl⟩ := Option.map_eq_some_iff.mp h
      exact .flushes (Applier.moves_of_step hgive)
  | persist event =>
      obtain ⟨persister, hstep, rfl⟩ := Option.map_eq_some_iff.mp h
      exact .persists hstep
  | stop =>
      obtain rfl := Option.some.inj h
      exact .stops
  | wrapUp =>
      simp only [step] at h
      split at h
      · rename_i hover
        obtain rfl := Option.some.inj h
        exact .wrapsUp ⟨hover.1, hover.2.1⟩
      · exact absurd h (by simp)

/-- A pipeline that is given another loop keeps its other parts but the channel. -/
theorem with_loop_parts (p : Pipeline) (loop : Loop) :
    (p.withLoop loop).loop = loop ∧ (p.withLoop loop).applier = p.applier ∧
      (p.withLoop loop).persister = p.persister ∧ (p.withLoop loop).endAsked = p.endAsked := by
  unfold withLoop
  split <;> exact ⟨rfl, rfl, rfl, rfl⟩

/-- A turn of the applier leaves the loop and the persister alone, and what is acknowledged does not
go back. -/
theorem Takes.applier_facts {turn : Turn} (h : Takes c p turn after)
    (hturn : turn = .take ∨ (∃ result, turn = .wrote result) ∨ ∃ result, turn = .flushed result) :
    after.loop = p.loop ∧ after.persister = p.persister ∧
      p.applier.acknowledged ≤ after.applier.acknowledged := by
  cases h with
  | takes | meetsEnd => exact ⟨rfl, rfl, le_refl _⟩
  | writes hmoves => exact ⟨rfl, rfl, hmoves.le_acknowledged⟩
  | flushes hmoves => exact ⟨rfl, rfl, hmoves.le_acknowledged⟩
  | reads | learns | persists | stops | wrapsUp => simp at hturn

end Pipeline

/-! ## What a read loop publishes -/

namespace Loop

open Feed

/-- The position that the loop publishes next: the end of the batch that it hands over, or what is
published. -/
def goal (loop : Loop) : Position :=
  match loop.control with
  | .pushing _ last _ => last
  | _ => loop.position

variable {c : FeedContext} {durable : Option Position} {loop after : Loop} {event : LoopEvent}

/-- A loop that hands nothing over has published its goal. -/
theorem goal_eq (h : ¬ IsPushing loop.control) : loop.goal = loop.position := by
  unfold goal
  split
  · rename_i hcontrol
    exact absurd (hcontrol ▸ trivial) h
  · rfl

/-- A loop that has ended hands nothing over. -/
theorem not_pushing_of_finished (h : loop.isFinished = true) : ¬ IsPushing loop.control := by
  intro hpushing
  unfold isFinished at h
  split at h
  · rename_i hcontrol
    exact (hcontrol ▸ hpushing : IsPushing (.finished _)).elim
  · exact absurd h (by simp)

/-- A loop that takes a turn has not ended. -/
theorem Moves.not_finished (h : loop.Moves c durable event after) : loop.isFinished = false := by
  unfold isFinished
  split
  · rename_i hcontrol
    cases h with
    | waits hbefore | reads hbefore | leaves _ hbefore =>
        rw [hcontrol] at hbefore
        exact hbefore.elim
    | ends _ hbefore =>
        rw [hcontrol] at hbefore
        exact hbefore.elim False.elim fun ⟨_, hclosing⟩ => absurd hclosing nofun
    | opens _ hbefore | rejects _ _ _ hbefore | collects _ _ _ hbefore | hands _ _ _ _ hbefore
    | publishes _ _ _ hbefore | refused _ _ _ hbefore | recovers _ _ hbefore =>
        exact absurd (hcontrol.symm.trans hbefore) nofun
  · rfl

/-- A loop that does not learn of a push hands nothing over and publishes nothing, and it comes to a
push only with a batch that a message completes. -/
theorem Moves.quiet_or_hands (h : loop.Moves c durable event after)
    (hpushed : ∀ taken, event ≠ .pushed taken) :
    ¬ IsPushing loop.control ∧ after.position = loop.position ∧
      (¬ IsPushing after.control ∨ ∃ m buffer batch confirmed, event = .polled (.ok (some m)) ∧
        c.receive loop m = .ok (buffer, some batch) ∧
        after.control = .pushing batch.records batch.last confirmed) := by
  cases h with
  | waits hbefore hafter _ hposition =>
      exact ⟨(not_pushing_of_waits hbefore).1, hposition, .inl (not_pushing_of_waits hafter).1⟩
  | opens _ hbefore hafter hkeeps => exact ⟨hbefore ▸ id, hkeeps.1, .inl (hafter ▸ id)⟩
  | reads hbefore hafter _ _ hkeeps =>
      exact ⟨(not_pushing_of_reads hbefore).1, hkeeps.1, .inl (not_pushing_of_reads hafter).1⟩
  | leaves _ hbefore hafter _ hkeeps =>
      exact ⟨(not_pushing_of_reads hbefore).1, hkeeps.1, .inl (hafter ▸ id)⟩
  | rejects _ _ _ hbefore _ hafter hkeeps => exact ⟨hbefore ▸ id, hkeeps.1, .inl (hafter ▸ id)⟩
  | collects _ _ _ hbefore _ hafter _ hposition =>
      exact ⟨hbefore ▸ id, hposition, .inl (not_pushing_of_reads hafter).1⟩
  | hands m buffer batch confirmed hbefore hreceive hafter hposition =>
      exact ⟨hbefore ▸ id, hposition, .inr ⟨m, buffer, batch, confirmed, rfl, hreceive, hafter⟩⟩
  | publishes | refused => exact absurd rfl (hpushed _)
  | recovers _ _ hbefore hafter hposition => exact ⟨hbefore ▸ id, hposition, .inl (hafter ▸ id)⟩
  | ends _ hbefore hafter hposition =>
      refine ⟨?_, hposition, .inl (hafter ▸ id)⟩
      rcases hbefore with hbefore | ⟨_, hbefore⟩
      · exact (not_pushing_of_waits hbefore).1
      · exact hbefore ▸ id

/-- A loop that learns how its push went publishes the end of the batch, or leaves because the
channel is closed. -/
theorem pushed_cases {taken : Bool} (h : loop.step c durable (.pushed taken) = some after) :
    ∃ records last confirmed, loop.control = .pushing records last confirmed ∧
      (taken = true ∧ ¬ IsPushing after.control ∧ after.position = max loop.position last ∨
        taken = false ∧ after.control = .closing (.error .channelClosed)) := by
  cases transition_of_step h with
  | publishes records last confirmed hbefore =>
      obtain ⟨hreads, -, hposition, -⟩ :=
        settle_facts { loop with position := max loop.position last } durable confirmed
      exact ⟨records, last, confirmed, hbefore,
        .inl ⟨rfl, (not_pushing_of_reads hreads).1, hposition⟩⟩
  | refused records last confirmed hbefore =>
      exact ⟨records, last, confirmed, hbefore, .inr ⟨rfl, rfl⟩⟩
  | finishes hevent | leaves hevent => exact absurd hevent (by simp)

/-- A loop that has found the channel closed ends with that failure. -/
theorem fails_of_closed (h : loop.step c durable event = some after)
    (hclosing : loop.control = .closing (.error .channelClosed)) :
    after.control = .finished (.error .channelClosed) := by
  cases turns_of_step h with
  | fails fault _ _ hbefore =>
      obtain rfl := Except.error.inj (Control.closing.inj (hclosing.symm.trans hbefore))
      rfl
  | goes _ hbefore | leaves _ hbefore | breaks _ _ hbefore | finishes _ hbefore =>
      rw [hclosing] at hbefore
      exact hbefore.elim
  | refused hbefore | recovers _ hbefore | rejects _ _ hbefore | unopened _ hbefore
  | shakes _ _ hbefore | closes _ hbefore => exact absurd (hclosing.symm.trans hbefore) (by simp)

/-- A loop that is asked to try again ends with a failure, if it ends. -/
theorem shake_not_ok (policy : ReconnectPolicy) (fault : SessionFault) (q : Position) :
    (loop.shake policy fault).control ≠ .finished (.ok q) := by
  unfold shake
  dsimp only
  split <;> simp [fail, become, goTo]

/-- A loop that ends well ends with what it has published. -/
theorem result_eq (h : loop.step c durable event = some after) {q : Position}
    (hresult : after.control = .finished (.ok q)) : q = after.position := by
  cases turns_of_step h with
  | goes _ _ hafter => exact absurd hresult (hafter.not_finished _)
  | recovers _ _ _ hafter => exact absurd hresult (hafter.not_finished _)
  | leaves | refused | breaks | rejects | fails => exact absurd hresult nofun
  | unopened fault => exact absurd hresult (loop.shake_not_ok _ fault q)
  | shakes fault => exact absurd hresult (loop.shake_not_ok _ fault q)
  | finishes | closes => exact (Except.ok.inj (Control.finished.inj hresult)).symm

end Loop

end ChangeFeed
