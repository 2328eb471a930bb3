import ChangeFeed.Proofs.Checkpoint.Persister
import ChangeFeed.Proofs.Feed.Midway
import ChangeFeed.Proofs.Job.Turns

/-!
# What the parts of a pipeline hand over at the end

What the read loop has pushed is written and acknowledged by the applier, and what that has
acknowledged is saved by the persister, each part ending behind the one before it.
`Pipeline.Carries` says for the first two, where the feed groups, that the last record on its way is
at the position that the loop publishes, and `Pipeline.Settles` says for the persister what its last
save is about. Read `Pipeline.ends_at_acknowledged` first: a pipeline that ends well has published,
acknowledged and saved the same position.
-/

namespace ChangeFeed

/-! ## From the read loop to the applier -/

namespace Pipeline

open Feed

variable {c : PipelineContext} {start : Position} {p : Pipeline} {loop : Loop}

/-- The records that the applier has not written yet. -/
def ahead (p : Pipeline) : List Record :=
  Applier.inHand p.applier.control ++ p.channel.inFlight

/-- The position of the last of some records, or another one if there is none. -/
def endOf (records : List Record) (otherwise : Position) : Position :=
  records.foldl (fun _ record => record.position) otherwise

/-- Records behind others end where they end themselves. -/
theorem end_of_append (records more : List Record) (otherwise : Position) :
    endOf (records ++ more) otherwise = endOf more (endOf records otherwise) :=
  List.foldl_append

/-- What holds of a pipeline in which nothing has failed and whose feed groups: the last record on
its way is at the position that the loop publishes next, no record is behind that, and the applier
ends behind the loop. -/
structure Carries (start : Position) (p : Pipeline) : Prop where
  start_le : start ≤ p.applier.acknowledged
  acknowledged_le : p.applier.acknowledged ≤ p.loop.goal
  last_le : p.applier.last.getD start ≤ p.loop.goal
  position_le : p.loop.position ≤ p.loop.goal
  ahead_le : ∀ r ∈ p.ahead, r.position ≤ p.loop.goal
  carried : p.applier.isFinished = false →
    p.channel.Flows ∧ endOf p.ahead (p.applier.last.getD start) = p.loop.goal
  drained : p.applier.control = .flushing true → p.loop.isFinished = true ∧ p.ahead = []
  ended : p.applier.isFinished = true →
    p.loop.isFinished = true ∧ p.applier.acknowledged = p.loop.position
  published : ∀ q, p.loop.control = .finished (.ok q) → q = p.loop.position

/-- A pipeline that will not end well: the applier has failed, or the loop has found the channel
closed or has failed. -/
def Spoiled (p : Pipeline) : Prop :=
  (∃ failure, p.applier.control = .finished (.error failure)) ∨
    p.loop.control = .closing (.error .channelClosed) ∨
    ∃ fault, p.loop.control = .finished (.error fault)

/-- A pipeline that starts carries nothing. -/
theorem carries_pipeline (c : PipelineContext) (capacity : Nat) :
    (c.pipeline ⟨capacity, [], [], false⟩).Carries c.feed.start where
  start_le := le_refl _
  acknowledged_le := le_refl _
  last_le := le_refl _
  position_le := le_refl _
  ahead_le _ h := absurd h List.not_mem_nil
  carried _ := ⟨⟨rfl, fun _ h => absurd h List.not_mem_nil⟩, rfl⟩
  drained := nofun
  ended := nofun
  published := nofun

/-- While the loop has not ended, the applier goes on and does not flush for the last time. -/
theorem Carries.goes_on (h : p.Carries start) (hloop : p.loop.isFinished = false) :
    p.applier.isFinished = false ∧ p.applier.control ≠ .flushing true := by
  constructor
  · by_contra hover
    exact absurd (hloop.symm.trans (h.ended (by simpa using hover)).1) (by simp)
  · intro hlast
    exact absurd (hloop.symm.trans (h.drained hlast).1) (by simp)

/-- A loop that starts no push carries what it has carried, if its goal stays. -/
theorem Carries.still (h : p.Carries start) (hloop : p.loop.isFinished = false)
    (hgoal : loop.goal = p.loop.goal) (hposition : loop.position ≤ loop.goal)
    (hpublished : ∀ q, loop.control = .finished (.ok q) → q = loop.position) :
    Carries start { p with loop := loop } := by
  obtain ⟨hgoes, hlast⟩ := h.goes_on hloop
  refine {
    start_le := h.start_le
    acknowledged_le := hgoal ▸ h.acknowledged_le
    last_le := hgoal ▸ h.last_le
    position_le := hposition
    ahead_le := fun r hr => hgoal ▸ h.ahead_le r hr
    carried := fun _ => hgoal ▸ h.carried hgoes
    drained := fun hdrained => absurd hdrained hlast
    ended := fun hover => absurd (hgoes.symm.trans hover) (by simp)
    published := hpublished }

/-- A batch that ends beyond what is published is carried behind what is on its way. -/
theorem Carries.hands (h : p.Carries start) (hpushing : ¬ IsPushing p.loop.control)
    (hloop : p.loop.isFinished = false) {batch : Batch} {confirmed : Position}
    (hends : batch.EndsLast) (hbeyond : p.loop.position < batch.last)
    (hafter : loop.control = .pushing batch.records batch.last confirmed)
    (hposition : loop.position = p.loop.position) :
    Carries start { p with loop := loop, channel := p.channel.push batch.records } := by
  obtain ⟨hgoes, hlast⟩ := h.goes_on hloop
  obtain ⟨hflows, -⟩ := h.carried hgoes
  have hgoal : loop.goal = batch.last := by rw [Loop.goal, hafter]
  have hbefore : p.loop.goal ≤ loop.goal := by
    rw [hgoal, Loop.goal_eq hpushing]
    exact hbeyond.le
  have hahead : ahead { p with loop := loop, channel := p.channel.push batch.records } =
      p.ahead ++ batch.records := by
    rw [ahead, Channel.push_in_flight hflows.1, ← List.append_assoc]
    rfl
  refine {
    start_le := h.start_le
    acknowledged_le := h.acknowledged_le.trans hbefore
    last_le := h.last_le.trans hbefore
    position_le := ?_
    ahead_le := fun r hr => ?_
    carried := fun _ => ⟨hflows.push _, ?_⟩
    drained := fun hdrained => absurd hdrained hlast
    ended := fun hover => absurd (hgoes.symm.trans hover) (by simp)
    published := fun q hq => absurd (hafter.symm.trans hq) nofun }
  · rw [hgoal, hposition]
    exact hbeyond.le
  · rcases List.mem_append.mp (hahead ▸ hr) with hr | hr
    · exact (h.ahead_le r hr).trans hbefore
    · exact hgoal ▸ hends.position_le hr
  · obtain ⟨contents, ending, hrecords, hending, -⟩ := hends
    rw [hahead, end_of_append, hrecords, end_of_append, hgoal]
    exact hending

/-- A loop that comes to no push leaves the channel alone. -/
theorem with_loop_of_not_pushing (p : Pipeline) (h : ¬ IsPushing loop.control) :
    p.withLoop loop = { p with loop := loop } := by
  unfold withLoop
  split
  · rename_i hcontrol
    exact absurd (hcontrol ▸ trivial) h
  · rfl

/-- A turn of the loop that is no answer to a push keeps what is carried, if the batch that it
comes to ends beyond what is published. -/
theorem Carries.read (h : p.Carries start) {event : LoopEvent}
    (hpushed : ∀ taken, event ≠ .pushed taken)
    (hstep : p.loop.step c.feed (some p.persister.durable) event = some loop)
    (hbatch : ∀ m buffer batch, event = .polled (.ok (some m)) →
      c.feed.receive p.loop m = .ok (buffer, some batch) →
      batch.EndsLast ∧ p.loop.position < batch.last) :
    (p.withLoop loop).Carries start := by
  have hmoves := Loop.moves_of_step hstep
  obtain ⟨hpushing, hposition, hquiet | ⟨m, buffer, batch, confirmed, rfl, hreceive, hafter⟩⟩ :=
    hmoves.quiet_or_hands hpushed
  · rw [with_loop_of_not_pushing p hquiet]
    refine h.still hmoves.not_finished ?_ (Loop.goal_eq hquiet).ge fun q => Loop.result_eq hstep
    rw [Loop.goal_eq hquiet, Loop.goal_eq hpushing, hposition]
  · obtain ⟨hends, hbeyond⟩ := hbatch m buffer batch rfl hreceive
    have hwith : p.withLoop loop =
        { p with loop := loop, channel := p.channel.push batch.records } := by
      rw [withLoop, hafter]
    rw [hwith]
    exact h.hands hpushing hmoves.not_finished hends hbeyond hafter hposition

/-- Learning of a push keeps what is carried: while nothing has failed, the push has gone through. -/
theorem Carries.learn (h : p.Carries start) {taken : Bool}
    (hlast : p.channel.lastPush? = some (if taken then .pushed else .closed))
    (hstep : p.loop.step c.feed (some p.persister.durable) (.pushed taken) = some loop) :
    Carries start { p with loop := loop } := by
  have hloop := (Loop.moves_of_step hstep).not_finished
  obtain ⟨hflows, -⟩ := h.carried (h.goes_on hloop).1
  obtain ⟨records, last, confirmed, hcontrol, ⟨rfl, hquiet, hposition⟩ | ⟨rfl, -⟩⟩ :=
    Loop.pushed_cases hstep
  · have hgoal : p.loop.goal = last := by rw [Loop.goal, hcontrol]
    refine h.still hloop ?_ (Loop.goal_eq hquiet).ge fun q => Loop.result_eq hstep
    rw [Loop.goal_eq hquiet, hposition, hgoal, max_eq_right (hgoal ▸ h.position_le)]
  · exact absurd hlast hflows.last_push

/-- Taking a record in hand keeps what is carried. -/
theorem Carries.take (h : p.Carries start) {record : Record} {channel : Channel Record}
    (hcontrol : p.applier.control = .receiving)
    (hreceive : p.channel.receive = (some record, channel)) :
    Carries start
      { p with channel := channel, applier := { p.applier with control := .writing record } } := by
  obtain ⟨hflows, hend⟩ := h.carried (Applier.not_finished_of_control (by simp [hcontrol]))
  obtain ⟨hafter, hflight⟩ := hflows.receive hreceive
  have hahead : ahead { p with
      channel := channel, applier := { p.applier with control := .writing record } } = p.ahead := by
    rw [ahead, ahead, hcontrol, hflight]
    rfl
  exact {
    start_le := h.start_le
    acknowledged_le := h.acknowledged_le
    last_le := h.last_le
    position_le := h.position_le
    ahead_le := hahead ▸ h.ahead_le
    carried := fun _ => ⟨hafter, hahead ▸ hend⟩
    drained := nofun
    ended := nofun
    published := h.published }

/-- At the end of the channel the loop has ended, and nothing is on its way. -/
theorem Carries.meet_end (h : p.Carries start) (hcontrol : p.applier.control = .receiving)
    (hdrained : p.channel.isDrained p.loop.isFinished = true) :
    Carries start { p with applier := { p.applier with control := .flushing true } } := by
  have hgoes : p.applier.isFinished = false :=
    Applier.not_finished_of_control (by simp [hcontrol])
  obtain ⟨hflows, hend⟩ := h.carried hgoes
  obtain ⟨hloop, hflight⟩ := hflows.of_drained hdrained
  have hahead : ahead { p with applier := { p.applier with control := .flushing true } } = [] :=
    hflight
  have hsame : p.ahead = [] := by
    rw [ahead, hcontrol, hflight]
    rfl
  exact {
    start_le := h.start_le
    acknowledged_le := h.acknowledged_le
    last_le := h.last_le
    position_le := h.position_le
    ahead_le := fun r hr => absurd (hahead ▸ hr) List.not_mem_nil
    carried := fun _ => ⟨hflows, by rw [hahead, ← hsame]; exact hend⟩
    drained := fun _ => ⟨hloop, hahead⟩
    ended := nofun
    published := h.published }

/-- A record that is written is the last one that was written. -/
theorem Carries.write (h : p.Carries start) {record : Record} {next : Applier.Control}
    (hcontrol : p.applier.control = .writing record)
    (hnext : next = .receiving ∨ next = .flushing false) :
    Carries start { p with applier := { p.applier.count record with control := next } } := by
  have hgoes : p.applier.isFinished = false :=
    Applier.not_finished_of_control (by simp [hcontrol])
  obtain ⟨hflows, hend⟩ := h.carried hgoes
  have hahead : p.ahead =
      record :: ahead { p with applier := { p.applier.count record with control := next } } := by
    rw [ahead, ahead, hcontrol]
    rcases hnext with rfl | rfl <;> rfl
  refine {
    start_le := h.start_le
    acknowledged_le := h.acknowledged_le
    last_le := h.ahead_le record (hahead ▸ List.mem_cons_self)
    position_le := h.position_le
    ahead_le := fun r hr => h.ahead_le r (hahead ▸ List.mem_cons_of_mem _ hr)
    carried := fun _ => ⟨hflows, ?_⟩
    drained := fun hlast => ?_
    ended := fun hover => ?_
    published := h.published }
  · rw [hahead] at hend
    exact hend
  · rcases hnext with rfl | rfl <;> exact absurd hlast nofun
  · rcases hnext with rfl | rfl <;> exact absurd hover nofun

/-- What is acknowledged after a flush, between the start and the goal. -/
theorem Carries.acknowledge_le (h : p.Carries start) :
    start ≤ p.applier.acknowledge.acknowledged ∧
      p.applier.acknowledge.acknowledged ≤ p.loop.goal := by
  refine ⟨h.start_le.trans p.applier.le_acknowledge, ?_⟩
  cases hlast : p.applier.last with
  | none => simpa [Applier.acknowledge, hlast] using h.acknowledged_le
  | some q =>
      have hle : q ≤ p.loop.goal := by simpa [hlast] using h.last_le
      simpa [Applier.acknowledge, hlast] using ⟨h.acknowledged_le, hle⟩

/-- Flushing in between keeps what is carried. -/
theorem Carries.flush (h : p.Carries start) (hcontrol : p.applier.control = .flushing false) :
    Carries start { p with applier := { p.applier.acknowledge with control := .receiving } } := by
  obtain ⟨hflows, hend⟩ := h.carried (Applier.not_finished_of_control (by simp [hcontrol]))
  have hahead : ahead { p with applier := { p.applier.acknowledge with control := .receiving } } =
      p.ahead := by
    rw [ahead, ahead, hcontrol]
    rfl
  exact {
    start_le := h.acknowledge_le.1
    acknowledged_le := h.acknowledge_le.2
    last_le := h.last_le
    position_le := h.position_le
    ahead_le := hahead ▸ h.ahead_le
    carried := fun _ => ⟨hflows, hahead ▸ hend⟩
    drained := nofun
    ended := nofun
    published := h.published }

/-- With the last flush everything that was published is acknowledged. -/
theorem Carries.flush_last (h : p.Carries start) (hcontrol : p.applier.control = .flushing true) :
    Carries start { p with
      channel := p.channel.discard
      applier := { p.applier.acknowledge with
        control := .finished (.ok p.applier.acknowledge.written) } } := by
  obtain ⟨hloop, hnothing⟩ := h.drained hcontrol
  obtain ⟨-, hend⟩ := h.carried (Applier.not_finished_of_control (by simp [hcontrol]))
  have hgoal : p.loop.goal = p.loop.position := Loop.goal_eq (Loop.not_pushing_of_finished hloop)
  have hacknowledged : p.applier.acknowledge.acknowledged = p.loop.position := by
    obtain ⟨hstart, hle⟩ := h.acknowledge_le
    rw [hnothing, hgoal] at hend
    refine le_antisymm (hgoal ▸ hle) ?_
    rw [← hend]
    cases hlast : p.applier.last with
    | none => exact hstart
    | some q => simp [endOf, Applier.acknowledge, hlast]
  have hahead : Applier.inHand (.finished (.ok p.applier.acknowledge.written)) ++
      p.channel.discard.inFlight = [] := p.channel.discard_facts.2.2
  have hover : ({ p.applier.acknowledge with
      control := .finished (.ok p.applier.acknowledge.written) } : Applier).isFinished = true := rfl
  exact {
    start_le := h.acknowledge_le.1
    acknowledged_le := h.acknowledge_le.2
    last_le := h.last_le
    position_le := h.position_le
    ahead_le := fun r hr => absurd hr (List.eq_nil_iff_forall_not_mem.mp hahead r)
    carried := fun hgoes => absurd (hgoes.symm.trans hover) (by simp)
    drained := fun hlast => absurd hlast (by simp)
    ended := fun _ => ⟨hloop, hacknowledged⟩
    published := h.published }

/-- An answer of the output keeps what is carried, or the applier has failed. -/
theorem Carries.apply (h : p.Carries start) {event : ApplierEvent} {after : Applier}
    (hreceived : ∀ record, event ≠ .received record) (hended : event ≠ .ended)
    (hmoves : p.applier.Moves event after) :
    (p.withApplier after).Carries start ∨ (p.withApplier after).Spoiled := by
  cases hmoves with
  | receives => exact absurd rfl (hreceived _)
  | ends => exact absurd rfl hended
  | writes hcontrol hnext =>
      left
      rcases hnext with rfl | rfl
      · exact h.write hcontrol (.inl rfl)
      · exact h.write hcontrol (.inr rfl)
  | flushes hcontrol => exact .inl (h.flush hcontrol)
  | flushesLast hcontrol => exact .inl (h.flush_last hcontrol)
  | fails hevent hgoes => exact .inr (.inl ⟨_, rfl⟩)

/-- A pipeline that will not end well does not come to do so. -/
theorem Spoiled.step (h : p.Spoiled) {turn : Turn} {after : Pipeline}
    (htakes : Takes c p turn after) : after.Spoiled := by
  have hreads {q : Pipeline} {event : LoopEvent} {next : Loop}
      (hstep : p.loop.step c.feed (some p.persister.durable) event = some next)
      (happlier : q.applier = p.applier) (hloop : q.loop = next) : q.Spoiled := by
    rcases h with hfailed | hclosing | ⟨fault, hfinished⟩
    · exact .inl (happlier ▸ hfailed)
    · exact .inr (.inr ⟨_, hloop ▸ Loop.fails_of_closed hstep hclosing⟩)
    · have hgoes := (Loop.moves_of_step hstep).not_finished
      simp [Loop.isFinished, hfinished] at hgoes
  have happlies {q : Pipeline} (hgoes : p.applier.isFinished = false) (hloop : q.loop = p.loop) :
      q.Spoiled := by
    rcases h with ⟨failure, hfailed⟩ | hspoiled
    · exact absurd (hgoes.symm.trans (Applier.is_finished_iff.mpr ⟨_, hfailed⟩)) (by simp)
    · exact .inr (hloop ▸ hspoiled)
  cases htakes with
  | reads hpushed hstep =>
      obtain ⟨hloop, happlier, -⟩ := p.with_loop_parts _
      exact hreads hstep happlier hloop
  | learns hlast hstep => exact hreads hstep rfl rfl
  | takes hcontrol => exact happlies (Applier.not_finished_of_control (by simp [hcontrol])) rfl
  | meetsEnd hcontrol => exact happlies (Applier.not_finished_of_control (by simp [hcontrol])) rfl
  | writes hmoves => exact happlies hmoves.not_finished rfl
  | flushes hmoves => exact happlies hmoves.not_finished rfl
  | persists | wrapsUp | stops => exact h

/-- Every turn keeps what is carried, or spoils the pipeline. -/
theorem Carries.step (h : p.Carries start) {turn : Turn} {after : Pipeline}
    (htakes : Takes c p turn after)
    (hbatch : ∀ m buffer batch, turn = .read (.polled (.ok (some m))) →
      c.feed.receive p.loop m = .ok (buffer, some batch) →
      batch.EndsLast ∧ p.loop.position < batch.last) :
    after.Carries start ∨ after.Spoiled := by
  cases htakes with
  | reads hpushed hstep =>
      refine .inl (h.read hpushed hstep fun m buffer batch hevent => ?_)
      exact hbatch m buffer batch (congrArg Turn.read hevent)
  | learns hlast hstep => exact .inl (h.learn hlast hstep)
  | takes hcontrol hreceive => exact .inl (h.take hcontrol hreceive)
  | meetsEnd hcontrol hdrained => exact .inl (h.meet_end hcontrol hdrained)
  | writes hmoves => exact h.apply (by simp) (by simp) hmoves
  | flushes hmoves => exact h.apply (by simp) (by simp) hmoves
  | persists | wrapsUp | stops =>
      exact .inl ⟨h.start_le, h.acknowledged_le, h.last_le, h.position_le, h.ahead_le, h.carried,
        h.drained, h.ended, h.published⟩

/-! ## From the applier to the persister -/

/-- What holds of the persister of a pipeline: it leaves its loop behind the end of the applier, with
what was acknowledged last. -/
structure Settles (p : Pipeline) : Prop where
  told : p.endAsked = true → p.applier.isFinished = true
  lasts : ∀ target, p.persister.control = .savingLast target →
    p.applier.isFinished = true ∧ target = p.applier.acknowledged
  ended : p.persister.control = .finished (.ok ()) →
    p.applier.isFinished = true ∧ p.applier.acknowledged ≤ p.persister.durable

/-- The persister of a pipeline that starts has not left its loop. -/
theorem settles_pipeline (c : PipelineContext) (channel : Channel Record) :
    (c.pipeline channel).Settles where
  told := nofun
  lasts := nofun
  ended := nofun

/-- A persister that goes on after a look around leaves its loop behind the end of the applier. -/
theorem Settles.goes (h : p.Settles) {q after : Persister}
    (hgoes : Persister.Goes p.acknowledged q after) : Settles { p with persister := after } where
  told := h.told
  lasts target hcontrol := by
    have hleft : after.hasLeft = true := by
      rw [Persister.hasLeft, show after.control = _ from hcontrol]
    exact ⟨(hgoes.told hleft).elim id h.told, (hgoes.due (.inr hcontrol)).1⟩
  ended hcontrol := by
    cases hgoes with
    | ends hdue hend => exact ⟨hend.elim id h.told, hdue⟩
    | waits | asks | asksLast => exact absurd hcontrol (by simp)

/-- Every turn keeps what holds of the persister. -/
theorem Settles.step (h : p.Settles) {turn : Turn} {after : Pipeline}
    (htakes : Takes c p turn after) : after.Settles := by
  have hsame {q : Pipeline} (hpersister : q.persister = p.persister)
      (hasked : q.endAsked = p.endAsked) (happlier : q.applier = p.applier) : q.Settles := by
    refine ⟨?_, ?_, ?_⟩ <;> rw [happlier]
    · exact hasked ▸ h.told
    · exact hpersister ▸ h.lasts
    · exact hpersister ▸ h.ended
  -- While the applier goes on, the persister is within its loop.
  have happlies {q : Pipeline} (hgoes : p.applier.isFinished = false)
      (hpersister : q.persister = p.persister) (hasked : q.endAsked = p.endAsked) :
      q.Settles := by
    have hover (h : p.applier.isFinished = true) {P : Prop} : P :=
      absurd (hgoes.symm.trans h) (by simp)
    refine ⟨fun htold => hover (h.told (hasked ▸ htold)), fun target hlast => ?_, fun hended => ?_⟩
    · exact hover (h.lasts target (hpersister ▸ hlast)).1
    · exact hover (h.ended (hpersister ▸ hended)).1
  cases htakes with
  | reads =>
      obtain ⟨-, happlier, hpersister, hasked⟩ := p.with_loop_parts _
      exact hsame hpersister hasked happlier
  | learns => exact hsame rfl rfl rfl
  | takes hcontrol => exact happlies (Applier.not_finished_of_control (by simp [hcontrol])) rfl rfl
  | meetsEnd hcontrol => exact happlies (Applier.not_finished_of_control (by simp [hcontrol])) rfl rfl
  | writes hmoves => exact happlies hmoves.not_finished rfl rfl
  | flushes hmoves => exact happlies hmoves.not_finished rfl rfl
  | stops => exact hsame rfl rfl rfl
  | wrapsUp hover => exact ⟨fun _ => hover.2, h.lasts, h.ended⟩
  | persists hstep =>
      cases Persister.moves_of_step hstep with
      | starts | breaks | failsLast => exact ⟨h.told, nofun, nofun⟩
      | looks _ hgoes => exact h.goes hgoes
      | saves _ hgoes => exact h.goes hgoes
      | fails _ hgoes => exact h.goes hgoes
      | savesLast hcontrol =>
          obtain ⟨hover, htarget⟩ := h.lasts _ hcontrol
          exact ⟨h.told, nofun, fun _ => ⟨hover, htarget.ge⟩⟩

/-- A pipeline ends well when all its parts do. -/
theorem result_ok {jobId : String} {q : Position} (h : p.result? jobId = some (.ok q)) :
    p.loop.control = .finished (.ok q) ∧ (∃ written, p.applier.control = .finished (.ok written)) ∧
      p.persister.control = .finished (.ok ()) := by
  obtain ⟨outcome, hloop, h⟩ := Option.bind_eq_some_iff.mp h
  obtain ⟨applied, happlier, h⟩ := Option.bind_eq_some_iff.mp h
  have hcontrol : p.loop.control = .finished outcome := by
    unfold Loop.result? at hloop
    split at hloop
    · rename_i result hcontrol
      exact Option.some.inj hloop ▸ hcontrol
    · exact absurd hloop (by simp)
  have happlied : p.applier.control = .finished applied := by
    unfold Applier.result? at happlier
    split at happlier
    · rename_i result hcontrol
      exact Option.some.inj happlier ▸ hcontrol
    · exact absurd happlier (by simp)
  cases applied with
  | error failure => exact absurd h (by simp)
  | ok written =>
      obtain ⟨ending, hpersister, h⟩ := Option.bind_eq_some_iff.mp h
      unfold Persister.outcome? at hpersister
      split at hpersister
      · rename_i result hended
        obtain rfl := Option.some.inj hpersister
        cases result with
        | error failure => exact absurd h (by simp)
        | ok _ =>
            have hok : outcome.mapError FeedFault.failure = .ok q :=
              Except.map_error_eq_ok.mp (Option.some.inj h)
            exact ⟨Except.map_error_eq_ok.mp hok ▸ hcontrol, ⟨written, happlied⟩, hended⟩
      · obtain rfl := Option.some.inj hpersister
        exact absurd h (by simp)
      · exact absurd hpersister (by simp)

/-- A pipeline that ends well has published and acknowledged the position that it ends with, and
that is durable. -/
theorem ends_at_acknowledged (h : p.Carries start ∨ p.Spoiled) (hsettles : p.Settles)
    {jobId : String} {q : Position} (hresult : p.result? jobId = some (.ok q)) :
    q = p.applier.acknowledged ∧ p.applier.acknowledged ≤ p.persister.durable := by
  obtain ⟨hloop, ⟨written, happlier⟩, hpersister⟩ := result_ok hresult
  refine ⟨?_, (hsettles.ended hpersister).2⟩
  rcases h with h | ⟨failure, hfailed⟩ | hclosing | ⟨fault, hfailed⟩
  · have hover : p.applier.isFinished = true := Applier.is_finished_iff.mpr ⟨_, happlier⟩
    exact (h.published q hloop).trans (h.ended hover).2.symm
  · exact absurd (happlier.symm.trans hfailed) nofun
  · exact absurd (hloop.symm.trans hclosing) nofun
  · exact absurd (hloop.symm.trans hfailed) nofun

end Pipeline

end ChangeFeed
