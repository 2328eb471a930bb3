import ChangeFeed.Proofs.Job.Deployment
import ChangeFeed.Proofs.Job.Handover

/-!
# A planned stop

A job that was asked to stop and ends well has lost no progress: the position that it reports is the
one that its applier acknowledged last, it is stored if it is not the start of the run, and the next
run starts there (`Deployment.stops_at_acknowledged`). This holds whatever the slot and the store
were like before, if the run starts when no persister is left behind that may still save. What holds
of a job at every moment is `Job.Proceeds`: it relates the store to the parts of the pipeline, which
hand over to each other in turn (`Pipeline.Carries`, `Pipeline.Settles`).
-/

namespace ChangeFeed

namespace World

variable {plugin : Plugin} {bound : Position} {w w' : World}

/-! ## What a feed gets out of its session -/

section Follows

variable {c : FeedContext} {b : TransactionBuffer} {s s' : Session}

/-- Polling keeps a world sound, and the feed follows its session if there was nothing to return. -/
theorem poll_followed (hsound : w.Sound bound) (hfollows : Feed.Follows w.source c b (some s))
    {result : Except SessionFault (Option Message)}
    (hpoll : s.poll answer w = (result, s', w')) :
    w'.Sound bound ∧ w.Keeps w' ∧ (result = .ok none → Feed.Follows w'.source c b (some s')) ∧
      ∀ m, result = .ok (some m) → ∃ base slot returned held, s'.link = .live ∧
        w'.source.slot = some slot ∧ s'.log.Agrees w'.source base slot (returned ++ [m]) held ∧
        Midway w'.source c base returned b := by
  obtain ⟨_, base, slot, returned, held, hsome, hlink, hslot, hagrees, hmidway⟩ := hfollows
  obtain rfl := Option.some.inj hsome
  obtain ⟨hsound', hkeeps, hpolled⟩ := poll_facts hsound hlink hslot hagrees hpoll
  refine ⟨hsound', hkeeps, ?_, ?_⟩
  · intro hnothing
    obtain ⟨hlink', hslot', held', hagrees'⟩ := hpolled none hnothing
    rw [Option.toList_none, List.append_nil] at hagrees'
    exact ⟨s', base, slot, returned, held', rfl, hlink', hslot', hagrees',
      hmidway.same_log hkeeps.log⟩
  · intro m hmessage
    obtain ⟨hlink', hslot', held', hagrees'⟩ := hpolled (some m) hmessage
    exact ⟨base, slot, returned, held', hlink', hslot', hagrees', hmidway.same_log hkeeps.log⟩

/-- Confirming what is stored keeps a world sound, and the feed follows its session if that
succeeds. -/
theorem confirm_followed (hsound : w.Sound bound) (hfollows : Feed.Follows w.source c b (some s))
    {target : Position} (htarget : target ≤ bound) {result : Except SessionFault Unit}
    (hconfirm : s.confirm answer target w = (result, s', w')) :
    w'.Sound bound ∧ w.Keeps w' ∧ (result = .ok () → Feed.Follows w'.source c b (some s')) := by
  obtain ⟨_, base, slot, returned, held, hsome, hlink, hslot, hagrees, hmidway⟩ := hfollows
  obtain rfl := Option.some.inj hsome
  obtain ⟨hsound', hkeeps, hconfirmed⟩ :=
    confirm_facts hsound hlink hslot hagrees htarget hconfirm
  refine ⟨hsound', hkeeps, ?_⟩
  intro hok
  obtain ⟨hlink', slot', held', hslot', hagrees'⟩ := hconfirmed hok
  exact ⟨s', base, slot', returned, held', rfl, hlink', hslot', hagrees',
    hmidway.same_log hkeeps.log⟩

end Follows

end World

namespace Job

/-- The store of a job that nobody else saves positions for: what the job started from and what it
takes for durable is stored, and that is acknowledged, as is what the persister is about to save. -/
structure OwnsStore (job : Job World) : Prop where
  start_le : job.context.feed.start ≤ job.world.checkpoint
  durable_le : job.pipeline.persister.durable ≤ job.world.checkpoint
  stored_le : job.world.checkpoint ≤ job.pipeline.applier.acknowledged
  targets : ∀ target, Persister.IsTarget job.pipeline.persister.control target →
    job.world.checkpoint ≤ target ∧ target ≤ job.pipeline.applier.acknowledged

/-- What holds of a job at every moment of its run, for a bound of what is handed to the server. Of
the store something holds only if the job is alone with it. -/
structure Proceeds (plugin : Plugin) (bound : Position) (alone : Prop) (job : Job World) :
    Prop where
  plugin_eq : job.context.feed.plugin = plugin
  regular : job.world.IsRegular plugin bound
  start_le : job.context.feed.start ≤ bound
  durable_le : job.pipeline.persister.durable ≤ bound
  owns : alone → job.OwnsStore
  footing : Feed.Footing job.world.source job.context.feed bound job.pipeline.loop job.session
  carries : job.context.feed.settings.grouped = true →
    job.pipeline.Carries job.context.feed.start ∨ job.pipeline.Spoiled
  settles : job.pipeline.Settles

variable {plugin : Plugin} {bound : Position} {alone : Prop} {job job' : Job World} {w : World}
  {session : Option Session} {event : LoopEvent} {pipeline : Pipeline} {turn : Turn}

/-- The store stays the job's own while only more is acknowledged. -/
theorem OwnsStore.later (h : job.OwnsStore)
    (hstart : job'.context.feed.start = job.context.feed.start)
    (hcheckpoint : job'.world.checkpoint = job.world.checkpoint)
    (hpersister : job'.pipeline.persister = job.pipeline.persister)
    (hacknowledged : job.pipeline.applier.acknowledged ≤ job'.pipeline.applier.acknowledged) :
    job'.OwnsStore where
  start_le := by
    rw [hstart, hcheckpoint]
    exact h.start_le
  durable_le := by
    rw [hpersister, hcheckpoint]
    exact h.durable_le
  stored_le := hcheckpoint ▸ h.stored_le.trans hacknowledged
  targets target htarget := by
    obtain ⟨hle, hlt⟩ := h.targets target (hpersister ▸ htarget)
    exact ⟨hcheckpoint ▸ hle, hlt.trans hacknowledged⟩

/-- A turn of the loop keeps what holds of a job if it keeps the footing of the feed. -/
theorem Proceeds.loop_turn (h : job.Proceeds plugin bound alone) (hsound : w.Sound bound)
    (hkeeps : job.world.Keeps w)
    (htakes : Pipeline.Takes job.context job.pipeline turn pipeline)
    (happlier : pipeline.applier = job.pipeline.applier)
    (hpersister : pipeline.persister = job.pipeline.persister)
    (hfooting : Feed.Footing w.source job.context.feed bound pipeline.loop session)
    (hbatch : job.context.feed.settings.grouped = true → ∀ m buffer batch,
      turn = .read (.polled (.ok (some m))) →
      job.context.feed.receive job.pipeline.loop m = .ok (buffer, some batch) →
      batch.EndsLast ∧ job.pipeline.loop.position < batch.last) :
    Proceeds plugin bound alone
      { job with session := session, world := w, pipeline := pipeline } where
  plugin_eq := h.plugin_eq
  regular := h.regular.keeps hsound hkeeps
  start_le := h.start_le
  durable_le := hpersister ▸ h.durable_le
  owns halone := (h.owns halone).later rfl hkeeps.checkpoint_eq hpersister
    (congrArg Applier.acknowledged happlier).ge
  footing := hfooting
  carries hgrouped := by
    rcases h.carries hgrouped with hcarries | hspoiled
    · exact hcarries.step htakes (hbatch hgrouped)
    · exact .inr (hspoiled.step htakes)
  settles := h.settles.step htakes

/-! ## Turns of the read loop -/

/-- A turn of the loop that is no answer to a push keeps what holds of a job if it keeps the footing
of the feed, and a batch that it comes to ends beyond what is published. -/
theorem Proceeds.read (h : job.Proceeds plugin bound alone) (hsound : w.Sound bound)
    (hkeeps : job.world.Keeps w)
    (hfooting : ∀ loop, job.pipeline.loop.step job.context.feed
      (some job.pipeline.persister.durable) event = some loop →
      Feed.Footing w.source job.context.feed bound loop session)
    (hbatch : job.context.feed.settings.grouped = true → ∀ m buffer batch,
      event = .polled (.ok (some m)) →
      job.context.feed.receive job.pipeline.loop m = .ok (buffer, some batch) →
      batch.EndsLast ∧ job.pipeline.loop.position < batch.last)
    (hturn : ({ job with session := session, world := w } : Job World).turn (.read event) =
      some job') : job'.Proceeds plugin bound alone := by
  obtain ⟨pipeline, htakes, rfl⟩ := takes_of_turn hturn
  cases htakes with
  | reads hpushed hstep =>
      have hwith := job.pipeline.with_loop_parts
      refine h.loop_turn hsound hkeeps (.reads hpushed hstep) (hwith _).2.1 (hwith _).2.2.1 ?_
        fun hgrouped m buffer batch hevent => hbatch hgrouped m buffer batch (Turn.read.inj hevent)
      rw [(hwith _).1]
      exact hfooting _ hstep

/-- A turn of the loop that neither opens a session nor brings a message keeps what holds of a job.
The session may have changed, as long as the feed follows it where it goes on to read. -/
theorem Proceeds.quiet (h : job.Proceeds plugin bound alone) (hsound : w.Sound bound)
    (hkeeps : job.world.Keeps w) (hopened : event ≠ .opened (.ok ()))
    (hpolled : ∀ m, event ≠ .polled (.ok (some m)))
    (hfollows : ∀ loop, job.pipeline.loop.step job.context.feed
      (some job.pipeline.persister.durable) event = some loop → loop.control.Reads →
      ∀ b, Feed.Follows job.world.source job.context.feed b job.session →
        Feed.Follows w.source job.context.feed b session)
    (hturn : ({ job with session := session, world := w } : Job World).turn (.read event) =
      some job') : job'.Proceeds plugin bound alone := by
  refine h.read hsound hkeeps ?_ (fun _ m _ _ hevent => absurd hevent (hpolled m)) hturn
  intro loop hstep
  exact h.footing.moves (Loop.moves_of_step hstep) h.durable_le h.start_le hopened hpolled
    fun hreads => hfollows loop hstep hreads _

/-- A turn of the loop without an exchange keeps what holds of a job. -/
theorem Proceeds.stays (h : job.Proceeds plugin bound alone) (hopened : event ≠ .opened (.ok ()))
    (hpolled : ∀ m, event ≠ .polled (.ok (some m))) (hturn : job.turn (.read event) = some job') :
    job'.Proceeds plugin bound alone :=
  h.quiet h.regular.sound (.refl _) hopened hpolled (fun _ _ _ _ hfollows => hfollows) hturn

/-- A turn of the loop after which it does not read keeps what holds of a job. -/
theorem Proceeds.leaves (h : job.Proceeds plugin bound alone) (hsound : w.Sound bound)
    (hkeeps : job.world.Keeps w) (hopened : event ≠ .opened (.ok ()))
    (hpolled : ∀ m, event ≠ .polled (.ok (some m)))
    (hleaves : ∀ loop, job.pipeline.loop.step job.context.feed
      (some job.pipeline.persister.durable) event = some loop → ¬ loop.control.Reads)
    (hturn : ({ job with session := session, world := w } : Job World).turn (.read event) =
      some job') : job'.Proceeds plugin bound alone :=
  h.quiet hsound hkeeps hopened hpolled
    (fun loop hstep hreads => absurd hreads (hleaves loop hstep)) hturn

/-- A turn of a loop that has no session, or has done with it, keeps what holds of a job. -/
theorem Proceeds.outside (h : job.Proceeds plugin bound alone) (hsound : w.Sound bound)
    (hkeeps : job.world.Keeps w) (hopened : event ≠ .opened (.ok ()))
    (hpolled : ∀ m, event ≠ .polled (.ok (some m)))
    (hreads : ¬ job.pipeline.loop.control.Reads)
    (hpushing : ∀ records last confirmed,
      job.pipeline.loop.control ≠ .pushing records last confirmed)
    (hturn : ({ job with session := session, world := w } : Job World).turn (.read event) =
      some job') : job'.Proceeds plugin bound alone :=
  h.leaves hsound hkeeps hopened hpolled
    (fun _ hstep => (Loop.moves_of_step hstep).not_reads hopened hreads hpushing) hturn

/-- Opening a session keeps what holds of a job. -/
theorem Proceeds.turn_opened (h : job.Proceeds plugin bound alone) {resume : Position}
    (hopening : job.pipeline.loop.control = .opening resume) {s : Session}
    (hopen : Job.openSession World.surroundings job resume = (.ok s, w))
    (hturn : (job.afterExchange s w).turn (.read (.opened (.ok ()))) = some job') :
    job'.Proceeds plugin bound alone := by
  obtain ⟨hsound, hkeeps, hvalue⟩ :=
    open_session_facts h.regular.sound (h.footing.opens resume hopening) hopen
  obtain ⟨hlink, hempty, base, hslot⟩ := hvalue s rfl
  refine h.read hsound hkeeps ?_ (fun _ _ _ _ hevent => absurd hevent (by simp)) hturn
  intro loop hstep
  exact h.footing.opened hopening (Loop.moves_of_step hstep) hlink hempty hslot

/-- Failing to open a session keeps what holds of a job. -/
theorem Proceeds.turn_unopened (h : job.Proceeds plugin bound alone) {resume : Position}
    (hopening : job.pipeline.loop.control = .opening resume) {fault : SessionFault}
    (hopen : Job.openSession World.surroundings job resume = (.error fault, w))
    (hturn : ({ job with world := w } : Job World).turn (.read (.opened (.error fault))) =
      some job') : job'.Proceeds plugin bound alone := by
  obtain ⟨hsound, hkeeps, -⟩ :=
    open_session_facts h.regular.sound (h.footing.opens resume hopening) hopen
  exact h.outside hsound hkeeps (by simp) (by simp) (hopening ▸ id) (by simp [hopening]) hturn

/-- Confirming keeps what holds of a job, whether it succeeds or fails. -/
theorem Proceeds.turn_confirming (h : job.Proceeds plugin bound alone) {target : Position}
    (hconfirming : job.pipeline.loop.control = .confirming target) {s s' : Session}
    (hsession : job.session = some s) {result : Except SessionFault Unit}
    (hconfirm : s.confirm World.answer target job.world = (result, s', w))
    (hturn : (job.afterExchange s' w).turn (.read (.confirmed result)) = some job') :
    job'.Proceeds plugin bound alone := by
  have htarget := h.footing.confirms target hconfirming
  have hfollows := h.footing.follows (.inl (hconfirming ▸ trivial))
  rw [hsession] at hfollows
  obtain ⟨hsound, hkeeps, -⟩ :=
    World.confirm_followed h.regular.sound hfollows htarget hconfirm
  cases result with
  | ok _ =>
      refine h.quiet hsound hkeeps (by simp) (by simp) ?_ hturn
      intro loop hstep hreads b hfollows
      rw [hsession] at hfollows
      exact (World.confirm_followed h.regular.sound hfollows htarget hconfirm).2.2 rfl
  | error fault =>
      exact h.leaves hsound hkeeps (by simp) (by simp)
        (fun _ hstep => Loop.not_reads_of_fault hstep (.inl rfl)) hturn

/-- Polling keeps what holds of a job, whether it brings a message, finds nothing or fails. -/
theorem Proceeds.turn_polling (h : job.Proceeds plugin bound alone) {confirmed : Position}
    (hpolling : job.pipeline.loop.control = .polling confirmed) {s s' : Session}
    (hsession : job.session = some s) {result : Except SessionFault (Option Message)}
    (hpoll : s.poll World.answer job.world = (result, s', w))
    (hturn : (job.afterExchange s' w).turn (.read (.polled result)) = some job') :
    job'.Proceeds plugin bound alone := by
  have hfollows := h.footing.follows (.inl (hpolling ▸ trivial))
  rw [hsession] at hfollows
  obtain ⟨hsound, hkeeps, -, hmessage⟩ := World.poll_followed h.regular.sound hfollows hpoll
  rcases result with fault | _ | m
  · exact h.leaves hsound hkeeps (by simp) (by simp)
      (fun _ hstep => Loop.not_reads_of_fault hstep (.inr rfl)) hturn
  · refine h.quiet hsound hkeeps (by simp) (by simp) ?_ hturn
    intro loop hstep hreads b hfollows
    rw [hsession] at hfollows
    exact (World.poll_followed h.regular.sound hfollows hpoll).2.2.1 rfl
  · obtain ⟨base, slot, returned, held, hlink, hslot, hagrees, hmidway⟩ := hmessage m rfl
    have hframed : ∀ t ∈ w.source.committed,
        t.IsFramed job.context.feed.plugin ∧ t.HasRowsBefore :=
      h.plugin_eq ▸ (h.regular.keeps hsound hkeeps).framed
    refine h.read hsound hkeeps ?_ ?_ hturn
    · intro loop hstep
      exact Feed.Footing.polled hframed h.durable_le hpolling (Loop.moves_of_step hstep) hlink hslot
        hagrees hmidway
    · intro hgrouped n buffer batch hevent hreceive
      obtain rfl : m = n := by simpa using hevent
      exact (hmidway.receives hframed hagrees.returned_prefix hreceive).2 batch rfl hgrouped

/-- Learning how a push went keeps what holds of a job. -/
theorem Proceeds.learns (h : job.Proceeds plugin bound alone)
    (hturn : job.turn .learn = some job') : job'.Proceeds plugin bound alone := by
  obtain ⟨pipeline, htakes, rfl⟩ := takes_of_turn hturn
  cases htakes with
  | learns hlast hstep =>
      refine h.loop_turn h.regular.sound (.refl _) (.learns hlast hstep) rfl rfl ?_
        fun _ _ _ _ hevent => absurd hevent (by simp)
      exact h.footing.moves (Loop.moves_of_step hstep) h.durable_le h.start_le (by simp) (by simp)
        fun _ hfollows => hfollows

/-- Every turn of the read loop keeps what holds of a job. -/
theorem Proceeds.turn_loop (h : job.Proceeds plugin bound alone)
    (hturn : job.turnLoop World.surroundings = some job') : job'.Proceeds plugin bound alone := by
  cases loop_turn_of_turn hturn with
  | alone hopened hpolled hturn => exact h.stays hopened hpolled hturn
  | opens hopening hopen hturn => exact h.turn_opened hopening hopen hturn
  | unopened hopening hopen hturn => exact h.turn_unopened hopening hopen hturn
  | confirms hconfirming hsession hconfirm hturn =>
      exact h.turn_confirming hconfirming hsession hconfirm hturn
  | polls hpolling hsession hpoll hturn => exact h.turn_polling hpolling hsession hpoll hturn
  | learns hturn => exact h.learns hturn
  | closes hclosing hturn =>
      exact h.outside h.regular.sound (.refl _) (by simp) (by simp) (hclosing ▸ id)
        (by simp [hclosing]) hturn

/-! ## Turns of the applier and of the persister -/

/-- A turn of the applier keeps what holds of a job. -/
theorem Proceeds.applies (h : job.Proceeds plugin bound alone) {pending flushed : List String}
    (htakes : Pipeline.Takes job.context job.pipeline turn pipeline)
    (hloop : pipeline.loop = job.pipeline.loop)
    (hpersister : pipeline.persister = job.pipeline.persister)
    (hacknowledged : job.pipeline.applier.acknowledged ≤ pipeline.applier.acknowledged)
    (hturn : ∀ event, turn ≠ .read event) :
    Proceeds plugin bound alone { job with
      world := { job.world with pending := pending, flushed := flushed }
      pipeline := pipeline } where
  plugin_eq := h.plugin_eq
  regular := h.regular.alter rfl rfl
  start_le := h.start_le
  durable_le := hpersister ▸ h.durable_le
  owns halone := (h.owns halone).later rfl rfl hpersister hacknowledged
  footing := hloop ▸ h.footing
  carries hgrouped := by
    rcases h.carries hgrouped with hcarries | hspoiled
    · exact hcarries.step htakes fun m _ _ hevent => absurd hevent (hturn _)
    · exact .inr (hspoiled.step htakes)
  settles := h.settles.step htakes

/-- Every turn of the applier keeps what holds of a job. -/
theorem Proceeds.turn_applier (h : job.Proceeds plugin bound alone)
    (hturn : job.turnApplier World.surroundings = some job') :
    job'.Proceeds plugin bound alone := by
  have happlies {w : World} {turn : Turn}
      (hw : ∃ pending flushed, w = { job.world with pending := pending, flushed := flushed })
      (hkind : turn = .take ∨ (∃ result, turn = .wrote result) ∨ ∃ result, turn = .flushed result)
      (hturned : ({ job with world := w } : Job World).turn turn = some job') :
      job'.Proceeds plugin bound alone := by
    obtain ⟨pending, flushed, rfl⟩ := hw
    obtain ⟨pipeline, htakes, rfl⟩ := takes_of_turn hturned
    have hread (event : LoopEvent) : turn ≠ .read event := by
      rcases hkind with rfl | ⟨_, rfl⟩ | ⟨_, rfl⟩ <;> simp
    obtain ⟨hloop, hpersister, hacknowledged⟩ := htakes.applier_facts hkind
    exact h.applies htakes hloop hpersister hacknowledged hread
  cases applier_turn_of_turn hturn with
  | takes hturn => exact happlies ⟨_, _, rfl⟩ (.inl rfl) hturn
  | writes hcontrol hwrite hturn =>
      refine happlies ?_ (.inr (.inl ⟨_, rfl⟩)) hturn
      obtain ⟨-, rfl⟩ | ⟨fault, -, rfl⟩ := World.write_cases job.world _ hwrite
      · exact ⟨_, _, rfl⟩
      · exact ⟨_, _, rfl⟩
  | flushes hflush hturn =>
      refine happlies ?_ (.inr (.inr ⟨_, rfl⟩)) hturn
      obtain ⟨-, rfl⟩ | ⟨fault, -, rfl⟩ := World.flush_cases job.world hflush
      · exact ⟨_, _, rfl⟩
      · exact ⟨_, _, rfl⟩

/-- The store stays the job's own when its persister goes on: what is stored only grows. -/
theorem OwnsStore.persists (h : job.OwnsStore) {event : PersisterEvent}
    (hstores : job.Stores event w) {persister : Persister}
    (hdurable : persister.durable = job.pipeline.persister.durable ∨
      event = .saved (.ok ()) ∧
        Persister.IsTarget job.pipeline.persister.control persister.durable)
    (htargets : ∀ target, Persister.IsTarget persister.control target →
      target = job.pipeline.applier.acknowledged) :
    OwnsStore { job with
      world := w, pipeline := { job.pipeline with persister := persister } } := by
  obtain ⟨hle, hacknowledged⟩ : job.world.checkpoint ≤ w.checkpoint ∧
      w.checkpoint ≤ job.pipeline.applier.acknowledged := by
    rcases hstores.world_eq with rfl | ⟨target, htarget, rfl⟩
    · exact ⟨le_refl _, h.stored_le⟩
    · exact h.targets target htarget
  refine ⟨h.start_le.trans hle, ?_, hacknowledged, fun target htarget => ?_⟩
  · rcases hdurable with heq | ⟨hevent, htarget⟩
    · exact heq.trans_le (h.durable_le.trans hle)
    · rw [hstores.saved _ hevent htarget]
      exact le_refl _
  · rw [htargets target htarget]
    exact ⟨hacknowledged, le_refl _⟩

/-- A persister that goes on keeps what holds of a job, with what it takes for durable within the
new bound. -/
theorem Proceeds.persists (h : job.Proceeds plugin bound alone) {event : PersisterEvent}
    (hstores : job.Stores event w)
    (hturn : ({ job with world := w } : Job World).turn (.persist event) = some job') :
    ∃ bound', job'.Proceeds plugin bound' alone := by
  obtain ⟨pipeline, htakes, rfl⟩ := takes_of_turn hturn
  cases htakes with
  | @persists _ persister hpersister =>
      obtain ⟨hdurable, htargets⟩ := Persister.step_facts hpersister
      obtain ⟨hsource, hhanded⟩ :
          w.source = job.world.source ∧ w.handed = job.world.handed := by
        rcases hstores.world_eq with rfl | ⟨target, -, rfl⟩
        · exact ⟨rfl, rfl⟩
        · exact ⟨rfl, rfl⟩
      have hle : bound ≤ max bound persister.durable := le_max_left _ _
      exact ⟨max bound persister.durable, {
        plugin_eq := h.plugin_eq
        regular := (h.regular.mono hle).alter hsource hhanded
        start_le := h.start_le.trans hle
        durable_le := le_max_right _ _
        owns := fun halone => (h.owns halone).persists hstores hdurable htargets
        footing := hsource ▸ h.footing.still hle fun _ => id
        carries := fun hgrouped => by
          rcases h.carries hgrouped with hcarries | hspoiled
          · exact hcarries.step (.persists hpersister) (by simp)
          · exact .inr (hspoiled.step (.persists hpersister))
        settles := h.settles.step (.persists hpersister) }⟩

/-- Every turn of the persister keeps what holds of a job. -/
theorem Proceeds.turn_persister (h : job.Proceeds plugin bound alone) {isDue : Bool}
    (hturn : job.turnPersister World.surroundings isDue = some job') :
    ∃ bound', job'.Proceeds plugin bound' alone := by
  obtain ⟨event, w, hstores, hturned⟩ := exists_stores hturn
  exact h.persists hstores hturned

/-! ## What happens around a job -/

/-- A request to stop, or the order to the persister to end, keeps what holds of a job. -/
theorem Proceeds.asks (h : job.Proceeds plugin bound alone) (hkind : turn = .stop ∨ turn = .wrapUp)
    (hturn : job.turn turn = some job') : job'.Proceeds plugin bound alone := by
  obtain ⟨pipeline, htakes, rfl⟩ := takes_of_turn hturn
  have hcarries (hgrouped : job.context.feed.settings.grouped = true) :
      pipeline.Carries job.context.feed.start ∨ pipeline.Spoiled := by
    rcases h.carries hgrouped with hcarries | hspoiled
    · refine hcarries.step htakes fun m _ _ hevent => ?_
      rcases hkind with rfl | rfl <;> exact absurd hevent (by simp)
    · exact .inr (hspoiled.step htakes)
  have hsettles := h.settles.step htakes
  cases htakes with
  | stops =>
      have hfooting := h.footing
      exact ⟨h.plugin_eq, h.regular, h.start_le, h.durable_le,
        fun halone => (h.owns halone).later rfl rfl rfl (le_refl _),
        ⟨hfooting.waits, hfooting.opens, hfooting.confirms, hfooting.follows, hfooting.closes⟩,
        hcarries, hsettles⟩
  | wrapsUp =>
      exact ⟨h.plugin_eq, h.regular, h.start_le, h.durable_le,
        fun halone => (h.owns halone).later rfl rfl rfl (le_refl _), h.footing, hcarries, hsettles⟩
  | _ => simp at hkind

/-- What holds of a job is kept while something else happens to its world. What is stored does not
change if the job is alone. -/
theorem Proceeds.alter (h : job.Proceeds plugin bound alone) (hregular : w.IsRegular plugin bound)
    (hstored : alone → w.checkpoint = job.world.checkpoint)
    (hfollows : ∀ b, Feed.Follows job.world.source job.context.feed b job.session →
      Feed.Follows w.source job.context.feed b job.session) :
    ({ job with world := w } : Job World).Proceeds plugin bound alone where
  plugin_eq := h.plugin_eq
  regular := hregular
  start_le := h.start_le
  durable_le := h.durable_le
  owns halone := (h.owns halone).later rfl (hstored halone) rfl (le_refl _)
  footing := h.footing.still (le_refl _) hfollows
  carries := h.carries
  settles := h.settles

/-- Noting the position of a session keeps what holds of a job. -/
theorem Proceeds.noted (h : job.Proceeds plugin bound alone) :
    job.noted.Proceeds plugin bound alone := by
  unfold Job.noted
  split
  · rename_i resume hcontrol
    refine h.alter ⟨h.regular.framed, ?_⟩ (fun _ => rfl) fun _ => id
    exact h.regular.sound.hand_over (h.footing.opens resume hcontrol)
  · exact h

/-- What holds of a job that has started in a regular world. -/
theorem IsFresh.proceeds {settings : JobSettings} (h : job.IsFresh settings w)
    (hregular : job.world.IsRegular settings.plugin bound)
    (hcheckpoint : job.world.checkpoint = w.checkpoint) (alone : Prop) :
    job.Proceeds settings.plugin (max bound job.world.checkpoint) alone := by
  obtain ⟨capacity, hpipeline⟩ := h.pipeline_eq
  have hstart : job.context.feed.start = job.world.checkpoint := by rw [hcheckpoint, h.start_eq]
  have hle : job.context.feed.start ≤ max bound job.world.checkpoint := hstart ▸ le_max_right _ _
  refine {
    plugin_eq := h.plugin_eq
    regular := hregular.mono (le_max_left _ _)
    start_le := hle
    durable_le := ?_
    owns := fun _ => ⟨hstart.le, ?_, ?_, ?_⟩
    footing := ?_
    carries := fun _ => .inl ?_
    settles := ?_ } <;> rw [hpipeline]
  · exact hle
  · exact hstart.le
  · exact hstart.ge
  · exact fun target htarget => htarget.elim nofun nofun
  · exact Feed.footing_loop _ _ _ _
  · exact Pipeline.carries_pipeline _ capacity
  · exact Pipeline.settles_pipeline _ _

/-! ## A job that has ended -/

/-- A job that has ended well in grouped mode, alone with its store, has stored the position that it
reports, unless that is where it started. -/
theorem Proceeds.ended (h : job.Proceeds plugin bound alone) (halone : alone)
    (hgrouped : job.context.feed.settings.grouped = true) {p : Position}
    (hresult : job.result? = some (.ok p)) :
    p = job.pipeline.applier.acknowledged ∧ job.world.checkpoint = p ∧
      (p ≠ job.context.feed.start → job.world.stored = some p) := by
  obtain ⟨hacknowledged, hdurable⟩ :=
    Pipeline.ends_at_acknowledged (h.carries hgrouped) h.settles hresult
  have howns := h.owns halone
  have hcheckpoint : job.world.checkpoint = p :=
    (howns.stored_le.trans hacknowledged.ge).antisymm
      (hacknowledged.le.trans (hdurable.trans howns.durable_le))
  refine ⟨hacknowledged, hcheckpoint, fun hne => ?_⟩
  cases hstored : job.world.stored with
  | some q => exact congrArg some (by simpa [World.checkpoint, hstored] using hcheckpoint)
  | none =>
      -- A job with nothing stored has started at the very beginning, which nothing is before.
      have hzero : job.world.checkpoint = .zero := by simp [World.checkpoint, hstored]
      have hstart := (hzero ▸ howns.start_le).antisymm (Position.zero_le _)
      exact absurd (hcheckpoint.symm.trans (hzero.trans hstart.symm)) hne

/-- A job whose persister has ended stores nothing any more. -/
theorem turn_persister_eq_none {σ : Type} {s : Surroundings σ} {job : Job σ}
    (h : job.pipeline.persister.outcome?.isSome) (isDue : Bool) :
    job.turnPersister s isDue = none := by
  unfold turnPersister
  unfold Persister.outcome? at h
  split <;> rename_i hcontrol <;> simp [hcontrol] at h ⊢

/-- A job that has ended well has no persister any more. -/
theorem outcome_of_result {job : Job World} {p : Position} (h : job.result? = some (.ok p)) :
    job.pipeline.persister.outcome?.isSome := by
  obtain ⟨-, -, hpersister⟩ := Pipeline.result_ok h
  simp [Persister.outcome?, hpersister]

end Job

namespace Process

variable {plugin : Plugin} {bound : Position} {alone : Prop} {process : Process}

/-- What holds of a process at every moment for a bound of what is handed to the server. -/
def Proceeds (plugin : Plugin) (bound : Position) (alone : Prop) : Process → Prop
  | .idle world => world.IsRegular plugin bound
  | .running job => job.Proceeds plugin bound alone

/-- The world of a process is regular at every moment. -/
theorem Proceeds.regular (h : process.Proceeds plugin bound alone) :
    process.world.IsRegular plugin bound := by
  cases process with
  | idle w => exact h
  | running job => exact Job.Proceeds.regular h

/-- What holds of a process is kept while something happens around it. What is stored does not
change if its job is alone. -/
theorem Proceeds.alter (h : process.Proceeds plugin bound alone) {change : World → World}
    (hregular : (change process.world).IsRegular plugin bound)
    (hstored : alone → (change process.world).checkpoint = process.world.checkpoint)
    (hfollows : ∀ c b session, Feed.Follows process.world.source c b session →
      Feed.Follows (change process.world).source c b session) :
    (process.alter change).Proceeds plugin bound alone := by
  cases process with
  | idle w => exact hregular
  | running job => exact Job.Proceeds.alter h hregular hstored fun b => hfollows _ b _

end Process

namespace Deployment

variable {plugin : Plugin} {bound : Position} {alone : Prop} {d : Deployment}

/-- The run ends. -/
def Move.Ends : Move → Prop
  | .finish => True
  | .exit => True
  | _ => False

/-- No persister is left behind that may still save. -/
def NoneLingers (d : Deployment) : Prop :=
  ∀ job ∈ d.left, job.pipeline.persister.outcome?.isSome

/-- No run is under way, and no persister is left behind that may still save. -/
structure IsQuiet (d : Deployment) : Prop where
  idle : ∃ w, d.process = .idle w
  left : d.NoneLingers

/-- What holds of a deployment at every moment. No persister that was left behind may still save if
its job is to be alone with the store. -/
structure Proceeds (plugin : Plugin) (alone : Prop) (d : Deployment) : Prop where
  process : ∃ bound, d.process.Proceeds plugin bound alone
  left : alone → d.NoneLingers

/-- A turn that keeps what holds of a job keeps what holds of a deployment. -/
theorem Proceeds.go (h : d.Proceeds plugin alone) {turn : Job World → Option (Job World)}
    (hturn : ∀ bound job job', job.Proceeds plugin bound alone → turn job = some job' →
      ∃ bound', job'.Proceeds plugin bound' alone) :
    (d.become (d.process.go turn)).Proceeds plugin alone := by
  obtain ⟨bound, hprocess⟩ := h.process
  rcases d.process.go_cases turn with hsame | ⟨job, job', hrunning, hjob, hgoes⟩
  · rw [hsame]
    exact h
  · rw [hrunning] at hprocess
    rw [hgoes]
    exact ⟨hturn bound job job' hprocess hjob, h.left⟩

/-- Launching a run keeps what holds of a deployment. -/
theorem Proceeds.launch (h : d.Proceeds plugin alone) {w : World} (hidle : d.process = .idle w)
    {settings : JobSettings} (hplugin : settings.plugin = plugin) :
    (d.launch settings w).Proceeds plugin alone := by
  subst hplugin
  obtain ⟨bound, hregular⟩ := h.process
  rw [hidle] at hregular
  have hpending : ({ w with pending := [] } : World).IsRegular settings.plugin bound :=
    World.IsRegular.alter hregular rfl rfl
  rcases launch_cases (World.IsRegular.sound hregular) d settings with
    ⟨job, hlaunch, hfresh, hsound, hkeeps⟩ | ⟨w', hlaunch, hsound, hkeeps⟩
  · rw [hlaunch]
    have hworld := hpending.keeps hsound hkeeps
    exact ⟨⟨_, hfresh.proceeds hworld hkeeps.checkpoint_eq alone⟩, h.left⟩
  · rw [hlaunch]
    exact ⟨⟨bound, hpending.keeps hsound hkeeps⟩, h.left⟩

/-- A persister that has ended before its turn changes nothing. -/
theorem linger_of_ended (h : d.NoneLingers) (index : Nat) (isDue : Bool) :
    d.linger index isDue = d := by
  rcases d.linger_cases index isDue with hsame | ⟨job, job', hjob, hturn, -⟩
  · exact hsame
  · have hended : ({ job with world := d.world } : Job World).pipeline.persister.outcome?.isSome :=
      h job hjob
    exact absurd ((Job.turn_persister_eq_none hended isDue).symm.trans hturn) nofun

/-- A persister that was left behind keeps what holds of a deployment. -/
theorem Proceeds.linger (h : d.Proceeds plugin alone) (index : Nat) (isDue : Bool) :
    (d.linger index isDue).Proceeds plugin alone := by
  by_cases halone : alone
  · rw [linger_of_ended (h.left halone)]
    exact h
  · rcases d.linger_cases index isDue with hsame | ⟨job, job', -, hturn, hlinger⟩
    · rw [hsame]
      exact h
    · obtain ⟨event, w, hstores, hturned⟩ := Job.exists_stores hturn
      obtain ⟨pipeline, -, rfl⟩ := Job.takes_of_turn hturned
      obtain ⟨hsource, hhanded⟩ : w.source = d.world.source ∧ w.handed = d.world.handed := by
        rcases hstores.world_eq with rfl | ⟨target, -, rfl⟩ <;> exact ⟨rfl, rfl⟩
      obtain ⟨bound, hprocess⟩ := h.process
      rw [hlinger]
      refine ⟨⟨bound, hprocess.alter (hprocess.regular.alter hsource hhanded) ?_ ?_⟩, ?_⟩
      · exact fun h => absurd h halone
      · exact fun c b session hfollows => hsource ▸ hfollows
      · exact fun h => absurd h halone

/-- Every move that fits keeps what holds of a deployment, if it does not end a run that is to be
alone with its store. -/
theorem Proceeds.step (h : d.Proceeds plugin alone) {move : Move} (hmove : move.Fits plugin)
    (hends : alone → ¬ move.Ends) : (d.step move).Proceeds plugin alone := by
  obtain ⟨bound, hprocess⟩ := h.process
  cases move with
  | launch settings =>
      rw [Deployment.step]
      split
      · rename_i w hidle
        exact h.launch hidle hmove
      · exact h
  | loop => exact h.go fun _ job job' hjob hturn => ⟨_, hjob.noted.turn_loop hturn⟩
  | applier => exact h.go fun _ job job' hjob hturn => ⟨_, hjob.turn_applier hturn⟩
  | persister isDue => exact h.go fun _ job job' hjob hturn => hjob.turn_persister hturn
  | stop => exact h.go fun _ job job' hjob hturn => ⟨_, hjob.asks (.inl rfl) hturn⟩
  | wrapUp => exact h.go fun _ job job' hjob hturn => ⟨_, hjob.asks (.inr rfl) hturn⟩
  | finish =>
      rw [Deployment.step]
      rcases d.finish_cases with hsame | ⟨job, hrunning, -, hfinish⟩
      · rw [hsame]
        exact h
      · rw [hrunning] at hprocess
        rw [hfinish]
        exact ⟨⟨bound, Job.Proceeds.regular hprocess⟩, fun halone => (hends halone trivial).elim⟩
  | exit => exact ⟨⟨bound, hprocess.regular⟩, fun halone => (hends halone trivial).elim⟩
  | linger index isDue => exact h.linger index isDue
  | commit t =>
      refine ⟨⟨bound, hprocess.alter (hprocess.regular.commit hmove) (fun _ => rfl) ?_⟩, h.left⟩
      exact fun c b session hfollows => hfollows.commit t
  | weather weather =>
      refine ⟨⟨bound, hprocess.alter ?_ (fun _ => rfl) fun _ _ _ => id⟩, h.left⟩
      exact hprocess.regular.alter rfl rfl

/-- Every run of a deployment keeps what holds of it. -/
theorem Proceeds.run (h : d.Proceeds plugin alone) {moves : List Move}
    (hmoves : ∀ move ∈ moves, move.Fits plugin) (hends : alone → ∀ move ∈ moves, ¬ move.Ends) :
    (d.run moves).Proceeds plugin alone := by
  induction moves generalizing d with
  | nil => exact h
  | cons move rest ih =>
      obtain ⟨hmove, hrest⟩ := List.forall_mem_cons.mp hmoves
      refine ih (h.step hmove fun halone => ?_) hrest fun halone => ?_
      · exact hends halone move List.mem_cons_self
      · exact fun other hmem => hends halone other (List.mem_cons_of_mem _ hmem)

/-- Nothing goes on when the process has ended. -/
theorem quiet_exit (d : Deployment) : (d.step .exit).IsQuiet :=
  ⟨⟨_, rfl⟩, fun _ hmem => absurd hmem List.not_mem_nil⟩

/-- A run that has ended well leaves a quiet deployment. -/
theorem Proceeds.quiet (h : d.Proceeds plugin True) {job : Job World}
    (hrunning : d.process = .running job) {p : Position} (hresult : job.result? = some (.ok p))
    {ending : Move} (hends : ending.Ends) :
    (d.step ending).IsQuiet ∧ (d.step ending).world = job.world := by
  cases ending with
  | exit => exact ⟨quiet_exit d, congrArg Process.world hrunning⟩
  | finish =>
      have hstep : d.step .finish = ⟨d.runs, .idle job.world, d.left ++ [job]⟩ := by
        rw [Deployment.step, Deployment.finish, hrunning]
        simp [hresult]
      rw [hstep]
      refine ⟨⟨⟨_, rfl⟩, fun ended hended => ?_⟩, rfl⟩
      rcases List.mem_append.mp hended with hended | hended
      · exact h.left trivial ended hended
      · exact List.mem_singleton.mp hended ▸ Job.outcome_of_result hresult
  | _ => exact hends.elim

end Deployment

end ChangeFeed
