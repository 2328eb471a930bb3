import ChangeFeed.Proofs.Feed.Resumption
import ChangeFeed.Proofs.Job.Rules

/-!
# A job that runs

What holds of a job at every moment of a run, and why each turn of its parts keeps it. Everything
up to an extent was delivered before the run, and nothing beyond a bound is handed to the server;
the bound grows with what the job saves. The feed is on track, the applier's accounts are in order,
and the persister saves nothing that is not acknowledged (`Job.Remembers`). Read `Job.OnCourse`
first, then the lemmas about the turns of the three parts: `OnCourse.turn_loop`,
`OnCourse.turn_applier` and `OnCourse.turn_persister`. A persister that an earlier run has left
behind may save as well (`OnCourse.lingers`).
-/

namespace ChangeFeed

open LoggedTransaction

/-! ## What holds of the world -/

/-- The transactions of a world are framed and have their rows before the commit, and it is sound
with a bound. -/
structure World.IsRegular (plugin : Plugin) (bound : Position) (w : World) : Prop where
  framed : ∀ t ∈ w.source.committed, t.IsFramed plugin ∧ t.HasRowsBefore
  sound : w.Sound bound

/-- What holds of the world between two runs: everything up to an extent was delivered, and neither
the bound nor what is stored is beyond it. The world is steady if what is stored was never set back
behind the bound. -/
structure World.Covered (plugin : Plugin) (runs : List FeedContext) (extent bound : Position)
    (steady : Prop) (w : World) : Prop where
  regular : w.IsRegular plugin bound
  given : w.source.UpTo (IsDelivered runs w.flushed) extent
  bound_le : bound ≤ extent
  stored_le : w.checkpoint ≤ extent
  steady_le : steady → bound ≤ w.checkpoint

namespace World

variable {plugin : Plugin} {runs : List FeedContext} {extent bound : Position} {steady : Prop}
  {w w' : World}

/-- A world stays regular while only its server is asked. -/
theorem IsRegular.keeps (h : w.IsRegular plugin bound) (hsound : w'.Sound bound)
    (hkeeps : w.Keeps w') : w'.IsRegular plugin bound :=
  ⟨hkeeps.log.1 ▸ h.framed, hsound⟩

/-- A world stays regular whatever becomes of its weather, its store and its output. -/
theorem IsRegular.alter (h : w.IsRegular plugin bound) (hsource : w'.source = w.source)
    (hhanded : w'.handed = w.handed) : w'.IsRegular plugin bound :=
  ⟨hsource ▸ h.framed, h.sound.alter hsource hhanded⟩

/-- A world stays regular when a transaction commits whose rows are before its commit. -/
theorem IsRegular.commit (h : w.IsRegular plugin bound) {t : LoggedTransaction}
    (ht : t.IsFramed plugin ∧ t.HasRowsBefore) :
    ({ w with source := w.source.commit t } : World).IsRegular plugin bound where
  framed := SlotServer.forall_commit h.framed ht
  sound := h.sound.commit t

/-- A regular world is regular with a later bound. -/
theorem IsRegular.mono (h : w.IsRegular plugin bound) {bound' : Position} (hle : bound ≤ bound') :
    w.IsRegular plugin bound' :=
  ⟨h.framed, h.sound.mono hle⟩

/-- A covered world stays so while only its server is asked. -/
theorem Covered.keeps (h : w.Covered plugin runs extent bound steady) (hsound : w'.Sound bound)
    (hkeeps : w.Keeps w') : w'.Covered plugin runs extent bound steady where
  regular := h.regular.keeps hsound hkeeps
  given := by
    rw [hkeeps.flushed_eq]
    exact h.given.same_log hkeeps.log
  bound_le := h.bound_le
  stored_le := hkeeps.checkpoint_eq ▸ h.stored_le
  steady_le := hkeeps.checkpoint_eq ▸ h.steady_le

/-- A covered world stays so when another transaction commits whose rows are before its commit. -/
theorem Covered.commit (h : w.Covered plugin runs extent bound steady) {t : LoggedTransaction}
    (ht : t.IsFramed plugin ∧ t.HasRowsBefore) :
    ({ w with source := w.source.commit t } : World).Covered plugin runs extent bound steady where
  regular := h.regular.commit ht
  given := h.given.commit t
  bound_le := h.bound_le
  stored_le := h.stored_le
  steady_le := h.steady_le

/-- A covered world stays so when its weather or its output changes. -/
theorem Covered.alter (h : w.Covered plugin runs extent bound steady) (weather : Weather)
    (pending : List String) :
    ({ w with weather := weather, pending := pending } : World).Covered plugin runs extent bound
      steady where
  regular := h.regular.alter rfl rfl
  given := h.given
  bound_le := h.bound_le
  stored_le := h.stored_le
  steady_le := h.steady_le

/-- A covered world stays so when there are more runs. -/
theorem Covered.more_runs (h : w.Covered plugin runs extent bound steady)
    {runs' : List FeedContext} (hruns : runs ⊆ runs') :
    w.Covered plugin runs' extent bound steady where
  regular := h.regular
  given := h.given.imp fun _ ht => ht.later hruns (List.Sublist.refl _)
  bound_le := h.bound_le
  stored_le := h.stored_le
  steady_le := h.steady_le

/-- A covered world stays so when a position is stored up to which everything was delivered. It
stays steady unless that sets the stored position back. -/
theorem Covered.stores (h : w.Covered plugin runs extent bound steady) {p : Position}
    (hp : p ≤ extent) (hback : steady → w.checkpoint ≤ p) :
    (w.store p).Covered plugin runs extent bound steady where
  regular := h.regular.alter rfl rfl
  given := h.given
  bound_le := h.bound_le
  stored_le := hp
  steady_le hsteady := (h.steady_le hsteady).trans (hback hsteady)

/-! ## What a feed gets out of its session -/

section Attending

variable {c : FeedContext} {delivered : LoggedTransaction → Prop} {trail : List Happening}
  {b : TransactionBuffer} {s s' : Session}

/-- Polling the session of a feed keeps its world sound, and the feed attends the session if there
was nothing to return. -/
theorem poll_attended (hsound : w.Sound bound)
    (hattends : Feed.Attends w.source c delivered trail b (some s))
    {result : Except SessionFault (Option Message)}
    (hpoll : s.poll answer w = (result, s', w')) :
    w'.Sound bound ∧ w.Keeps w' ∧
      (result = .ok none → Feed.Attends w'.source c delivered trail b (some s')) := by
  obtain ⟨_, base, slot, held, hsome, hlink, hslot, hagrees, habreast⟩ := hattends
  obtain rfl := Option.some.inj hsome
  obtain ⟨hsound', hkeeps, hpolled⟩ := poll_facts hsound hlink hslot hagrees hpoll
  refine ⟨hsound', hkeeps, ?_⟩
  intro hnothing
  obtain ⟨hlink', hslot', held', hagrees'⟩ := hpolled none hnothing
  rw [Option.toList_none, List.append_nil] at hagrees'
  exact ⟨s', base, slot, held', rfl, hlink', hslot', hagrees', habreast.same_log hkeeps.log⟩

/-- Confirming to the session of a feed keeps its world sound, and the feed attends the session if
that succeeds. -/
theorem confirm_attended (hsound : w.Sound bound)
    (hattends : Feed.Attends w.source c delivered trail b (some s)) {target : Position}
    (htarget : target ≤ bound) {result : Except SessionFault Unit}
    (hconfirm : s.confirm answer target w = (result, s', w')) :
    w'.Sound bound ∧ w.Keeps w' ∧
      (result = .ok () → Feed.Attends w'.source c delivered trail b (some s')) := by
  obtain ⟨_, base, slot, held, hsome, hlink, hslot, hagrees, habreast⟩ := hattends
  obtain rfl := Option.some.inj hsome
  obtain ⟨hsound', hkeeps, hconfirmed⟩ :=
    confirm_facts hsound hlink hslot hagrees htarget hconfirm
  refine ⟨hsound', hkeeps, ?_⟩
  intro hok
  obtain ⟨hlink', slot', held', hslot', hagrees'⟩ := hconfirmed hok
  exact ⟨s', base, slot', held', rfl, hlink', hslot', hagrees', habreast.same_log hkeeps.log⟩

end Attending

end World

/-! ## What holds of a job -/

namespace Job

/-- The feed of a job, with a trail. -/
def feed (job : Job World) (trail : List Happening) : Feed :=
  ⟨job.pipeline.loop, job.pipeline.channel, some job.pipeline.persister.durable, trail⟩

/-- How the positions of a job stand to each other: the bound and what is stored were delivered
before the run or are acknowledged, and so is what the persister is about to save. In a steady
world the bound is not beyond any of them. -/
structure Ordered (extent bound : Position) (steady : Prop) (job : Job World) : Prop where
  bound_le : bound ≤ max extent job.pipeline.applier.acknowledged
  stored_le : job.world.checkpoint ≤ max extent job.pipeline.applier.acknowledged
  targets : ∀ target, Persister.IsTarget job.pipeline.persister.control target →
    target ≤ job.pipeline.applier.acknowledged
  ahead : steady → bound ≤ job.world.checkpoint ∧ bound ≤ job.pipeline.applier.acknowledged ∧
    ∀ target, Persister.IsTarget job.pipeline.persister.control target → bound ≤ target

/-- What holds of a job with the trail of its feed, the lines that were flushed before it started,
and the records that its applier has kept and that wait. -/
structure Remembers (runs : List FeedContext) (extent bound : Position) (steady : Prop)
    (trail : List Happening) (old : List String) (kept waiting : List Record)
    (job : Job World) : Prop where
  old_flushed : old.Sublist job.world.flushed
  old_given : job.world.source.UpTo (IsDelivered runs old) extent
  track : Feed.OnTrack job.world.source job.context.feed (IsDelivered runs old) bound
    (job.feed trail) job.session
  accounts : job.pipeline.applier.Accounts job.context.feed.start trail job.world.pending
    job.world.flushed kept waiting
  ordered : job.Ordered extent bound steady

/-- What holds of a job at every moment of its run. -/
structure OnCourse (plugin : Plugin) (runs : List FeedContext) (extent bound : Position)
    (steady : Prop) (job : Job World) : Prop where
  plugin_eq : job.context.feed.plugin = plugin
  in_runs : job.context.feed ∈ runs
  regular : job.world.IsRegular plugin bound
  history : ∃ trail old kept waiting, job.Remembers runs extent bound steady trail old kept waiting

variable {plugin : Plugin} {runs : List FeedContext} {extent bound : Position} {steady : Prop}
  {job job' : Job World} {w : World} {session : Option Session} {event : LoopEvent} {loop : Loop}

/-- The positions of a job stay in order while only more is acknowledged. -/
theorem Ordered.later (h : job.Ordered extent bound steady)
    (hcheckpoint : job'.world.checkpoint = job.world.checkpoint)
    (hpersister : job'.pipeline.persister = job.pipeline.persister)
    (hacknowledged : job.pipeline.applier.acknowledged ≤ job'.pipeline.applier.acknowledged) :
    job'.Ordered extent bound steady where
  bound_le := h.bound_le.trans (max_le_max_left _ hacknowledged)
  stored_le := hcheckpoint ▸ h.stored_le.trans (max_le_max_left _ hacknowledged)
  targets target ht := (h.targets target (hpersister ▸ ht)).trans hacknowledged
  ahead hsteady := by
    obtain ⟨hstored, hbound, htargets⟩ := h.ahead hsteady
    rw [hcheckpoint, hpersister]
    exact ⟨hstored, hbound.trans hacknowledged, htargets⟩

section Delivered

variable {trail : List Happening} {old : List String} {kept waiting : List Record}

/-- Everything up to the position that the applier acknowledges is among the records that are kept,
or was delivered before. -/
theorem Remembers.kept_up_to (h : job.Remembers runs extent bound steady trail old kept waiting) :
    job.world.source.UpTo (IsGiven job.context.feed (IsDelivered runs old) kept)
      job.pipeline.applier.acknowledged :=
  h.accounts.kept_up_to h.track.in_order h.track.start_given

/-- Everything that was delivered before or is acknowledged is among the records that are pushed, or
was delivered before. -/
theorem Remembers.pushed_up_to (h : job.Remembers runs extent bound steady trail old kept waiting) :
    job.world.source.UpTo (IsGiven job.context.feed (IsDelivered runs old) (Trail.pushed trail))
      (max extent job.pipeline.applier.acknowledged) :=
  (h.old_given.imp fun _ ht => .inl ht).to_max
    (h.kept_up_to.imp fun _ ht => ht.sublist h.accounts.kept_prefix.sublist)

/-- Everything that was delivered before or is acknowledged is delivered. -/
theorem Remembers.delivered_up_to
    (h : job.Remembers runs extent bound steady trail old kept waiting)
    (hrun : job.context.feed ∈ runs) :
    job.world.source.UpTo (IsDelivered runs job.world.flushed)
      (max extent job.pipeline.applier.acknowledged) :=
  (h.old_given.imp fun _ ht => ht.later (List.Subset.refl _) h.old_flushed).to_max
    (h.kept_up_to.imp fun _ ht => h.accounts.delivered_of_given hrun h.old_flushed ht)

end Delivered

/-! ## Turns of the read loop -/

/-- The channel of a pipeline when the loop comes to a control point. -/
theorem with_loop_eq (job : Job World) (trail : List Happening) (loop : Loop) :
    job.pipeline.withLoop loop = { job.pipeline with
      loop := loop, channel := (job.feed trail).channelAt loop.control } := by
  obtain ⟨position, failures, buffer, lifecycle, stopAsked, control⟩ := loop
  cases control <;> rfl

/-- A turn of the loop that the world answers. -/
theorem turn_read (h : job.turn (.read event) = some job') :
    (∀ taken, event ≠ .pushed taken) ∧ ∃ loop,
      job.pipeline.loop.step job.context.feed (some job.pipeline.persister.durable) event =
        some loop ∧ job' = { job with pipeline := job.pipeline.withLoop loop } := by
  obtain ⟨pipeline, htakes, rfl⟩ := takes_of_turn h
  cases htakes with
  | reads hpushed hstep => exact ⟨hpushed, _, hstep, rfl⟩

/-- A turn of the loop keeps a job on course if it keeps the feed on track. -/
theorem OnCourse.read (h : job.OnCourse plugin runs extent bound steady) (event : LoopEvent)
    (session : Option Session) (hsound : w.Sound bound) (hkeeps : job.world.Keeps w)
    (htrack : ∀ trail old kept waiting,
      job.Remembers runs extent bound steady trail old kept waiting →
      Feed.OnTrack w.source job.context.feed (IsDelivered runs old) bound
        ((job.feed trail).advance event loop) session) :
    ({ job with session := session, world := w, pipeline := job.pipeline.withLoop loop } :
      Job World).OnCourse plugin runs extent bound steady := by
  obtain ⟨trail, old, kept, waiting, hhistory⟩ := h.history
  refine ⟨h.plugin_eq, h.in_runs, h.regular.keeps hsound hkeeps,
    trail ++ (job.feed trail).news event loop, old, kept, waiting, ?_⟩
  rw [with_loop_eq job trail loop]
  refine {
    old_flushed := hkeeps.flushed_eq ▸ hhistory.old_flushed
    old_given := hhistory.old_given.same_log hkeeps.log
    track := htrack trail old kept waiting hhistory
    accounts := ?_
    ordered := hhistory.ordered.later hkeeps.checkpoint_eq rfl (le_refl _) }
  have haccounts := hhistory.accounts.goes_on (trail ++ (job.feed trail).news event loop)
    (by rw [Trail.pushed_append]; exact List.prefix_append _ _)
    (by rw [Trail.taken_append, Feed.taken_news, List.append_nil])
  simpa only [hkeeps.pending_eq, hkeeps.flushed_eq] using haccounts

/-- A turn of the loop that neither opens a session nor brings a message keeps a job on course. The
session may have changed, as long as the feed attends it where it goes on to read. -/
theorem OnCourse.quiet (h : job.OnCourse plugin runs extent bound steady) (hsound : w.Sound bound)
    (hkeeps : job.world.Keeps w) (hopened : event ≠ .opened (.ok ()))
    (hpolled : ∀ m, event ≠ .polled (.ok (some m)))
    (hattends : ∀ loop, job.pipeline.loop.step job.context.feed
      (some job.pipeline.persister.durable) event = some loop → loop.control.Reads →
      ∀ delivered trail b, Feed.Attends job.world.source job.context.feed delivered trail b
        job.session → Feed.Attends w.source job.context.feed delivered trail b session)
    (hturn : ({ job with session := session, world := w } : Job World).turn (.read event) =
      some job') : job'.OnCourse plugin runs extent bound steady := by
  obtain ⟨hpushed, loop, hstep, rfl⟩ := turn_read hturn
  refine h.read event session hsound hkeeps ?_
  intro trail old kept waiting hhistory
  have htrack := hhistory.track
  have hmoves : (job.feed trail).loop.Moves job.context.feed (job.feed trail).durable event loop :=
    Loop.moves_of_step hstep
  refine htrack.moves hkeeps.log hmoves (fun taken heq => absurd heq (hpushed taken)) hopened
    hpolled ?_
  intro hreads
  exact hattends loop hstep hreads _ _ _ (htrack.attends_of_moves hmoves hopened hreads)

/-- A turn of the loop without an exchange keeps a job on course. -/
theorem OnCourse.stays (h : job.OnCourse plugin runs extent bound steady)
    (hopened : event ≠ .opened (.ok ())) (hpolled : ∀ m, event ≠ .polled (.ok (some m))) (hturn : job.turn (.read event) = some job') :
    job'.OnCourse plugin runs extent bound steady :=
  h.quiet h.regular.sound (.refl _) hopened hpolled (fun _ _ _ _ _ _ hattends => hattends) hturn

/-- A turn of the loop after which it does not read keeps a job on course. -/
theorem OnCourse.leaves (h : job.OnCourse plugin runs extent bound steady) (hsound : w.Sound bound)
    (hkeeps : job.world.Keeps w) (hopened : event ≠ .opened (.ok ()))
    (hpolled : ∀ m, event ≠ .polled (.ok (some m)))
    (hleaves : ∀ loop, job.pipeline.loop.step job.context.feed
      (some job.pipeline.persister.durable) event = some loop → ¬ loop.control.Reads)
    (hturn : ({ job with session := session, world := w } : Job World).turn (.read event) =
      some job') : job'.OnCourse plugin runs extent bound steady :=
  h.quiet hsound hkeeps hopened hpolled
    (fun loop hstep hreads => absurd hreads (hleaves loop hstep)) hturn

/-- A turn of a loop that has no session, or has done with it, keeps a job on course. -/
theorem OnCourse.outside (h : job.OnCourse plugin runs extent bound steady) (hsound : w.Sound bound)
    (hkeeps : job.world.Keeps w) (hopened : event ≠ .opened (.ok ()))
    (hpolled : ∀ m, event ≠ .polled (.ok (some m)))
    (hreads : ¬ job.pipeline.loop.control.Reads)
    (hpushing : ∀ records last confirmed,
      job.pipeline.loop.control ≠ .pushing records last confirmed)
    (hturn : ({ job with session := session, world := w } : Job World).turn (.read event) =
      some job') : job'.OnCourse plugin runs extent bound steady :=
  h.leaves hsound hkeeps hopened hpolled
    (fun _ hstep => (Loop.moves_of_step hstep).not_reads hopened hreads hpushing) hturn

/-- A message keeps a job on course. -/
theorem OnCourse.polls (h : job.OnCourse plugin runs extent bound steady) {confirmed : Position}
    (hpolling : job.pipeline.loop.control = .polling confirmed) {s s' : Session} {m : Message}
    (hsession : job.session = some s) (hsound : w.Sound bound) (hkeeps : job.world.Keeps w)
    (hpoll : s.poll World.answer job.world = (.ok (some m), s', w))
    (hturn : (job.afterExchange s' w).turn (.read (.polled (.ok (some m)))) = some job') :
    job'.OnCourse plugin runs extent bound steady := by
  obtain ⟨-, loop, hstep, rfl⟩ := turn_read hturn
  refine h.read (.polled (.ok (some m))) (some s') hsound hkeeps
    ?_
  intro trail old kept waiting hhistory
  have hattends := hhistory.track.standing.attends (.inl (hpolling ▸ trivial))
  rw [hsession] at hattends
  obtain ⟨_, base, slot, held, hsome, hlink, hslot, hagrees, habreast⟩ := hattends
  obtain rfl := Option.some.inj hsome
  obtain ⟨-, -, hpolled⟩ := World.poll_facts h.regular.sound hlink hslot hagrees hpoll
  obtain ⟨hlink', hslot', held', hagrees'⟩ := hpolled (some m) rfl
  have hmoves : (job.feed trail).loop.Moves job.context.feed (job.feed trail).durable
      (.polled (.ok (some m))) loop := Loop.moves_of_step hstep
  refine (hhistory.track.same_log hkeeps.log (hslot'.trans hslot.symm)).polled ?_ hpolling hmoves
    hlink' hslot' hagrees' (habreast.same_log hkeeps.log)
  intro t ht
  rw [hkeeps.log.1] at ht
  rw [h.plugin_eq]
  exact h.regular.framed t ht

/-- Learning how a push went keeps a job on course. -/
theorem OnCourse.learns (h : job.OnCourse plugin runs extent bound steady)
    (hturn : job.turn .learn = some job') : job'.OnCourse plugin runs extent bound steady := by
  obtain ⟨pipeline, htakes, rfl⟩ := takes_of_turn hturn
  cases htakes with
  | @learns taken loop hlast hloop =>
      have hmoves (trail : List Happening) : (job.feed trail).loop.Moves job.context.feed
          (job.feed trail).durable (.pushed taken) loop := Loop.moves_of_step hloop
      have hwith : { job.pipeline with loop := loop } = job.pipeline.withLoop loop := by
        rw [with_loop_eq job [] loop, Feed.channel_at_of_moves (hmoves []) (by simp)]
        rfl
      rw [hwith]
      refine h.read (.pushed taken) job.session h.regular.sound (.refl _) ?_
      intro trail old kept waiting hhistory
      have htrack := hhistory.track
      refine htrack.moves ⟨rfl, rfl⟩ (hmoves trail) ?_ (by simp) (by simp)
        (htrack.attends_of_moves (hmoves trail) (by simp))
      intro taken' heq
      obtain rfl := LoopEvent.pushed.inj heq
      exact hlast

/-- Where a job opens a session, the position is not beyond the bound. -/
theorem OnCourse.resume_le (h : job.OnCourse plugin runs extent bound steady) {resume : Position}
    (hopening : job.pipeline.loop.control = .opening resume) : resume ≤ bound := by
  obtain ⟨trail, old, kept, waiting, hhistory⟩ := h.history
  exact hhistory.track.standing.opens resume hopening

/-- Opening a session keeps a job on course. -/
theorem OnCourse.opens (h : job.OnCourse plugin runs extent bound steady) {resume : Position}
    (hopening : job.pipeline.loop.control = .opening resume) {s : Session}
    (hopen : Job.openSession World.surroundings job resume = (.ok s, w))
    (hturn : (job.afterExchange s w).turn (.read (.opened (.ok ()))) = some job') :
    job'.OnCourse plugin runs extent bound steady := by
  obtain ⟨hsound, hkeeps, hvalue⟩ := open_session_facts h.regular.sound (h.resume_le hopening) hopen
  obtain ⟨hlink, hempty, base, hslot⟩ := hvalue s rfl
  obtain ⟨-, loop, hstep, rfl⟩ := turn_read hturn
  refine h.read (.opened (.ok ())) (some s) hsound hkeeps ?_
  intro trail old kept waiting hhistory
  obtain ⟨horigin, hbase⟩ := hsound.slot base hslot
  have hmoves : (job.feed trail).loop.Moves job.context.feed (job.feed trail).durable
      (.opened (.ok ())) loop := Loop.moves_of_step hstep
  refine hhistory.track.opened hkeeps.log hopening hmoves hlink hempty hslot horigin ?_
  -- The slot stands where it began, or not beyond the bound, and up to there all was given out.
  rcases hbase with rfl | hbase
  · exact .of_le_origin (le_refl _)
  · exact (hhistory.pushed_up_to.of_le (hbase.trans hhistory.ordered.bound_le)).same_log hkeeps.log

/-- Failing to open a session keeps a job on course. -/
theorem OnCourse.turn_unopened (h : job.OnCourse plugin runs extent bound steady)
    {resume : Position} (hopening : job.pipeline.loop.control = .opening resume) {fault : SessionFault}
    (hopen : Job.openSession World.surroundings job resume = (.error fault, w))
    (hturn : ({ job with world := w } : Job World).turn (.read (.opened (.error fault))) =
      some job') : job'.OnCourse plugin runs extent bound steady := by
  obtain ⟨hsound, hkeeps, -⟩ := open_session_facts h.regular.sound (h.resume_le hopening) hopen
  exact h.outside hsound hkeeps (by simp) (by simp) (hopening ▸ id) (by simp [hopening]) hturn

/-- Confirming keeps a job on course, whether it succeeds or fails. -/
theorem OnCourse.turn_confirming (h : job.OnCourse plugin runs extent bound steady)
    {target : Position} (hconfirming : job.pipeline.loop.control = .confirming target) {s s' : Session}
    (hsession : job.session = some s) {result : Except SessionFault Unit}
    (hconfirm : s.confirm World.answer target job.world = (result, s', w))
    (hturn : (job.afterExchange s' w).turn (.read (.confirmed result)) = some job') :
    job'.OnCourse plugin runs extent bound steady := by
  obtain ⟨trail, old, kept, waiting, hhistory⟩ := h.history
  have htarget := hhistory.track.standing.confirms target hconfirming
  have hattends := hhistory.track.standing.attends (.inl (hconfirming ▸ trivial))
  obtain ⟨hsound, hkeeps, -⟩ :=
    World.confirm_attended h.regular.sound (hsession ▸ hattends) htarget hconfirm
  cases result with
  | ok _ =>
      refine h.quiet hsound hkeeps (by simp) (by simp) ?_ hturn
      intro loop hstep hreads delivered trail b hattends
      rw [hsession] at hattends
      exact (World.confirm_attended h.regular.sound hattends htarget hconfirm).2.2 rfl
  | error fault =>
      exact h.leaves hsound hkeeps (by simp) (by simp)
        (fun _ hstep => Loop.not_reads_of_fault hstep (.inl rfl)) hturn

/-- Polling keeps a job on course, whether it brings a message, finds nothing or fails. -/
theorem OnCourse.turn_polling (h : job.OnCourse plugin runs extent bound steady)
    {confirmed : Position} (hpolling : job.pipeline.loop.control = .polling confirmed) {s s' : Session}
    (hsession : job.session = some s) {result : Except SessionFault (Option Message)}
    (hpoll : s.poll World.answer job.world = (result, s', w))
    (hturn : (job.afterExchange s' w).turn (.read (.polled result)) = some job') :
    job'.OnCourse plugin runs extent bound steady := by
  obtain ⟨trail, old, kept, waiting, hhistory⟩ := h.history
  have hattends := hhistory.track.standing.attends (.inl (hpolling ▸ trivial))
  obtain ⟨hsound, hkeeps, -⟩ := World.poll_attended h.regular.sound (hsession ▸ hattends) hpoll
  rcases result with fault | _ | m
  · exact h.leaves hsound hkeeps (by simp) (by simp)
      (fun _ hstep => Loop.not_reads_of_fault hstep (.inr rfl)) hturn
  · refine h.quiet hsound hkeeps (by simp) (by simp) ?_ hturn
    intro loop hstep hreads delivered trail b hattends
    rw [hsession] at hattends
    exact (World.poll_attended h.regular.sound hattends hpoll).2.2 rfl
  · exact h.polls hpolling hsession hsound hkeeps hpoll hturn

/-- Every turn of the read loop keeps a job on course. -/
theorem OnCourse.turn_loop (h : job.OnCourse plugin runs extent bound steady)
    (hturn : job.turnLoop World.surroundings = some job') :
    job'.OnCourse plugin runs extent bound steady := by
  cases loop_turn_of_turn hturn with
  | alone hopened hpolled hturn => exact h.stays hopened hpolled hturn
  | opens hopening hopen hturn => exact h.opens hopening hopen hturn
  | unopened hopening hopen hturn => exact h.turn_unopened hopening hopen hturn
  | confirms hconfirming hsession hconfirm hturn =>
      exact h.turn_confirming hconfirming hsession hconfirm hturn
  | polls hpolling hsession hpoll hturn => exact h.turn_polling hpolling hsession hpoll hturn
  | learns hturn => exact h.learns hturn
  | closes hclosing hturn =>
      exact h.outside h.regular.sound (.refl _) (by simp) (by simp) (hclosing ▸ id)
        (by simp [hclosing]) hturn

/-! ## Turns of the applier -/

/-- An applier that goes on with its accounts in order keeps a job on course. -/
theorem OnCourse.applies (h : job.OnCourse plugin runs extent bound steady) {applier : Applier}
    {pending flushed : List String}
    (haccounts : ∀ trail old kept waiting,
      job.Remembers runs extent bound steady trail old kept waiting →
      ∃ kept' waiting', applier.Accounts job.context.feed.start trail pending flushed
        kept' waiting')
    (hacknowledged : job.pipeline.applier.acknowledged ≤ applier.acknowledged)
    (hflushed : job.world.flushed.Sublist flushed) :
    ({ job with
      world := { job.world with pending := pending, flushed := flushed }
      pipeline := job.pipeline.withApplier applier } : Job World).OnCourse plugin runs extent bound
        steady := by
  obtain ⟨trail, old, kept, waiting, hhistory⟩ := h.history
  obtain ⟨kept', waiting', haccounts⟩ := haccounts trail old kept waiting hhistory
  refine ⟨h.plugin_eq, h.in_runs, h.regular.alter rfl rfl, ?_⟩
  have hordered : ({ job with
      world := { job.world with pending := pending, flushed := flushed }
      pipeline := job.pipeline.withApplier applier } : Job World).Ordered extent bound steady :=
    hhistory.ordered.later rfl rfl hacknowledged
  unfold Pipeline.withApplier at hordered ⊢
  cases hover : applier.isFinished with
  | false =>
      rw [hover] at hordered
      refine ⟨trail, old, kept', waiting', hhistory.old_flushed.trans hflushed, hhistory.old_given,
        ?_, haccounts, hordered⟩
      exact hhistory.track.still ⟨rfl, rfl, rfl⟩ rfl rfl hhistory.track.sends (le_refl _)
        hhistory.track.durable_le
  | true =>
      -- An applier that has ended drops its receiver, and with it what is in the channel.
      rw [hover] at hordered
      have hpushed : Trail.pushed (trail ++ [.dropped job.pipeline.channel.buffered]) =
          Trail.pushed trail := by simp [Trail.pushed]
      refine ⟨trail ++ [.dropped job.pipeline.channel.buffered], old, kept', waiting',
        hhistory.old_flushed.trans hflushed, hhistory.old_given, ?_,
        haccounts.over hpushed hover rfl rfl, hordered⟩
      have hsends := Feed.sends_or_breaks_of_steps (c := job.context.feed) .drops
        hhistory.track.sends
      exact hhistory.track.still ⟨rfl, rfl, rfl⟩ hpushed (Trail.session_dropped trail _) hsends
        (le_refl _) hhistory.track.durable_le

/-- A record that the applier takes keeps a job on course. -/
theorem OnCourse.takes (h : job.OnCourse plugin runs extent bound steady) {record : Record}
    {channel : Channel Record} (hcontrol : job.pipeline.applier.control = .receiving)
    (hreceive : job.pipeline.channel.receive = (some record, channel)) :
    ({ job with pipeline := { job.pipeline with
      channel := channel
      applier := { job.pipeline.applier with control := .writing record } } } :
      Job World).OnCourse plugin runs extent bound steady := by
  obtain ⟨trail, old, kept, waiting, hhistory⟩ := h.history
  refine ⟨h.plugin_eq, h.in_runs, h.regular, trail ++ [.received record], old, kept, waiting,
    hhistory.old_flushed, hhistory.old_given, ?_, hhistory.accounts.received hcontrol,
    hhistory.ordered.later rfl rfl (le_refl _)⟩
  have hsends := Feed.sends_or_breaks_of_steps (c := job.context.feed)
    (.receives (f := job.feed trail) record channel hreceive) hhistory.track.sends
  exact hhistory.track.still ⟨rfl, rfl, rfl⟩ (by simp [Job.feed, Trail.pushed])
    (Trail.session_received trail record) hsends (le_refl _) hhistory.track.durable_le

/-- Taking a record out of the channel or meeting its end keeps a job on course. -/
theorem OnCourse.turn_take (h : job.OnCourse plugin runs extent bound steady)
    (hturn : job.turn .take = some job') : job'.OnCourse plugin runs extent bound steady := by
  obtain ⟨pipeline, htakes, rfl⟩ := takes_of_turn hturn
  cases htakes with
  | takes hcontrol hreceive => exact h.takes hcontrol hreceive
  | meetsEnd hcontrol =>
      exact h.applies (fun _ _ kept waiting hhistory =>
        ⟨kept, waiting, hhistory.accounts.ended hcontrol⟩) (le_refl _) (List.Sublist.refl _)

/-- An output that fails keeps a job on course: its applier ends, and what it has kept is kept. -/
theorem OnCourse.output_fails (h : job.OnCourse plugin runs extent bound steady) (context : String)
    (fault : FileFault) :
    ({ job with pipeline := job.pipeline.withApplier (job.pipeline.applier.fail context fault) } :
      Job World).OnCourse plugin runs extent bound steady :=
  h.applies (fun _ _ kept waiting hhistory =>
    ⟨kept, waiting, hhistory.accounts.over rfl rfl rfl rfl⟩) (le_refl _) (List.Sublist.refl _)

/-- Writing a record keeps a job on course, whether it succeeds or fails. -/
theorem OnCourse.turn_writing (h : job.OnCourse plugin runs extent bound steady) {record : Record}
    (hcontrol : job.pipeline.applier.control = .writing record) {result : Except FileFault Unit}
    (hwrite : World.surroundings.write (Applier.lineOf record) job.world = (result, w))
    (hturn : ({ job with world := w } : Job World).turn (.wrote result) = some job') :
    job'.OnCourse plugin runs extent bound steady := by
  obtain ⟨pipeline, htakes, rfl⟩ := takes_of_turn hturn
  cases htakes with
  | writes hmoves =>
      obtain ⟨rfl, rfl⟩ | ⟨fault, rfl, rfl⟩ := World.write_cases job.world _ hwrite
      · cases hmoves with
        | writes hwriting hnext =>
            obtain rfl := Applier.Control.writing.inj (hcontrol.symm.trans hwriting)
            refine h.applies (fun _ _ kept waiting hhistory =>
              ⟨kept, waiting ++ [record], hhistory.accounts.wrote hcontrol ?_⟩) (le_refl _)
              (List.Sublist.refl _)
            rcases hnext with rfl | rfl <;> rfl
        | fails hevent => simp at hevent
      · cases hmoves with
        | fails => exact h.output_fails _ _

/-- Flushing keeps a job on course, whether it succeeds or fails. -/
theorem OnCourse.turn_flushing (h : job.OnCourse plugin runs extent bound steady)
    {result : Except FileFault Unit} (hflush : World.surroundings.flush job.world = (result, w))
    (hturn : ({ job with world := w } : Job World).turn (.flushed result) = some job') :
    job'.OnCourse plugin runs extent bound steady := by
  obtain ⟨pipeline, htakes, rfl⟩ := takes_of_turn hturn
  have hflushes {isLast : Bool} (hcontrol : job.pipeline.applier.control = .flushing isLast)
      {next : Applier.Control} (hnext : Applier.inHand next = []) :
      ({ job with
        world := { job.world with pending := [], flushed := job.world.flushed ++ job.world.pending }
        pipeline := job.pipeline.withApplier
          { job.pipeline.applier.acknowledge with control := next } } :
        Job World).OnCourse plugin runs extent bound steady := by
    refine h.applies (fun trail _ kept waiting hhistory => ⟨kept ++ waiting, [], ?_⟩)
      job.pipeline.applier.le_acknowledge (List.sublist_append_left _ _)
    refine hhistory.accounts.flush hcontrol hnext ?_
    exact (List.prefix_append _ _).trans (Feed.pushed_prefix_of hhistory.track.sends)
  cases htakes with
  | flushes hmoves =>
      obtain ⟨rfl, rfl⟩ | ⟨fault, rfl, rfl⟩ := World.flush_cases job.world hflush
      · cases hmoves with
        | flushes hcontrol => exact hflushes hcontrol rfl
        | flushesLast hcontrol => exact hflushes hcontrol rfl
        | fails hevent => simp at hevent
      · cases hmoves with
        | fails => exact h.output_fails _ _

/-- Every turn of the applier keeps a job on course. -/
theorem OnCourse.turn_applier (h : job.OnCourse plugin runs extent bound steady)
    (hturn : job.turnApplier World.surroundings = some job') :
    job'.OnCourse plugin runs extent bound steady := by
  cases applier_turn_of_turn hturn with
  | takes hturn => exact h.turn_take hturn
  | writes hcontrol hwrite hturn => exact h.turn_writing hcontrol hwrite hturn
  | flushes hflush hturn => exact h.turn_flushing hflush hturn

/-! ## Turns of the persister -/

/-- The positions of a job stay in order when its persister has stored one, which may be the new
bound. -/
theorem Ordered.saves (h : job.Ordered extent bound steady) {target : Position}
    (htarget : Persister.IsTarget job.pipeline.persister.control target) :
    ({ job with world := job.world.store target } : Job World).Ordered extent (max bound target)
      steady where
  bound_le := max_le h.bound_le ((h.targets target htarget).trans (le_max_right _ _))
  stored_le := (h.targets target htarget).trans (le_max_right _ _)
  targets := h.targets
  ahead hsteady := by
    obtain ⟨-, hbound, htargets⟩ := h.ahead hsteady
    have hle := htargets target htarget
    refine ⟨max_le hle (le_refl _), max_le hbound (h.targets target htarget), ?_⟩
    exact fun other hother => max_le (htargets other hother) (htarget.unique hother).le

/-- Storing what the persister is about to save keeps a job on course. -/
theorem OnCourse.saves (h : job.OnCourse plugin runs extent bound steady) {target : Position}
    (htarget : Persister.IsTarget job.pipeline.persister.control target) :
    ({ job with world := job.world.store target } : Job World).OnCourse plugin runs extent
      (max bound target) steady := by
  obtain ⟨trail, old, kept, waiting, hhistory⟩ := h.history
  have hle : bound ≤ max bound target := le_max_left _ _
  obtain ⟨d, hdurable, hd⟩ := hhistory.track.durable_le
  exact ⟨h.plugin_eq, h.in_runs, (h.regular.mono hle).alter rfl rfl, trail, old, kept, waiting,
    hhistory.old_flushed, hhistory.old_given,
    hhistory.track.still ⟨rfl, rfl, rfl⟩ rfl rfl hhistory.track.sends hle
      ⟨d, hdurable, hd.trans hle⟩,
    hhistory.accounts, hhistory.ordered.saves htarget⟩

/-- A persister that goes on to save what is acknowledged keeps a job on course, if what it takes
for durable is not beyond the bound. -/
theorem OnCourse.looks (h : job.OnCourse plugin runs extent bound steady) {persister : Persister}
    (hdurable : persister.durable ≤ bound)
    (htargets : ∀ target, Persister.IsTarget persister.control target →
      target = job.pipeline.applier.acknowledged) :
    ({ job with pipeline := { job.pipeline with persister := persister } } : Job World).OnCourse
      plugin runs extent bound steady := by
  obtain ⟨trail, old, kept, waiting, hhistory⟩ := h.history
  have hsends := Feed.sends_or_breaks_of_steps (c := job.context.feed)
    (.persists (f := job.feed trail) persister.durable) hhistory.track.sends
  refine ⟨h.plugin_eq, h.in_runs, h.regular, trail, old, kept, waiting, hhistory.old_flushed,
    hhistory.old_given,
    hhistory.track.still ⟨rfl, rfl, rfl⟩ rfl rfl hsends (le_refl _) ⟨_, rfl, hdurable⟩,
    hhistory.accounts, {
      bound_le := hhistory.ordered.bound_le
      stored_le := hhistory.ordered.stored_le
      targets := fun target ht => (htargets target ht).le
      ahead := fun hsteady => ?_ }⟩
  obtain ⟨hstored, hbound, -⟩ := hhistory.ordered.ahead hsteady
  exact ⟨hstored, hbound, fun target ht => (htargets target ht).symm ▸ hbound⟩

/-- A persister that goes on keeps a job on course. What it has saved was acknowledged and may be
the new bound, and what it takes for durable was stored. -/
theorem OnCourse.persists (h : job.OnCourse plugin runs extent bound steady)
    {event : PersisterEvent} (hstores : job.Stores event w)
    (hturn : ({ job with world := w } : Job World).turn (.persist event) = some job') :
    ∃ bound' ≤ max bound job'.world.checkpoint,
      job'.OnCourse plugin runs extent bound' steady := by
  obtain ⟨pipeline, hpipeline, rfl⟩ := Option.map_eq_some_iff.mp hturn
  obtain ⟨persister, hpersister, rfl⟩ := Option.map_eq_some_iff.mp hpipeline
  obtain ⟨hdurable, htargets⟩ := Persister.step_facts hpersister
  obtain ⟨trail, old, kept, waiting, hhistory⟩ := h.history
  have hbefore : job.pipeline.persister.durable ≤ bound := by
    obtain ⟨d, hd, hle⟩ := hhistory.track.durable_le
    exact Option.some.inj hd ▸ hle
  have hsaves {target : Position}
      (htarget : Persister.IsTarget job.pipeline.persister.control target)
      (hle : persister.durable ≤ max bound target) :
      OnCourse plugin runs extent (max bound target) steady { job with
        world := job.world.store target
        pipeline := { job.pipeline with persister := persister } } :=
    (h.saves htarget).looks hle htargets
  rcases hdurable with heq | ⟨hevent, htarget⟩
  · have hle : persister.durable ≤ bound := heq.trans_le hbefore
    rcases hstores.world_eq with rfl | ⟨target, htarget, rfl⟩
    · exact ⟨bound, le_max_left _ _, h.looks hle htargets⟩
    · exact ⟨_, le_refl _, hsaves htarget (hle.trans (le_max_left _ _))⟩
  · obtain rfl := hstores.saved _ hevent htarget
    exact ⟨_, le_refl _, hsaves htarget (le_max_right _ _)⟩

/-- Every turn of the persister keeps a job on course. -/
theorem OnCourse.turn_persister (h : job.OnCourse plugin runs extent bound steady) {isDue : Bool}
    (hturn : job.turnPersister World.surroundings isDue = some job') :
    ∃ bound' ≤ max bound job'.world.checkpoint,
      job'.OnCourse plugin runs extent bound' steady := by
  obtain ⟨event, w, hstores, hturned⟩ := exists_stores hturn
  exact h.persists hstores hturned

/-! ## Requests -/

/-- A request to stop keeps a job on course. -/
theorem OnCourse.stop (h : job.OnCourse plugin runs extent bound steady)
    (hturn : job.stop = some job') : job'.OnCourse plugin runs extent bound steady := by
  unfold Job.stop at hturn
  obtain ⟨pipeline, hstep, rfl⟩ := Option.map_eq_some_iff.mp hturn
  obtain rfl := Option.some.inj hstep
  obtain ⟨trail, old, kept, waiting, hhistory⟩ := h.history
  refine ⟨h.plugin_eq, h.in_runs, h.regular, trail, old, kept, waiting, hhistory.old_flushed,
    hhistory.old_given, ?_, hhistory.accounts, hhistory.ordered.later rfl rfl (le_refl _)⟩
  have hsends := Feed.sends_or_breaks_of_steps (c := job.context.feed) .stops hhistory.track.sends
  exact hhistory.track.still ⟨rfl, rfl, rfl⟩ rfl rfl hsends (le_refl _) hhistory.track.durable_le

/-- Telling the persister to end keeps a job on course. -/
theorem OnCourse.wrap_up (h : job.OnCourse plugin runs extent bound steady)
    (hturn : job.turn .wrapUp = some job') : job'.OnCourse plugin runs extent bound steady := by
  obtain ⟨pipeline, htakes, rfl⟩ := takes_of_turn hturn
  cases htakes with
  | wrapsUp =>
      obtain ⟨trail, old, kept, waiting, hhistory⟩ := h.history
      exact ⟨h.plugin_eq, h.in_runs, h.regular, trail, old, kept, waiting, hhistory.old_flushed,
        hhistory.old_given, hhistory.track, hhistory.accounts,
        hhistory.ordered.later rfl rfl (le_refl _)⟩

/-! ## What happens around a job -/

/-- The job, after it was noted at which position it opens a session. -/
def noted (job : Job World) : Job World :=
  match job.pipeline.loop.control with
  | .opening resume => { job with world := job.world.handOver resume }
  | _ => job

/-- Noting the position of a session keeps a job on course. -/
theorem OnCourse.noted (h : job.OnCourse plugin runs extent bound steady) :
    job.noted.OnCourse plugin runs extent bound steady := by
  unfold Job.noted
  split
  · rename_i resume hcontrol
    obtain ⟨trail, old, kept, waiting, hhistory⟩ := h.history
    exact ⟨h.plugin_eq, h.in_runs,
      ⟨h.regular.framed, h.regular.sound.hand_over (h.resume_le hcontrol)⟩, trail, old, kept,
      waiting, hhistory.old_flushed, hhistory.old_given, hhistory.track, hhistory.accounts,
      hhistory.ordered.later rfl rfl (le_refl _)⟩
  · exact h

/-- A change of the weather keeps a job on course. -/
theorem OnCourse.weather (h : job.OnCourse plugin runs extent bound steady) (weather : Weather) :
    ({ job with world := { job.world with weather := weather } } : Job World).OnCourse
      plugin runs extent bound steady := by
  obtain ⟨trail, old, kept, waiting, hhistory⟩ := h.history
  exact ⟨h.plugin_eq, h.in_runs, h.regular.alter rfl rfl, trail, old, kept, waiting,
    hhistory.old_flushed, hhistory.old_given, hhistory.track, hhistory.accounts,
    hhistory.ordered.later rfl rfl (le_refl _)⟩

/-- Another transaction at the server keeps a job on course. -/
theorem OnCourse.commit (h : job.OnCourse plugin runs extent bound steady) {t : LoggedTransaction}
    (ht : t.IsFramed plugin ∧ t.HasRowsBefore) :
    ({ job with world := { job.world with source := job.world.source.commit t } } :
      Job World).OnCourse plugin runs extent bound steady := by
  obtain ⟨trail, old, kept, waiting, hhistory⟩ := h.history
  exact ⟨h.plugin_eq, h.in_runs, h.regular.commit ht, trail, old, kept, waiting,
    hhistory.old_flushed, hhistory.old_given.commit t, hhistory.track.commit t, hhistory.accounts,
    hhistory.ordered.later rfl rfl (le_refl _)⟩

/-- A position that somebody else stores keeps a job on course if everything up to there was
delivered before the run. The world stays steady unless that sets the stored position back. -/
theorem OnCourse.lingers (h : job.OnCourse plugin runs extent bound steady) {p : Position}
    (hp : p ≤ extent) (hback : steady → job.world.checkpoint ≤ p) :
    ({ job with world := job.world.store p } : Job World).OnCourse plugin runs extent bound
      steady := by
  obtain ⟨trail, old, kept, waiting, hhistory⟩ := h.history
  refine ⟨h.plugin_eq, h.in_runs, h.regular.alter rfl rfl, trail, old, kept, waiting,
    hhistory.old_flushed, hhistory.old_given, hhistory.track, hhistory.accounts, {
      bound_le := hhistory.ordered.bound_le
      stored_le := hp.trans (le_max_left _ _)
      targets := hhistory.ordered.targets
      ahead := fun hsteady => ?_ }⟩
  obtain ⟨hstored, hbound, htargets⟩ := hhistory.ordered.ahead hsteady
  exact ⟨hstored.trans (hback hsteady), hbound, htargets⟩

/-- The world of a job that ends is covered up to what was delivered before or is acknowledged. -/
theorem OnCourse.covered (h : job.OnCourse plugin runs extent bound steady) :
    job.world.Covered plugin runs (max extent job.pipeline.applier.acknowledged) bound
      steady := by
  obtain ⟨trail, old, kept, waiting, hhistory⟩ := h.history
  exact ⟨h.regular, hhistory.delivered_up_to h.in_runs, hhistory.ordered.bound_le,
    hhistory.ordered.stored_le, fun hsteady => (hhistory.ordered.ahead hsteady).1⟩

/-! ## A job that is over -/

/-- A job that is over has acknowledged nothing beyond an extent, and its persister saves nothing
that is not acknowledged. -/
structure IsOver (extent : Position) (job : Job World) : Prop where
  acknowledged_le : job.pipeline.applier.acknowledged ≤ extent
  targets : ∀ target, Persister.IsTarget job.pipeline.persister.control target →
    target ≤ job.pipeline.applier.acknowledged

/-- What holds of a job that is over holds with a later extent. -/
theorem IsOver.mono (h : job.IsOver extent) {extent' : Position} (hle : extent ≤ extent') :
    job.IsOver extent' :=
  ⟨h.acknowledged_le.trans hle, h.targets⟩

/-- A job that was on course is over when it ends. -/
theorem OnCourse.is_over (h : job.OnCourse plugin runs extent bound steady) :
    job.IsOver (max extent job.pipeline.applier.acknowledged) := by
  obtain ⟨trail, old, kept, waiting, hhistory⟩ := h.history
  exact ⟨le_max_right _ _, hhistory.ordered.targets⟩

/-- A persister that was left behind stores nothing beyond the extent, whatever the world is by
then. -/
theorem IsOver.turn_persister (h : job.IsOver extent) {isDue : Bool}
    (hturn : ({ job with world := w } : Job World).turnPersister World.surroundings isDue =
      some job') :
    job'.IsOver extent ∧ (job'.world = w ∨ ∃ p ≤ extent, job'.world = w.store p) := by
  obtain ⟨event, w', hstores, hturned⟩ := exists_stores hturn
  obtain ⟨pipeline, hpipeline, rfl⟩ := Option.map_eq_some_iff.mp hturned
  obtain ⟨persister, hpersister, rfl⟩ := Option.map_eq_some_iff.mp hpipeline
  obtain ⟨-, htargets⟩ := Persister.step_facts hpersister
  refine ⟨⟨h.acknowledged_le, fun target ht => (htargets target ht).le⟩, ?_⟩
  rcases hstores.world_eq with heq | ⟨target, htarget, heq⟩
  · exact .inl heq
  · exact .inr ⟨target, (h.targets target htarget).trans h.acknowledged_le, heq⟩

/-! ## A job that starts -/

/-- A job that has started in a covered world is on course. The position that it starts from is the
new bound. -/
theorem IsFresh.on_course {settings : JobSettings} (h : job.IsFresh settings w)
    (hcovered : job.world.Covered settings.plugin runs extent bound steady)
    (hcheckpoint : job.world.checkpoint = w.checkpoint) (hrun : job.context.feed ∈ runs) :
    job.OnCourse settings.plugin runs extent (max bound job.world.checkpoint) steady := by
  obtain ⟨capacity, hpipeline⟩ := h.pipeline_eq
  have hstart : job.context.feed.start = job.world.checkpoint := by rw [hcheckpoint, h.start_eq]
  have hfeed : job.feed [] = job.context.feed.feed capacity (some job.context.feed.start) := by
    rw [feed, hpipeline]
    rfl
  have hnone (target : Position) :
      ¬ Persister.IsTarget job.pipeline.persister.control target := by
    rw [hpipeline]
    exact fun htarget => htarget.elim nofun nofun
  have hle : job.context.feed.start ≤ max bound job.world.checkpoint :=
    hstart ▸ le_max_right _ _
  have hstarts : job.pipeline.applier.acknowledged = job.world.checkpoint := by
    rw [hpipeline, ← hstart]
    rfl
  refine ⟨h.plugin_eq, hrun, hcovered.regular.mono (le_max_left _ _), [], job.world.flushed, [],
    [], List.Sublist.refl _, hcovered.given, ?_, ?_, {
      bound_le := (max_le hcovered.bound_le hcovered.stored_le).trans (le_max_left _ _)
      stored_le := hcovered.stored_le.trans (le_max_left _ _)
      targets := fun target htarget => absurd htarget (hnone target)
      ahead := fun hsteady => ?_ }⟩
  · have htrack := Feed.on_track_feed job.context.feed capacity
      (hstart ▸ hcovered.given.of_le hcovered.stored_le)
    rw [hfeed, h.session_eq]
    exact htrack.still ⟨rfl, rfl, rfl⟩ rfl rfl htrack.sends hle ⟨_, rfl, hle⟩
  · rw [hpipeline]
    exact Applier.accounts_start _ _ _
  · have hbound := max_le (hcovered.steady_le hsteady) (le_refl _)
    exact ⟨hbound, hstarts ▸ hbound, fun target htarget => absurd htarget (hnone target)⟩

end Job

end ChangeFeed
