import ChangeFeed.Proofs.Checkpoint.Persister
import ChangeFeed.Proofs.Job.Turns
import ChangeFeed.Proofs.Job.World

/-!
# What the turns of a job come to

The turns that a job gives to its parts as rules: what the read loop asks the server before it goes
on (`Job.LoopTurn`), what the applier asks the output (`Job.ApplierTurn`), and what the persister
asks the store (`Job.exists_persist`). What every turn of a job keeps is proved from these.
-/

namespace ChangeFeed.Job

section

variable {σ : Type} {s : Surroundings σ} {job job' : Job σ}

/-- A turn of the pipeline is one that follows the rules. -/
theorem takes_of_turn {turn : Turn} (h : job.turn turn = some job') :
    ∃ pipeline, Pipeline.Takes job.context job.pipeline turn pipeline ∧
      job' = { job with pipeline := pipeline } := by
  obtain ⟨pipeline, hstep, rfl⟩ := Option.map_eq_some_iff.mp h
  exact ⟨pipeline, Pipeline.takes_of_step hstep, rfl⟩

/-- The rules for the turns of the read loop. -/
inductive LoopTurn (s : Surroundings σ) (job job' : Job σ) : Prop
  /-- The loop goes on without the server. -/
  | alone {event : LoopEvent} (hopened : event ≠ .opened (.ok ()))
      (hpolled : ∀ m, event ≠ .polled (.ok (some m)))
      (hturn : job.turn (.read event) = some job')
  | opens {resume : Position} {session : Session} {w : σ}
      (hopening : job.pipeline.loop.control = .opening resume)
      (hopen : openSession s job resume = (.ok session, w))
      (hturn : (job.afterExchange session w).turn (.read (.opened (.ok ()))) = some job')
  | unopened {resume : Position} {fault : SessionFault} {w : σ}
      (hopening : job.pipeline.loop.control = .opening resume)
      (hopen : openSession s job resume = (.error fault, w))
      (hturn : ({ job with world := w } : Job σ).turn (.read (.opened (.error fault))) = some job')
  | confirms {target : Position} {session after : Session} {result : Except SessionFault Unit}
      {w : σ} (hconfirming : job.pipeline.loop.control = .confirming target)
      (hsession : job.session = some session)
      (hconfirm : session.confirm s.server target job.world = (result, after, w))
      (hturn : (job.afterExchange after w).turn (.read (.confirmed result)) = some job')
  | polls {confirmed : Position} {session after : Session}
      {result : Except SessionFault (Option Message)} {w : σ}
      (hpolling : job.pipeline.loop.control = .polling confirmed)
      (hsession : job.session = some session)
      (hpoll : session.poll s.server job.world = (result, after, w))
      (hturn : (job.afterExchange after w).turn (.read (.polled result)) = some job')
  | learns (hturn : job.turn .learn = some job')
  | closes {outcome : Except FeedFault Unit}
      (hclosing : job.pipeline.loop.control = .closing outcome)
      (hturn : ({ job with session := none } : Job σ).turn (.read (.closed (.ok ()))) = some job')

/-- Every turn of the read loop follows the rules. -/
theorem loop_turn_of_turn (h : job.turnLoop s = some job') : LoopTurn s job job' := by
  have hstop (hstopped : job.turn (.read .stopSeen) = some job') : LoopTurn s job job' :=
    .alone (by simp) (by simp) hstopped
  unfold turnLoop at h
  dsimp only at h
  split at h
  · rename_i resume hopening
    split at h
    · exact hstop h
    · split at h
      · rename_i session after hopen
        exact .opens hopening hopen h
      · rename_i fault after hopen
        exact .unopened hopening hopen h
  · rename_i target session hconfirming hsession
    exact .confirms hconfirming hsession rfl h
  · rename_i confirmed session hpolling hsession
    split at h
    · exact hstop h
    · exact .polls hpolling hsession rfl h
  · exact .learns h
  · split at h
    · exact hstop h
    · exact .alone (by simp) (by simp) h
  · split at h
    · exact hstop h
    · exact .alone (by simp) (by simp) h
  · rename_i outcome hclosing
    exact .closes hclosing h
  · exact .alone (by simp) (by simp) h

/-- The rules for the turns of the applier. -/
inductive ApplierTurn (s : Surroundings σ) (job job' : Job σ) : Prop
  | takes (hturn : job.turn .take = some job')
  | writes {record : Record} {result : Except FileFault Unit} {w : σ}
      (hcontrol : job.pipeline.applier.control = .writing record)
      (hwrite : s.write (Applier.lineOf record) job.world = (result, w))
      (hturn : ({ job with world := w } : Job σ).turn (.wrote result) = some job')
  | flushes {result : Except FileFault Unit} {w : σ} (hflush : s.flush job.world = (result, w))
      (hturn : ({ job with world := w } : Job σ).turn (.flushed result) = some job')

/-- Every turn of the applier follows the rules. -/
theorem applier_turn_of_turn (h : job.turnApplier s = some job') : ApplierTurn s job job' := by
  unfold turnApplier at h
  split at h
  · exact .takes h
  · rename_i record hcontrol
    exact .writes hcontrol rfl h
  · exact .flushes rfl h
  · exact absurd h (by simp)

end

variable {job job' : Job World} {w : World}

/-- Opening the session of a job at a position that is not beyond the bound keeps its world sound,
and a session that is open has a slot and nothing in its log. -/
theorem open_session_facts {bound : Position} (hsound : job.world.Sound bound) {resume : Position}
    (hresume : resume ≤ bound) {result : Except SessionFault Session}
    (hopen : openSession World.surroundings job resume = (result, w)) :
    w.Sound bound ∧ job.world.Keeps w ∧ ∀ s, result = .ok s →
      s.link = .live ∧ s.log = .empty ∧ ∃ p, w.source.slot = some p := by
  unfold openSession at hopen
  split at hopen
  · rename_i causes after hconnect
    obtain rfl : job.world = after := congrArg Prod.snd hconnect
    obtain ⟨rfl, rfl⟩ := Prod.mk.inj hopen
    exact ⟨hsound, .refl _, nofun⟩
  · rename_i after hconnect
    obtain rfl : job.world = after := congrArg Prod.snd hconnect
    exact World.open_facts hsound _ _ _ hresume hopen

/-- What becomes of the world while the persister waits for an event: nothing is stored but what it
is about to save, and that is stored if it hears so. -/
structure Stores (job : Job World) (event : PersisterEvent) (w : World) : Prop where
  world_eq : w = job.world ∨ ∃ target,
    Persister.IsTarget job.pipeline.persister.control target ∧ w = job.world.store target
  saved : ∀ target, event = .saved (.ok ()) →
    Persister.IsTarget job.pipeline.persister.control target → w = job.world.store target

/-- The store has its part in a turn of the persister. -/
theorem exists_stores {isDue : Bool}
    (h : job.turnPersister World.surroundings isDue = some job') :
    ∃ event w, job.Stores event w ∧
      ({ job with world := w } : Job World).turn (.persist event) = some job' := by
  have hrest {event : PersisterEvent} (hevent : event ≠ .saved (.ok ())) :
      job.Stores event job.world := ⟨.inl rfl, fun _ heq => absurd heq hevent⟩
  have hsave {target : Position}
      (htarget : Persister.IsTarget job.pipeline.persister.control target)
      {result : Except Failure Unit} {w : World}
      (hsaved : World.surroundings.save job.settings.checkpoint job.settings.jobId target
        job.world = (result, w)) : job.Stores (.saved result) w := by
    obtain ⟨hw, hok⟩ := World.save_facts _ _ _ _ hsaved
    refine ⟨hw.imp_right fun heq => ⟨target, htarget, heq⟩, fun target' hevent ht => ?_⟩
    obtain rfl := htarget.unique ht
    exact hok (PersisterEvent.saved.inj hevent)
  unfold turnPersister saveCheckpoint at h
  split at h
  · exact ⟨_, _, hrest (by simp), h⟩
  · split at h
    · exact ⟨_, _, hrest (by simp), h⟩
    · exact absurd h (by simp)
  · rename_i target hcontrol
    exact ⟨_, _, hsave (.inl hcontrol) rfl, h⟩
  · rename_i target hcontrol
    exact ⟨_, _, hsave (.inr hcontrol) rfl, h⟩
  · exact absurd h (by simp)
  · exact absurd h (by simp)

end ChangeFeed.Job
