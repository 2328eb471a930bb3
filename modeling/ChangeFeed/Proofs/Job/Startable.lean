import ChangeFeed.Job.Run
import ChangeFeed.Proofs.Checkpoint.Persister
import ChangeFeed.Proofs.Duration
import ChangeFeed.Proofs.Except
import ChangeFeed.Proofs.Job.Turns
import ChangeFeed.Proofs.Job.World
import Mathlib.Algebra.Group.Nat.Defs

/-!
# Jobs that break

Valid settings can still be settings of a job that breaks: there is no channel of a capacity beyond
the largest, and a persister with no time between its ticks breaks in its first turn.
`JobSettings.breaks_iff` says that nothing else does it, whatever the order of the turns; read
`Pipeline.Breaks` first.
-/

namespace ChangeFeed

namespace Persister

variable {interval : Nat} {seen : Acknowledged} {p after : Persister} {event : PersisterEvent}

/-- A persister that has no time between its ticks has done nothing. -/
def IsIdle (start : Position) (p : Persister) : Prop :=
  p.durable = start ∧ (p.control = .starting ∨ p.control = .broken)

/-- Without time between its ticks a persister breaks before it does anything. -/
theorem IsIdle.step {start : Position} (h : p.IsIdle start)
    (hstep : p.step 0 seen event = some after) : after.IsIdle start := by
  obtain ⟨durable, control⟩ := p
  obtain ⟨rfl, rfl | rfl⟩ := h
  · cases event with
    | next =>
        obtain rfl := Option.some.inj hstep
        exact ⟨rfl, .inr rfl⟩
    | woke | saved => exact absurd hstep (by simp [Persister.step])
  · exact absurd hstep (by simp [Persister.step])

end Persister

namespace Pipeline

variable {c : PipelineContext} {p after : Pipeline} {channel : Channel Record}

/-- The pipeline after some turns. -/
def run (c : PipelineContext) (p : Pipeline) (turns : List Turn) : Option Pipeline :=
  turns.foldlM (step c) p

/-- Some order of turns ends in a broken persister. -/
def Breaks (c : PipelineContext) (p : Pipeline) : Prop :=
  ∃ turns after, p.run c turns = some after ∧ after.persister.control = .broken

/-- The persister changes in its own turns only. -/
theorem step_persister {turn : Turn} (h : p.step c turn = some after) :
    after.persister = p.persister ∨
      ∃ seen event, p.persister.step c.interval seen event = some after.persister := by
  cases takes_of_step h with
  | persists hstep => exact .inr ⟨_, _, hstep⟩
  | reads => exact .inl (p.with_loop_parts _).2.2.1
  | learns | takes | meetsEnd | writes | flushes | stops | wrapsUp => exact .inl rfl

/-- What the turns of a persister keep is kept by turns in whatever order. -/
theorem run_keeps {P : Persister → Prop}
    (hstep : ∀ q r seen event, P q → q.step c.interval seen event = some r → P r)
    (h : P p.persister) {turns : List Turn} (hrun : p.run c turns = some after) :
    P after.persister := by
  induction turns generalizing p with
  | nil =>
      obtain rfl := Option.some.inj hrun
      exact h
  | cons turn rest ih =>
      rw [run, List.foldlM_cons] at hrun
      obtain ⟨between, hturn, hrest⟩ := Option.bind_eq_some_iff.mp hrun
      refine ih ?_ hrest
      rcases step_persister hturn with heq | ⟨seen, event, hpersist⟩
      · exact heq ▸ h
      · exact hstep _ _ seen event h hpersist

/-- A pipeline can break exactly if there is no time between the ticks of its persister. -/
theorem breaks_iff_no_interval (c : PipelineContext) (channel : Channel Record) :
    (c.pipeline channel).Breaks c ↔ c.interval = 0 := by
  constructor
  · rintro ⟨turns, after, hrun, hbroken⟩
    by_cases hzero : c.interval = 0
    · exact hzero
    · refine absurd hbroken (run_keeps (P := fun q => q.control ≠ .broken) ?_ ?_ hrun)
      · exact fun q r seen event _ hstep hbroken => hzero (Persister.step_breaks hstep hbroken).2
      · exact nofun
  · intro hzero
    refine ⟨[.persist .next], _, rfl, ?_⟩
    simp [hzero]

/-- Without time between its ticks a persister never saves anything. -/
theorem idle_of_no_interval (hzero : c.interval = 0) {turns : List Turn}
    (hrun : (c.pipeline channel).run c turns = some after) :
    after.persister.IsIdle c.feed.start := by
  refine run_keeps (P := Persister.IsIdle c.feed.start) ?_ ⟨rfl, .inl rfl⟩ hrun
  intro q r seen event hidle hstep
  rw [hzero] at hstep
  exact hidle.step hstep

end Pipeline

namespace Channel

variable {α : Type}

/-- There is a channel of every capacity but zero and those beyond the largest. -/
theorem create_iff {capacity : Nat} :
    (∃ c : Channel α, create capacity = .ok c) ↔ capacity ≠ 0 ∧ capacity ≤ largestCapacity := by
  unfold create
  split
  · simp [*]
  · split
    · simp [*]
    · rename_i hzero hlarge
      exact iff_of_true ⟨_, rfl⟩ ⟨hzero, Nat.le_of_not_lt hlarge⟩

end Channel

namespace JobSettings

variable {settings : JobSettings}

/-- Valid settings have room for a record and some duration between the ticks of the persister. -/
theorem validate_facts (h : settings.validate = .ok ()) :
    settings.channelCapacity ≠ 0 ∧ ∃ millis, settings.checkpointMillis = .ok millis := by
  unfold validate at h
  dsimp only at h
  split at h
  · exact absurd h nofun
  · split at h
    · exact absurd h nofun
    · rename_i hcapacity
      obtain ⟨_, -, h⟩ := Except.bind_eq_ok.mp h
      obtain ⟨millis, hmillis, -⟩ := Except.bind_eq_ok.mp h
      exact ⟨hcapacity, millis, hmillis⟩

/-- The time between the ticks is what the text of the settings says. -/
theorem checkpoint_millis_iff {millis : Nat} :
    settings.checkpointMillis = .ok millis ↔
      Duration.read settings.checkpointInterval = .ok millis := by
  unfold checkpointMillis inContext
  simp

/-- A job that starts has the channel and the ticks that its settings ask for. -/
theorem start_facts {σ : Type} {s : Surroundings σ} {world : σ} {job : Job σ}
    (h : (Job.start s settings world).1 = .ok job) :
    settings.checkpointMillis = .ok job.context.interval ∧
      ∃ channel, Channel.create settings.channelCapacity = .ok channel ∧
        job.pipeline = job.context.pipeline channel := by
  unfold Job.start at h
  split at h
  · exact absurd h (by simp)
  · split at h
    · exact absurd h (by simp)
    · split at h
      · exact absurd h (by simp)
      · split at h
        · exact absurd h (by simp)
        · rename_i channel hchannel
          rw [Except.map_error_eq_ok] at h
          obtain ⟨context, connection, hinterval, -, -, rfl⟩ := Job.assemble_eq_ok h
          exact ⟨hinterval, channel, hchannel, rfl⟩

/-- A job with valid settings breaks for two reasons only. It gets no channel if the capacity is
beyond the largest. And it has a duration between the ticks of its persister, with which a
pipeline breaks in some order of turns exactly if the text of the duration spells zero; then the
persister never saves anything. These are the channel and the pipeline of every job that starts
with the settings. -/
theorem breaks_iff (hvalid : settings.validate = .ok ()) :
    ((∃ channel : Channel Record, Channel.create settings.channelCapacity = .ok channel) ↔
      settings.channelCapacity ≤ Channel.largestCapacity) ∧
    (∃ millis, settings.checkpointMillis = .ok millis ∧
      ∀ (c : PipelineContext) (channel : Channel Record), c.interval = millis →
        ((c.pipeline channel).Breaks c ↔
          Number.SpellsZero (Duration.numberOf settings.checkpointInterval)) ∧
        (Number.SpellsZero (Duration.numberOf settings.checkpointInterval) →
          ∀ turns after, (c.pipeline channel).run c turns = some after →
            after.persister.IsIdle c.feed.start)) ∧
    ∀ {σ : Type} (s : Surroundings σ) (world : σ) (job : Job σ),
      (Job.start s settings world).1 = .ok job →
        settings.checkpointMillis = .ok job.context.interval ∧
          ∃ channel, Channel.create settings.channelCapacity = .ok channel ∧
            job.pipeline = job.context.pipeline channel := by
  obtain ⟨hcapacity, millis, hmillis⟩ := validate_facts hvalid
  refine ⟨?_, ⟨millis, hmillis, ?_⟩, fun s world job => start_facts⟩
  · rw [Channel.create_iff]
    exact and_iff_right hcapacity
  · intro c channel hinterval
    have hzero : Number.SpellsZero (Duration.numberOf settings.checkpointInterval) ↔
        c.interval = 0 := by
      rw [← Duration.read_eq_zero_iff, checkpoint_millis_iff.mp hmillis, hinterval,
        Except.ok.injEq]
    rw [hzero]
    exact ⟨Pipeline.breaks_iff_no_interval c channel,
      fun h turns after => Pipeline.idle_of_no_interval h⟩

/-- The settings of a job of orders that looks at what is to be saved every second. -/
def ofOrders : JobSettings :=
  ofSource "orders" (.standard "postgres://app@localhost/shop")

/-- A job that looks at what is to be saved every second does not break. -/
theorem breaks_iff_orders :
    ofOrders.validate = .ok () ∧
      (∃ channel : Channel Record, Channel.create ofOrders.channelCapacity = .ok channel) ∧
      ∃ millis, ofOrders.checkpointMillis = .ok millis ∧
        ∀ (c : PipelineContext) (channel : Channel Record), c.interval = millis →
          ¬(c.pipeline channel).Breaks c := by
  have hvalid : ofOrders.validate = .ok () := rfl
  obtain ⟨hchannel, ⟨millis, hmillis, hbreaks⟩, -⟩ := breaks_iff hvalid
  refine ⟨hvalid, hchannel.mpr (by decide), millis, hmillis, ?_⟩
  intro c channel hinterval
  have hsecond : ofOrders.checkpointMillis = .ok 1000 := rfl
  rw [(hbreaks c channel hinterval).1, ← Duration.read_eq_zero_iff,
    checkpoint_millis_iff.mp hsecond]
  simp

/-- Settings are valid with which the persister breaks in its first turn, and others for which
there is no channel. -/
theorem valid_and_breaks :
    { ofOrders with checkpointInterval := "0s" }.validate = .ok () ∧
      { ofOrders with checkpointInterval := "0s" }.checkpointMillis = .ok 0 ∧
      (∀ (c : PipelineContext) (channel : Channel Record), c.interval = 0 →
        ∃ after, (c.pipeline channel).run c [.persist .next] = some after ∧
          after.persister.outcome? = some .broken) ∧
      { ofOrders with channelCapacity := 2 ^ 61 }.validate = .ok () ∧
      Channel.create (α := Record) (2 ^ 61) = .error .tooLarge := by
  refine ⟨rfl, rfl, ?_, rfl, rfl⟩
  intro c channel hzero
  refine ⟨_, rfl, ?_⟩
  simp [Persister.outcome?, hzero]

end JobSettings

end ChangeFeed
