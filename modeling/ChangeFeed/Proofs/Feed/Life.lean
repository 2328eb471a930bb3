import ChangeFeed.Proofs.Feed.Outcome

/-!
# The life of a feed

The states that an observer of a feed sees change along the edges of a graph (`Lifecycle.Passes`),
with any number of calls for a stop, their halves anywhere between the turns of the read loop.
`History.Lives` says what a state says about the loop and about the calls; read
`History.lives_of_extend` first.
-/

namespace ChangeFeed

namespace Lifecycle

/-- The life of a feed that reads, after a number of failures in a row. -/
def alive : Nat → Lifecycle
  | 0 => .running
  | failures + 1 => .reconnecting (failures + 1)

/-- The changes of the life of a feed, and what brings them. -/
inductive Passes (maxAttempts : Nat) : Incident → Lifecycle → Lifecycle → Prop
  | stays (incident : Incident) (life : Lifecycle) : Passes maxAttempts incident life life
  | fails_first (event : LoopEvent) (hbound : 1 < maxAttempts) :
      Passes maxAttempts (.turn event) .running (.reconnecting 1)
  | fails_again (event : LoopEvent) (k : Nat) (hk : 1 ≤ k) (hbound : k + 1 < maxAttempts) :
      Passes maxAttempts (.turn event) (.reconnecting k) (.reconnecting (k + 1))
  /-- Only a poll that succeeds makes a feed run again. -/
  | recovers (result : Option Message) (k : Nat) (hk : 1 ≤ k) (hbound : k < maxAttempts) :
      Passes maxAttempts (.turn (.polled (.ok result))) (.reconnecting k) .running
  /-- Only a call for a stop makes a feed stop. -/
  | asked (life : Lifecycle) (hactive : life.isActive = true) :
      Passes maxAttempts .mark life .stopping
  | stops (event : LoopEvent) : Passes maxAttempts (.turn event) .stopping .stopped
  | breaks (event : LoopEvent) (life : Lifecycle)
      (hlive : life.isActive = true ∨ life = .stopping) :
      Passes maxAttempts (.turn event) life .failed

/-- A feed that is alive is active. -/
theorem active_alive (failures : Nat) : (alive failures).isActive = true := by
  cases failures <;> rfl

/-- A feed that is alive moves on freely. -/
theorem move_to_of_alive (next : Lifecycle) (failures : Nat) :
    next.moveTo (alive failures) = next := by
  cases failures <;> simp [moveTo, alive]

/-- A feed that stops does not become active again. -/
theorem move_to_of_stopping {next : Lifecycle} (h : next.isActive = true) :
    next.moveTo .stopping = .stopping := by
  simp [moveTo, h]

/-- A call for a stop makes a feed stop that is alive. -/
theorem ask_of_alive (failures : Nat) : (alive failures).askToStop = .stopping := by
  simp [askToStop, active_alive]

end Lifecycle

namespace History

/-- What the life of a feed says about its loop and about the calls for a stop. -/
inductive Lives (h : History) : Prop
  /-- Nobody has marked the feed. -/
  | active (hlife : h.feed.loop.lifecycle = .alive h.feed.loop.failures)
      (hcontrol : ∀ result, h.feed.loop.control ≠ .finished result) (hcalls : h.calls = 0)
      (hstop : h.feed.loop.stopAsked = false)
  | stopping (hlife : h.feed.loop.lifecycle = .stopping)
      (hcontrol : ∀ result, h.feed.loop.control ≠ .finished result)
  | stopped (hlife : h.feed.loop.lifecycle = .stopped) (p : Position)
      (hcontrol : h.feed.loop.control = .finished (.ok p)) (hstop : h.feed.loop.stopAsked = true)
  | failed (hlife : h.feed.loop.lifecycle = .failed) (fault : FeedFault)
      (hcontrol : h.feed.loop.control = .finished (.error fault))

variable {c : FeedContext} {h h' : History}

/-- A loop that has ended is stopped at a position or has failed. -/
theorem Lives.ended_facts {result : Except FeedFault Position} (hl : h.Lives)
    (hcontrol : h.feed.loop.control = .finished result) :
    (∃ p, result = .ok p ∧ h.feed.loop.lifecycle = .stopped) ∨
      ∃ fault, result = .error fault ∧ h.feed.loop.lifecycle = .failed := by
  cases hl with
  | active _ hrunning => exact absurd hcontrol (hrunning result)
  | stopping _ hrunning => exact absurd hcontrol (hrunning result)
  | stopped hlife p hfinished =>
      exact .inl ⟨p, Control.finished.inj (hcontrol.symm.trans hfinished), hlife⟩
  | failed hlife fault hfinished =>
      exact .inr ⟨fault, Control.finished.inj (hcontrol.symm.trans hfinished), hlife⟩

/-- A feed whose loop stays as it is lives on. -/
theorem Lives.same (hl : h.Lives) (hcalls : h'.calls = h.calls)
    (hloop : h'.feed.loop = h.feed.loop) : h'.Lives := by
  cases hl with
  | active halive hrunning hnone hnot =>
      exact .active (hloop ▸ halive) (hloop ▸ hrunning) (hcalls.trans hnone) (hloop ▸ hnot)
  | stopping hstopping hrunning => exact .stopping (hloop ▸ hstopping) (hloop ▸ hrunning)
  | stopped hstopped p hfinished hstop =>
      exact .stopped (hloop ▸ hstopped) p (hloop ▸ hfinished) (hloop ▸ hstop)
  | failed hfailed fault hfinished =>
      exact .failed (hloop ▸ hfailed) fault (hloop ▸ hfinished)

/-! ## One turn -/

/-- A loop that has not ended is alive or stops. -/
theorem Lives.live_facts (hl : h.Lives)
    (hcontrol : ∀ result, h.feed.loop.control ≠ .finished result) :
    (h.feed.loop.lifecycle = .alive h.feed.loop.failures ∧ h.calls = 0 ∧
      h.feed.loop.stopAsked = false) ∨ h.feed.loop.lifecycle = .stopping := by
  cases hl with
  | active hlife _ hcalls hstop => exact .inl ⟨hlife, hcalls, hstop⟩
  | stopping hlife => exact .inr hlife
  | stopped _ p hfinished => exact absurd hfinished (hcontrol _)
  | failed _ fault hfinished => exact absurd hfinished (hcontrol _)

/-- Where a turn keeps the life of the loop and does not end it, the feed lives on. -/
theorem Lives.keeps (hl : h.Lives) (hcalls : h'.calls = h.calls)
    (hbefore : ∀ result, h.feed.loop.control ≠ .finished result)
    (hafter : ∀ result, h'.feed.loop.control ≠ .finished result)
    (hkeeps : h.feed.loop.KeepsLife h'.feed.loop) : h'.Lives := by
  obtain ⟨hfailures, hlife, hstop⟩ := hkeeps
  rcases hl.live_facts hbefore with ⟨halive, hzero, hnot⟩ | hstopping
  · exact .active (by rw [hlife, hfailures, halive]) hafter (hcalls.trans hzero) (hstop.trans hnot)
  · exact .stopping (hlife.trans hstopping) hafter

/-- A poll that succeeded makes a feed that waited for it run again. -/
theorem Lives.recovers (hl : h.Lives) (hs : h.Stands c) (hcalls : h'.calls = h.calls)
    {confirmed : Position} (hpolling : h.feed.loop.control = .polling confirmed)
    (hafter : ∀ result, h'.feed.loop.control ≠ .finished result)
    (hkeeps : h.feed.loop.recover.KeepsLife h'.feed.loop) (result : Option Message) :
    h'.Lives ∧ Lifecycle.Passes c.settings.reconnect.maxAttempts (.turn (.polled (.ok result)))
      h.feed.loop.lifecycle h'.feed.loop.lifecycle := by
  obtain ⟨hfailures, hlife, hstop⟩ := hkeeps
  obtain ⟨hzero, hasked, hrecover⟩ := h.feed.loop.recover_spec
  obtain ⟨-, -, hbound⟩ := hs.under_way_facts (hpolling ▸ trivial)
  rw [hzero] at hfailures
  rw [hasked] at hstop
  have hlive := hl.live_facts (by simp [hpolling])
  cases hcount : h.feed.loop.failures with
  | zero =>
      have hsame : h'.feed.loop.lifecycle = h.feed.loop.lifecycle := by
        rw [hlife, hrecover, if_pos hcount]
      rcases hlive with ⟨halive, hnone, hnot⟩ | hstopping
      · rw [hcount] at halive
        exact ⟨.active (by rw [hsame, halive, hfailures]) hafter (hcalls.trans hnone)
          (hstop.trans hnot), hsame ▸ .stays _ _⟩
      · exact ⟨.stopping (hsame.trans hstopping) hafter, hsame ▸ .stays _ _⟩
  | succ k =>
      rw [hrecover, if_neg (by omega)] at hlife
      rcases hlive with ⟨halive, hnone, hnot⟩ | hstopping
      · rw [halive, Lifecycle.move_to_of_alive] at hlife
        refine ⟨.active (by rw [hlife, hfailures]; rfl) hafter (hcalls.trans hnone)
          (hstop.trans hnot), ?_⟩
        rw [halive, hlife, hcount]
        unfold FeedContext.limit at hbound
        exact .recovers result (k + 1) (by omega) (by omega)
      · -- A feed that stops goes on stopping, though its session works again.
        rw [hstopping, Lifecycle.move_to_of_stopping rfl] at hlife
        exact ⟨.stopping hlife hafter, by rw [hlife, hstopping]; exact .stays _ _⟩

/-- A failure of a session makes a feed reconnect or fail. -/
theorem Lives.shakes (hl : h.Lives) (hcalls : h'.calls = h.calls) {fault : SessionFault}
    (hbefore : ∀ result, h.feed.loop.control ≠ .finished result)
    (hloop : h'.feed.loop = h.feed.loop.shake c.settings.reconnect fault) (event : LoopEvent) :
    h'.Lives ∧ Lifecycle.Passes c.settings.reconnect.maxAttempts (.turn event)
      h.feed.loop.lifecycle h'.feed.loop.lifecycle := by
  have hlive := hl.live_facts hbefore
  obtain ⟨hfailures, hstop, hend⟩ := h.feed.loop.shake_spec c.settings.reconnect fault
  rw [← hloop] at hfailures hstop hend
  rcases hend with ⟨-, hcontrol, hlife⟩ | ⟨hbound, hcontrol, hlife⟩
  · refine ⟨.failed hlife _ hcontrol, hlife ▸ .breaks event _ ?_⟩
    rcases hlive with ⟨halive, -⟩ | hstopping
    · exact .inl (halive ▸ Lifecycle.active_alive _)
    · exact .inr hstopping
  · have hafter : ∀ result, h'.feed.loop.control ≠ .finished result := by simp [hcontrol]
    rcases hlive with ⟨halive, hnone, hnot⟩ | hstopping
    · rw [halive, Lifecycle.move_to_of_alive] at hlife
      refine ⟨.active (by rw [hlife, hfailures]; rfl) hafter (hcalls.trans hnone)
        (hstop.trans hnot), ?_⟩
      rw [halive, hlife]
      cases hcount : h.feed.loop.failures with
      | zero => exact .fails_first event (by omega)
      | succ k => exact .fails_again event (k + 1) (by omega) (by omega)
    · rw [hstopping, Lifecycle.move_to_of_stopping rfl] at hlife
      exact ⟨.stopping hlife hafter, by rw [hlife, hstopping]; exact .stays _ _⟩

/-- A loop that ends on request stops its feed. -/
theorem Lives.finishes (hl : h.Lives) (hstop : h.feed.loop.stopAsked = true)
    (hbefore : ∀ result, h.feed.loop.control ≠ .finished result)
    (hloop : h'.feed.loop = h.feed.loop.finish) (event : LoopEvent) :
    h'.Lives ∧ Lifecycle.Passes c.settings.reconnect.maxAttempts (.turn event)
      h.feed.loop.lifecycle h'.feed.loop.lifecycle := by
  have hlife : h'.feed.loop.lifecycle = .stopped := by
    rw [hloop]
    exact Lifecycle.move_to_stopped _
  rcases hl.live_facts hbefore with ⟨-, -, hnot⟩ | hstopping
  · exact absurd (hnot.symm.trans hstop) (by simp)
  · exact ⟨.stopped hlife h.feed.loop.position (by rw [hloop]; rfl) (by rw [hloop]; exact hstop),
      by rw [hlife, hstopping]; exact .stops event⟩

/-- Every turn takes the life of a feed along the graph. -/
theorem Lives.turns {event : LoopEvent} {durable : Option Position} {after : Loop}
    (hl : h.Lives) (hs : h.Stands c) (hcalls : h'.calls = h.calls)
    (hturn : h.feed.loop.Turns c durable event after) (hloop : h'.feed.loop = after) :
    h'.Lives ∧ Lifecycle.Passes c.settings.reconnect.maxAttempts (.turn event)
      h.feed.loop.lifecycle h'.feed.loop.lifecycle := by
  -- Most rules keep the life of the loop and come to no end.
  have hstays : (∀ result, h.feed.loop.control ≠ .finished result) →
      (∀ result, h'.feed.loop.control ≠ .finished result) →
      h.feed.loop.KeepsLife h'.feed.loop → h'.Lives ∧
        Lifecycle.Passes c.settings.reconnect.maxAttempts (.turn event)
          h.feed.loop.lifecycle h'.feed.loop.lifecycle := by
    intro hbefore hafter hkeeps
    exact ⟨hl.keeps hcalls hbefore hafter hkeeps, hkeeps.2.1 ▸ .stays _ _⟩
  cases hturn with
  | goes hevent hbefore hafter hwaits hstopped hkeeps =>
      exact hstays hbefore.not_finished (hloop ▸ hafter.not_finished) (hloop ▸ hkeeps)
  | leaves hevent hbefore hrank hstop =>
      exact hstays hbefore.under_way.not_finished (by simp [hloop, Loop.leave, Loop.goTo])
        (by rw [hloop]; exact h.feed.loop.keeps_life_go_to _)
  | refused hbefore =>
      exact hstays (by simp [hbefore]) (by simp [hloop, Loop.goTo])
        (by rw [hloop]; exact h.feed.loop.keeps_life_go_to _)
  | breaks fault hevent hbefore hrank =>
      exact hstays hbefore.under_way.not_finished (by simp [hloop, Loop.goTo])
        (by rw [hloop]; exact h.feed.loop.keeps_life_go_to _)
  | recovers result hbefore hreceive hafter hwaits hrank hkeeps =>
      exact hl.recovers hs hcalls hbefore (hloop ▸ hafter.not_finished) (hloop ▸ hkeeps) result
  | rejects m fault hbefore hreceive =>
      exact hl.recovers hs hcalls hbefore (by simp [hloop, Loop.goTo])
        (by rw [hloop]; exact h.feed.loop.recover.keeps_life_go_to _) (some m)
  | unopened fault hbefore => exact hl.shakes hcalls (by simp [hbefore]) hloop _
  | shakes fault closed hbefore => exact hl.shakes hcalls (by simp [hbefore]) hloop _
  | finishes hevent hbefore hstop =>
      exact hl.finishes hstop hbefore.under_way.not_finished hloop event
  | closes closed hbefore =>
      obtain ⟨-, -, -, hstop⟩ := hs.leaves_facts hbefore
      exact hl.finishes hstop (by simp [hbefore]) hloop _
  | fails fault closed hother hbefore =>
      have hlife : h'.feed.loop.lifecycle = .failed := by
        rw [hloop]
        exact Lifecycle.move_to_failed _
      refine ⟨.failed hlife fault (by rw [hloop]; rfl), hlife ▸ .breaks _ _ ?_⟩
      rcases hl.live_facts (by simp [hbefore]) with ⟨halive, -⟩ | hstopping
      · exact .inl (halive ▸ Lifecycle.active_alive _)
      · exact .inr hstopping

/-! ## Calls for a stop -/

/-- The first half of a call makes a feed stop that is alive. -/
theorem Lives.marks (hl : h.Lives) (hloop : h'.feed.loop = h.feed.loop.mark) :
    h'.Lives ∧ Lifecycle.Passes c.settings.reconnect.maxAttempts .mark
      h.feed.loop.lifecycle h'.feed.loop.lifecycle := by
  have hlife : h'.feed.loop.lifecycle = h.feed.loop.lifecycle.askToStop := by rw [hloop]; rfl
  have hcontrol : h'.feed.loop.control = h.feed.loop.control := by rw [hloop]; rfl
  cases hl with
  | active halive hrunning hnone hnot =>
      rw [halive, Lifecycle.ask_of_alive] at hlife
      refine ⟨.stopping hlife (hcontrol ▸ hrunning), ?_⟩
      rw [hlife, halive]
      exact .asked _ (Lifecycle.active_alive _)
  | stopping hstopping hrunning =>
      rw [hstopping] at hlife
      exact ⟨.stopping hlife (hcontrol ▸ hrunning), by rw [hlife, hstopping]; exact .stays _ _⟩
  | stopped hstopped p hfinished hstop =>
      rw [hstopped] at hlife
      exact ⟨.stopped hlife p (hcontrol.trans hfinished) (by rw [hloop]; exact hstop),
        by rw [hlife, hstopped]; exact .stays _ _⟩
  | failed hfailed fault hfinished =>
      rw [hfailed] at hlife
      exact ⟨.failed hlife fault (hcontrol.trans hfinished),
        by rw [hlife, hfailed]; exact .stays _ _⟩

/-- The second half of a call changes nothing of the life of a feed. -/
theorem Lives.signals (hl : h.Lives) (hcalls : h.calls ≠ 0)
    (hloop : h'.feed.loop = h.feed.loop.signal) :
    h'.Lives ∧ h'.feed.loop.lifecycle = h.feed.loop.lifecycle := by
  have hlife : h'.feed.loop.lifecycle = h.feed.loop.lifecycle := by rw [hloop]; rfl
  have hcontrol : h'.feed.loop.control = h.feed.loop.control := by rw [hloop]; rfl
  refine ⟨?_, hlife⟩
  cases hl with
  | active halive hrunning hnone hnot => exact absurd hnone hcalls
  | stopping hstopping hrunning => exact .stopping (hlife.trans hstopping) (hcontrol ▸ hrunning)
  | stopped hstopped p hfinished hstop =>
      exact .stopped (hlife.trans hstopped) p (hcontrol.trans hfinished) (by rw [hloop]; rfl)
  | failed hfailed fault hfinished =>
      exact .failed (hlife.trans hfailed) fault (hcontrol.trans hfinished)

/-- Every incident takes the life of a feed along the graph. -/
theorem lives_of_extend {incident : Incident} (hextend : h.extend c incident = some h')
    (hl : h.Lives) (hs : h.Stands c) :
    h'.Lives ∧ Lifecycle.Passes c.settings.reconnect.maxAttempts incident
      h.feed.loop.lifecycle h'.feed.loop.lifecycle := by
  obtain ⟨hcalls, hhappens, -⟩ := extend_facts hextend
  generalize hfeed : h'.feed = g at hhappens
  cases hhappens with
  | turns hstep hhears =>
      have hsame : h'.calls = h.calls := (Option.some.inj hcalls).symm
      rw [← hfeed]
      exact hl.turns hs hsame (Loop.turns_of_step hstep) (by rw [hfeed]; rfl)
  | outside hturn hnocall hloop hpublished hpushed hsteps =>
      have hsame : h'.calls = h.calls := by
        cases incident with
        | mark => exact absurd rfl hnocall.1
        | signal => exact absurd rfl hnocall.2
        | _ => exact (Option.some.inj hcalls).symm
      rw [hloop]
      exact ⟨hl.same hsame (hfeed ▸ hloop), .stays _ _⟩
  | marks =>
      rw [← hfeed]
      exact hl.marks (by rw [hfeed])
  | signals =>
      -- Only a call that has marked the feed before comes to its second half.
      have hsome : h.calls ≠ 0 := by
        intro hzero
        rw [hzero] at hcalls
        exact absurd hcalls (by simp [Incident.callsAfter])
      have hloop : h'.feed.loop = h.feed.loop.signal := by rw [hfeed]
      obtain ⟨hlives, hlife⟩ := hl.signals hsome hloop
      rw [← hfeed, hlife]
      exact ⟨hlives, .stays _ _⟩

/-- A feed that starts is active. -/
theorem lives_start (c : FeedContext) (capacity : Nat) (durable : Option Position) :
    (c.history capacity durable).Lives :=
  .active rfl (Control.UnderWay.not_finished (trivial : Control.UnderWay .starting)) rfl rfl

/-- Whatever has happened to a feed, its life is that of its loop. -/
theorem lives_of_run {capacity : Nat} {durable : Option Position} {incidents : List Incident}
    (hrun : (c.history capacity durable).run c incidents = some h) : h.Stands c ∧ h.Lives := by
  refine run_keeps (P := fun h => h.Stands c ∧ h.Lives) ?_ ?_ hrun
  · rintro h incident h' - hextend ⟨hs, hl⟩
    exact ⟨stands_of_extend hextend hs, (lives_of_extend hextend hl hs).1⟩
  · exact ⟨stands_start c capacity durable, lives_start c capacity durable⟩

end History

end ChangeFeed
