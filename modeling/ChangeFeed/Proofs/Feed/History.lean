import ChangeFeed.Proofs.Feed.Trail
import ChangeFeed.Proofs.Feed.Turn

/-!
# Histories of a feed

What happens to a feed, one incident after the other, with the feed before and after each: turns of
its read loop, the other side of its channel, positions that become durable, and calls that ask for
a stop. Such a call marks the life of the feed first and tells the loop then (`Loop.signal_mark`),
and anything may happen in between, other calls included. Every incident of a history has taken
place (`Feed.happens_of_happen`); what each of them keeps, every history keeps (`History.run_keeps`).
-/

namespace ChangeFeed

/-- What can happen to a feed. -/
inductive Incident where
  /-- The read loop goes on with an answer of the world. -/
  | turn (event : LoopEvent)
  /-- The receiver takes a record if there is one. -/
  | receive
  /-- The receiver takes nothing more in. -/
  | close
  /-- The receiver goes. -/
  | drop
  /-- Another position becomes durable. -/
  | persist (position : Position)
  /-- A call for a stop marks the life of the feed. -/
  | mark
  /-- The same call tells the loop and returns. -/
  | signal

namespace Loop

/-- The first half of a call for a stop. -/
def mark (loop : Loop) : Loop :=
  { loop with lifecycle := loop.lifecycle.askToStop }

/-- The second half of a call for a stop. -/
def signal (loop : Loop) : Loop :=
  { loop with stopAsked := true }

/-- The two halves are the call. -/
theorem signal_mark (loop : Loop) : loop.mark.signal = loop.stop :=
  rfl

end Loop

namespace Feed

/-- Whether the read loop can hear an answer: how its push went is told by the channel. -/
def hears (f : Feed) : LoopEvent → Bool
  | .pushed taken =>
    match f.channel.lastPush? with
    | some .pushed => taken
    | some .closed => !taken
    | _ => false
  | _ => true

/-- The feed after an incident, if it can take place. -/
def happen (c : FeedContext) (f : Feed) : Incident → Option Feed
  | .turn event =>
    if f.hears event then (f.loop.step c f.durable event).map (f.advance event) else none
  | .receive => some (f.step c .receive)
  | .close => some (f.step c .close)
  | .drop => some (f.step c .drop)
  | .persist position => some (f.step c (.persist position))
  | .mark => some { f with loop := f.loop.mark }
  | .signal => some { f with loop := f.loop.signal }

/-- The rules for what happens to a feed. -/
inductive Happens (c : FeedContext) (f : Feed) : Incident → Feed → Prop
  | turns {event : LoopEvent} {after : Loop} (hstep : f.loop.step c f.durable event = some after)
      (hhears : f.Hears event) : Happens c f (.turn event) (f.advance event after)
  /-- Something happens outside of the read loop. -/
  | outside {incident : Incident} {after : Feed} (hturn : ∀ event, incident ≠ .turn event)
      (hcalls : incident ≠ .mark ∧ incident ≠ .signal) (hloop : after.loop = f.loop)
      (hpublished : Trail.published after.trail = Trail.published f.trail)
      (hpushed : Trail.pushed after.trail = Trail.pushed f.trail)
      (hsteps : Steps c f after) : Happens c f incident after
  | marks : Happens c f .mark { f with loop := f.loop.mark }
  | signals : Happens c f .signal { f with loop := f.loop.signal }

variable {c : FeedContext} {f g : Feed} {incident : Incident}

/-- What the read loop can hear of a push is how the push went. -/
theorem hears_of_hears {event : LoopEvent} (h : f.hears event = true) : f.Hears event := by
  rintro taken rfl
  rw [hears] at h
  split at h
  · rename_i hlast
    rw [hlast, h]
    rfl
  · rename_i hlast
    obtain rfl : taken = false := by simpa using h
    exact hlast
  · exact absurd h (by simp)

/-- What the other side of the channel does leaves alone the loop and what it has pushed and
published. -/
theorem step_outside {move : FeedMove}
    (h : move = .receive ∨ move = .close ∨ move = .drop ∨ ∃ p, move = .persist p) :
    (f.step c move).loop = f.loop ∧
      Trail.published (f.step c move).trail = Trail.published f.trail ∧
      Trail.pushed (f.step c move).trail = Trail.pushed f.trail := by
  rcases h with rfl | rfl | rfl | ⟨p, rfl⟩
  · rw [step]
    split
    · exact ⟨rfl, by simp [Trail.published], by simp [Trail.pushed]⟩
    · exact ⟨rfl, rfl, rfl⟩
  · exact ⟨rfl, rfl, rfl⟩
  · exact ⟨rfl, by simp [step, Trail.published], by simp [step, Trail.pushed]⟩
  · exact ⟨rfl, rfl, rfl⟩

/-- What happens follows the rules. -/
theorem happens_of_happen (h : f.happen c incident = some g) : Happens c f incident g := by
  unfold happen at h
  split at h
  · split at h
    · rename_i hhears
      obtain ⟨after, hstep, rfl⟩ := Option.map_eq_some_iff.mp h
      exact .turns hstep (hears_of_hears hhears)
    · exact absurd h (by simp)
  · obtain rfl := Option.some.inj h
    obtain ⟨hloop, hpublished, hpushed⟩ := f.step_outside (c := c) (.inl rfl)
    exact .outside (by simp) (by simp) hloop hpublished hpushed (steps_of_step c f .receive)
  · obtain rfl := Option.some.inj h
    obtain ⟨hloop, hpublished, hpushed⟩ := f.step_outside (c := c) (.inr (.inl rfl))
    exact .outside (by simp) (by simp) hloop hpublished hpushed (steps_of_step c f .close)
  · obtain rfl := Option.some.inj h
    obtain ⟨hloop, hpublished, hpushed⟩ := f.step_outside (c := c) (.inr (.inr (.inl rfl)))
    exact .outside (by simp) (by simp) hloop hpublished hpushed (steps_of_step c f .drop)
  · rename_i p
    obtain rfl := Option.some.inj h
    obtain ⟨hloop, hpublished, hpushed⟩ := f.step_outside (c := c) (.inr (.inr (.inr ⟨p, rfl⟩)))
    exact .outside (by simp) (by simp) hloop hpublished hpushed (steps_of_step c f (.persist p))
  · obtain rfl := Option.some.inj h
    exact .marks
  · obtain rfl := Option.some.inj h
    exact .signals

end Feed

/-- An incident with the feed before and after it. -/
structure Entry where
  before : Feed
  incident : Incident
  after : Feed

/-- A feed with all that has happened to it. -/
structure History where
  feed : Feed
  /-- The calls for a stop that have marked the feed and not yet told its loop. -/
  calls : Nat
  entries : List Entry

namespace FeedContext

/-- The history of a feed that starts. -/
def history (c : FeedContext) (capacity : Nat) (durable : Option Position) : History :=
  ⟨c.feed capacity durable, 0, []⟩

end FeedContext

/-- The calls for a stop that are half done after an incident. None can tell the loop that has not
marked the feed. -/
def Incident.callsAfter : Incident → Nat → Option Nat
  | .mark, calls => some (calls + 1)
  | .signal, 0 => none
  | .signal, calls + 1 => some calls
  | _, calls => some calls

/-- The failed opens, polls and confirms in a row after an incident, the latest first. A poll that
succeeds ends the row, and how a session was closed does not count. -/
def Incident.failuresAfter (faults : List SessionFault) : Incident → List SessionFault
  | .turn (.opened (.error fault)) => fault :: faults
  | .turn (.confirmed (.error fault)) => fault :: faults
  | .turn (.polled (.error fault)) => fault :: faults
  | .turn (.polled (.ok _)) => []
  | _ => faults

namespace Entry

/-- The fault that an incident brings and that no new session overcomes: the channel does not take
a batch, or a message cannot be read or converted. -/
def fault? (c : FeedContext) (e : Entry) : Option FeedFault :=
  match e.incident with
  | .turn (.pushed false) => some .channelClosed
  | .turn (.polled (.ok (some m))) =>
    match c.receive e.before.loop m with
    | .error fault => some fault
    | .ok _ => none
  | _ => none

/-- The read loop starts to open a session. -/
def opens (e : Entry) : Bool :=
  match e.before.loop.control, e.after.loop.control with
  | .opening _, _ => false
  | _, .opening _ => true
  | _, _ => false

/-- The read loop starts to poll. -/
def polls (e : Entry) : Bool :=
  match e.before.loop.control, e.after.loop.control with
  | .polling _, _ => false
  | _, .polling _ => true
  | _, _ => false

end Entry

namespace History

/-- The history with another incident, if that can take place. -/
def extend (c : FeedContext) (h : History) (incident : Incident) : Option History := do
  let calls ← incident.callsAfter h.calls
  let after ← h.feed.happen c incident
  return ⟨after, calls, h.entries ++ [⟨h.feed, incident, after⟩]⟩

/-- The history with a sequence of incidents, if they can take place one after the other. -/
def run (c : FeedContext) (h : History) (incidents : List Incident) : Option History :=
  incidents.foldlM (extend c) h

/-- The failures of sessions since the last poll that succeeded, the latest first. -/
def streak (h : History) : List SessionFault :=
  h.entries.foldl (fun faults e => e.incident.failuresAfter faults) []

/-- The first fault that no new session overcomes. -/
def fault? (c : FeedContext) (h : History) : Option FeedFault :=
  h.entries.findSome? (·.fault? c)

/-- How many opens were started. -/
def opens (h : History) : Nat :=
  h.entries.countP (·.opens)

/-- How many polls were started. -/
def polls (h : History) : Nat :=
  h.entries.countP (·.polls)

/-- The position that was published last; at first it is the start. -/
def published (c : FeedContext) (h : History) : Position :=
  (Trail.published h.feed.trail).getLastD c.start

variable {c : FeedContext} {h h' : History} {incident : Incident} {e : Entry}

/-- Another incident extends the row of failures or ends it. -/
theorem streak_concat (hentries : h'.entries = h.entries ++ [e]) :
    h'.streak = e.incident.failuresAfter h.streak := by
  rw [streak, hentries, List.foldl_append]
  rfl

/-- Another incident brings the first fault if there was none. -/
theorem fault_concat (hentries : h'.entries = h.entries ++ [e]) :
    h'.fault? c = (h.fault? c).or (e.fault? c) := by
  rw [fault?, hentries, List.findSome?_append]
  simp [fault?]

/-- Another incident may start an open. -/
theorem opens_concat (hentries : h'.entries = h.entries ++ [e]) :
    h'.opens = h.opens + if e.opens then 1 else 0 := by
  rw [opens, hentries, List.countP_append]
  simp [opens, List.countP_singleton]

/-- Another incident may start a poll. -/
theorem polls_concat (hentries : h'.entries = h.entries ++ [e]) :
    h'.polls = h.polls + if e.polls then 1 else 0 := by
  rw [polls, hentries, List.countP_append]
  simp [polls, List.countP_singleton]

/-- An incident that takes place follows the rules and is recorded. -/
theorem extend_facts (hextend : h.extend c incident = some h') :
    incident.callsAfter h.calls = some h'.calls ∧ h.feed.Happens c incident h'.feed ∧
      h'.entries = h.entries ++ [⟨h.feed, incident, h'.feed⟩] := by
  obtain ⟨calls, hcalls, hextend⟩ := Option.bind_eq_some_iff.mp hextend
  obtain ⟨after, hafter, hextend⟩ := Option.bind_eq_some_iff.mp hextend
  obtain rfl := Option.some.inj hextend
  exact ⟨hcalls, Feed.happens_of_happen hafter, rfl⟩

/-- What every incident keeps, every sequence of incidents keeps. -/
theorem run_keeps {P : History → Prop} {incidents : List Incident}
    (hstep : ∀ h incident h', incident ∈ incidents → h.extend c incident = some h' → P h → P h')
    (hstart : P h) (hrun : h.run c incidents = some h') : P h' := by
  -- The first incident leaves a history that the others start from.
  induction incidents generalizing h with
  | nil => exact Option.some.inj hrun ▸ hstart
  | cons incident rest ih =>
      rw [run, List.foldlM_cons] at hrun
      obtain ⟨next, hnext, hrest⟩ := Option.bind_eq_some_iff.mp hrun
      refine ih ?_ (hstep h incident next List.mem_cons_self hnext hstart) hrest
      intro h incident h' hmem
      exact hstep h incident h' (List.mem_cons_of_mem _ hmem)

/-- A call for a stop tells the loop to stop, and nothing else does. -/
theorem stop_asked_of_extend (hextend : h.extend c incident = some h') :
    h'.feed.loop.stopAsked = true ↔ h.feed.loop.stopAsked = true ∨ incident = .signal := by
  obtain ⟨-, hhappens, -⟩ := extend_facts hextend
  generalize h'.feed = g at hhappens
  cases hhappens with
  | turns hstep hhears =>
      simp [Feed.advance, (Loop.turns_of_step hstep).stop_asked]
  | outside hturn hcalls hloop hpublished hpushed hsteps => simp [hloop, hcalls.2]
  | marks => simp [Loop.mark]
  | signals => simp [Loop.signal]

/-- A loop was told to stop exactly if a call for a stop has returned. -/
theorem stop_asked_iff_of_run {capacity : Nat} {durable : Option Position}
    {incidents : List Incident} (hrun : (c.history capacity durable).run c incidents = some h) :
    h.feed.loop.stopAsked = true ↔ ∃ e ∈ h.entries, e.incident = .signal := by
  refine run_keeps (P := fun h => h.feed.loop.stopAsked = true ↔
    ∃ e ∈ h.entries, e.incident = .signal) ?_ ?_ hrun
  · intro h incident h' _ hextend htold
    obtain ⟨-, -, hentries⟩ := extend_facts hextend
    rw [stop_asked_of_extend hextend, htold, hentries]
    simp
  · simp [FeedContext.history, FeedContext.feed, FeedContext.loop]

end History

end ChangeFeed
