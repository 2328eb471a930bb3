import ChangeFeed.Proofs.Feed.Life
import ChangeFeed.Proofs.Feed.Wholeness

/-!
# Stopping a feed

What an observer sees of a feed is a path from running to its end, and stopping is part of it only
after a call for a stop (`History.lives_and_stops`). Once such a call has returned, the loop starts
no open and no poll, receives at most the message that it was polling for, and hands over what that
completes as a whole or, if the channel is closed, in part. Read `History.StopsInOrder` for the
second half; it rests on `Loop.Turns.rank_lt` and on what a feed sends (`Feed.Sends`).
-/

namespace ChangeFeed

namespace Entry

/-- The message that the loop receives. -/
def message? (e : Entry) : Option Message :=
  match e.incident with
  | .turn (.polled (.ok (some m))) => some m
  | _ => none

/-- The loop starts a push only for a message that completes a batch, and then of all its
records. -/
def HandsWhole (c : FeedContext) (e : Entry) : Prop :=
  match e.message? with
  | none => Trail.pushed e.after.trail = Trail.pushed e.before.trail
  | some m =>
    (∃ buffer batch, c.receive e.before.loop m = .ok (buffer, some batch) ∧
      e.after.trail = e.before.trail ++ [.polled m] ++ [.pushed batch.records]) ∨
    (∀ buffer batch, c.receive e.before.loop m ≠ .ok (buffer, some batch)) ∧
      e.after.trail = e.before.trail ++ [.polled m]

end Entry

namespace History

/-- The messages that the loop has received. -/
def messages (h : History) : List Message :=
  h.entries.filterMap (·.message?)

/-- The states of a feed are a path. -/
structure FollowsLife (c : FeedContext) (start : Feed) (h : History) : Prop where
  /-- Every incident takes place where the one before it has left the feed. -/
  linked : h.entries.map Entry.before ++ [h.feed] = start :: h.entries.map Entry.after
  passes : ∀ e ∈ h.entries, Lifecycle.Passes c.settings.reconnect.maxAttempts e.incident
    e.before.loop.lifecycle e.after.loop.lifecycle
  /-- A feed is stopped only after a call for a stop has returned. -/
  stopped : h.feed.loop.lifecycle = .stopped → ∃ e ∈ h.entries, e.incident = .signal

/-- A feed that is asked to stop gets on with nothing new and hands over nothing in part. -/
structure StopsInOrder (c : FeedContext) (h : History) : Prop where
  /-- After a call for a stop has returned, no open and no poll is started, and at most the message
  that the loop was polling for is received. -/
  nothing_new : (∃ e ∈ h.entries, e.incident = .signal) → ∀ more h', h.run c more = some h' →
    h'.opens = h.opens ∧ h'.polls = h.polls ∧ (h'.messages = h.messages ∨
      ∃ m confirmed, h.feed.loop.control = .polling confirmed ∧ h'.messages = h.messages ++ [m])
  whole : ∀ e ∈ h.entries, e.HandsWhole c
  /-- Behind a push, all of it is in the channel or taken, unless the channel is closed. -/
  complete : h.feed.channel.isClosed = false → ¬ Feed.IsPushing h.feed.loop.control →
    Trail.pushed h.feed.trail = Trail.taken h.feed.trail ++ h.feed.channel.buffered

variable {c : FeedContext} {h h' : History} {incident : Incident} {e : Entry}

/-! ## Pushes -/

/-- Where the loop receives no message, nothing is pushed. -/
theorem pushed_news {f : Feed} {event : LoopEvent} {after : Loop}
    (hevent : ∀ m, event ≠ .polled (.ok (some m))) :
    Trail.pushed (f.advance event after).trail = Trail.pushed f.trail := by
  have hnews : Trail.pushed (f.news event after) = [] := by
    unfold Feed.news
    split
    · rfl
    · exact absurd rfl (hevent _)
    · rfl
    · rfl
  rw [Feed.advance, Trail.pushed_append, hnews, List.append_nil]

/-- Only a loop that polls receives a message. -/
theorem polling_of_message {loop after : Loop} {durable : Option Position} {m : Message}
    (hturn : loop.Turns c durable (.polled (.ok (some m))) after) :
    ∃ confirmed, loop.control = .polling confirmed := by
  cases hturn with
  | goes hevent => exact hevent.elim
  | leaves hevent => exact hevent.elim
  | breaks fault hevent => exact hevent.elim
  | recovers result hbefore => exact ⟨_, hbefore⟩
  | rejects _ fault hbefore => exact ⟨_, hbefore⟩
  | finishes hevent => exact hevent.elim

/-- An incident is a message that the loop receives, or no message. -/
theorem message_cases (f g : Feed) (incident : Incident) :
    (∃ m, incident = .turn (.polled (.ok (some m)))) ∨
      Entry.message? ⟨f, incident, g⟩ = none := by
  unfold Entry.message?
  split
  · rename_i m hincident
    exact .inl ⟨m, hincident⟩
  · exact .inr rfl

/-- A message is handed over as a whole if it completes a batch. -/
theorem hands_whole_of_polled {f : Feed} {m : Message} {after : Loop}
    (hstep : f.loop.step c f.durable (.polled (.ok (some m))) = some after) :
    Entry.HandsWhole c
      ⟨f, .turn (.polled (.ok (some m))), f.advance (.polled (.ok (some m))) after⟩ := by
  obtain ⟨confirmed, hpolling⟩ := polling_of_message (Loop.turns_of_step hstep)
  show (∃ buffer batch, c.receive f.loop m = .ok (buffer, some batch) ∧ _) ∨ _
  rcases (Loop.moves_of_step hstep).polled_cases hpolling with
    ⟨fault, hreceive, hafter, -⟩ | ⟨hreceive, hafter, -, -⟩ | ⟨batch, hreceive, hafter, -⟩
  · exact .inr ⟨by simp [hreceive], by rw [Feed.advance_rejects hpolling hafter]⟩
  · exact .inr ⟨by simp [hreceive], by rw [Feed.advance_collects hpolling hafter]⟩
  · exact .inl ⟨_, batch, hreceive, by rw [Feed.advance_hands hpolling hafter]⟩

/-- Whatever takes place, a push is of a whole batch. -/
theorem hands_whole_of_happens {f g : Feed} (hhappens : f.Happens c incident g) :
    Entry.HandsWhole c ⟨f, incident, g⟩ := by
  cases hhappens with
  | turns hstep hhears =>
      rename_i event after
      rcases message_cases f (f.advance event after) (.turn event) with ⟨m, hm⟩ | hnone
      · obtain rfl := Incident.turn.inj hm
        exact hands_whole_of_polled hstep
      · rw [Entry.HandsWhole, hnone]
        refine pushed_news ?_
        rintro m rfl
        exact absurd hnone (by simp [Entry.message?])
  | outside hturn hnocall hloop hpublished hpushed hsteps =>
      have hnone : Entry.message? ⟨f, incident, g⟩ = none := by
        cases incident with
        | turn event => exact absurd rfl (hturn event)
        | _ => rfl
      rw [Entry.HandsWhole, hnone]
      exact hpushed
  | marks => exact (rfl : Trail.pushed f.trail = Trail.pushed f.trail)
  | signals => exact (rfl : Trail.pushed f.trail = Trail.pushed f.trail)

/-- Whatever takes place, no record is lost or repeated on its way. -/
theorem sends_or_breaks_of_happens {f g : Feed} (hhappens : f.Happens c incident g)
    (h : f.Sends ∨ f.Breaks) : g.Sends ∨ g.Breaks := by
  cases hhappens with
  | turns hstep hhears =>
      exact Feed.sends_or_breaks_of_moves (Loop.moves_of_step hstep) hhears h
  | outside hturn hnocall hloop hpublished hpushed hsteps =>
      exact Feed.sends_or_breaks_of_steps hsteps h
  -- The channel and the control point of the loop stay as they are.
  | marks | signals =>
      rcases h with h | h
      · exact .inl ⟨h.one_at_a_time, h.idle, h.conserved⟩
      · exact .inr ⟨h.closed, h.last_push, h.done, h.pushed_prefix⟩

/-- Behind a push, all of it is in the channel or taken, unless the channel is closed. -/
theorem complete_of_sends {f : Feed} (h : f.Sends ∨ f.Breaks) (hopen : f.channel.isClosed = false)
    (hcontrol : ¬ Feed.IsPushing f.loop.control) :
    Trail.pushed f.trail = Trail.taken f.trail ++ f.channel.buffered := by
  rcases h with h | h
  · rw [h.conserved, (h.idle hcontrol).in_flight_eq]
  · exact absurd (hopen.symm.trans h.closed) (by simp)

/-! ## After a call for a stop -/

/-- A loop that was told to stop. Since then it has started nothing, and has received at most the
message that it was polling for. -/
structure Winds (h k : History) : Prop where
  stop : k.feed.loop.stopAsked = true
  opens : k.opens = h.opens
  polls : k.polls = h.polls
  messages : k.messages = h.messages ∧
      (∀ q, k.feed.loop.control = .polling q → ∃ p, h.feed.loop.control = .polling p) ∨
    (∃ m p, h.feed.loop.control = .polling p ∧ k.messages = h.messages ++ [m]) ∧
      ∀ q, k.feed.loop.control ≠ .polling q

variable {k k' : History}

/-- Another incident may bring a message. -/
theorem messages_concat (hentries : h'.entries = h.entries ++ [e]) :
    h'.messages = h.messages ++ e.message?.toList := by
  rw [messages, hentries, List.filterMap_append]
  cases hm : e.message? <;> simp [messages, hm]

/-- An incident behind which the loop stands where it stood starts nothing. -/
theorem still_starts_nothing (hcontrol : e.after.loop.control = e.before.loop.control) :
    e.opens = false ∧ e.polls = false := by
  unfold Entry.opens Entry.polls
  rw [hcontrol]
  cases e.before.loop.control <;> exact ⟨rfl, rfl⟩

/-- An incident behind which the loop waits neither for a session nor for a message starts
nothing. -/
theorem starts_nothing (hstarts : ¬ e.after.loop.control.Starts) :
    e.opens = false ∧ e.polls = false := by
  unfold Entry.opens Entry.polls
  constructor
  · split
    · rfl
    · rename_i resume hopening _
      exact absurd (hopening ▸ trivial) hstarts
    · rfl
  · split
    · rfl
    · rename_i confirmed hpolling _
      exact absurd (hpolling ▸ trivial) hstarts
    · rfl

/-- A loop that was told to stop starts nothing while it stands still. -/
theorem Winds.still (hw : h.Winds k) (hstop : k'.feed.loop.stopAsked = true)
    (hentries : k'.entries = k.entries ++ [⟨k.feed, incident, k'.feed⟩])
    (hcontrol : k'.feed.loop.control = k.feed.loop.control)
    (hnone : Entry.message? ⟨k.feed, incident, k'.feed⟩ = none) : h.Winds k' := by
  obtain ⟨hopen, hpoll⟩ := still_starts_nothing (e := ⟨k.feed, incident, k'.feed⟩) hcontrol
  refine ⟨hstop, ?_, ?_, ?_⟩
  · rw [opens_concat hentries, hopen, hw.opens]
    rfl
  · rw [polls_concat hentries, hpoll, hw.polls]
    rfl
  · rw [messages_concat hentries, hnone, hcontrol, Option.toList_none, List.append_nil]
    exact hw.messages

/-- A loop that was told to stop starts nothing with another turn. -/
theorem Winds.turns (hw : h.Winds k) {event : LoopEvent} {durable : Option Position} {after : Loop}
    (hturn : k.feed.loop.Turns c durable event after) (hloop : k'.feed.loop = after)
    (hentries : k'.entries = k.entries ++ [⟨k.feed, .turn event, k'.feed⟩]) : h.Winds k' := by
  have hstarts : ¬ k'.feed.loop.control.Starts := hloop ▸ (hturn.rank_lt hw.stop).1
  have hpolling : ∀ q, k'.feed.loop.control ≠ .polling q := by
    intro q hq
    exact absurd (hq ▸ trivial) hstarts
  obtain ⟨hopen, hpoll⟩ := starts_nothing (e := ⟨k.feed, .turn event, k'.feed⟩) hstarts
  refine ⟨?_, ?_, ?_, ?_⟩
  · rw [hloop, hturn.stop_asked, hw.stop]
  · rw [opens_concat hentries, hopen, hw.opens]
    rfl
  · rw [polls_concat hentries, hpoll, hw.polls]
    rfl
  · rw [messages_concat hentries]
    rcases message_cases k.feed k'.feed (.turn event) with ⟨m, hm⟩ | hnone
    · -- The message is that of the poll which was under way, and there is no other poll.
      obtain rfl := Incident.turn.inj hm
      obtain ⟨confirmed, hcontrol⟩ := polling_of_message hturn
      rcases hw.messages with ⟨hsame, hback⟩ | ⟨-, hnot⟩
      · obtain ⟨p, hp⟩ := hback confirmed hcontrol
        exact .inr ⟨⟨m, p, hp, by rw [hsame]; rfl⟩, hpolling⟩
      · exact absurd hcontrol (hnot confirmed)
    · rw [hnone, Option.toList_none, List.append_nil]
      rcases hw.messages with ⟨hsame, -⟩ | ⟨hmore, -⟩
      · exact .inl ⟨hsame, fun q hq => absurd hq (hpolling q)⟩
      · exact .inr ⟨hmore, hpolling⟩

/-- A loop that was told to stop starts nothing with another incident. -/
theorem Winds.extend (hw : h.Winds k) (hextend : k.extend c incident = some k') : h.Winds k' := by
  obtain ⟨-, hhappens, hentries⟩ := extend_facts hextend
  have hstop := (stop_asked_of_extend hextend).mpr (.inl hw.stop)
  generalize hfeed : k'.feed = g at hhappens
  cases hhappens with
  | turns hstep hhears =>
      exact hw.turns (Loop.turns_of_step hstep) (by rw [hfeed]; rfl) hentries
  | outside hturn hnocall hloop hpublished hpushed hsteps =>
      refine hw.still hstop hentries (by rw [hfeed, hloop]) ?_
      rcases message_cases k.feed k'.feed incident with ⟨m, hm⟩ | hnone
      · exact absurd hm (hturn _)
      · exact hnone
  | marks => exact hw.still hstop hentries (by rw [hfeed]; rfl) rfl
  | signals => exact hw.still hstop hentries (by rw [hfeed]; rfl) rfl

/-- Once a call for a stop has returned, the loop starts nothing, and receives at most the message
that it is polling for. -/
theorem winds_of_run {more : List Incident} (hstop : h.feed.loop.stopAsked = true)
    (hmore : h.run c more = some h') : h.Winds h' := by
  have hstart : h.Winds h := ⟨hstop, rfl, rfl, .inl ⟨rfl, fun q hq => ⟨q, hq⟩⟩⟩
  exact run_keeps (fun _ _ _ _ hextend hw => hw.extend hextend) hstart hmore

/-! ## The life and the stop -/

variable {capacity : Nat} {durable : Option Position} {incidents : List Incident}

/-- Every incident of a history takes place where the one before it has left the feed, and takes the
life of the feed along the graph. -/
theorem path_of_run (hrun : (c.history capacity durable).run c incidents = some h) :
    h.entries.map Entry.before ++ [h.feed] =
        c.feed capacity durable :: h.entries.map Entry.after ∧
      ∀ e ∈ h.entries, Lifecycle.Passes c.settings.reconnect.maxAttempts e.incident
        e.before.loop.lifecycle e.after.loop.lifecycle := by
  -- Where the loop stands and how the feed lives are carried along; an edge needs both.
  have hpath := run_keeps (P := fun h => (h.Stands c ∧ h.Lives) ∧
    h.entries.map Entry.before ++ [h.feed] =
        c.feed capacity durable :: h.entries.map Entry.after ∧
      ∀ e ∈ h.entries, Lifecycle.Passes c.settings.reconnect.maxAttempts e.incident
        e.before.loop.lifecycle e.after.loop.lifecycle) ?_
    ⟨⟨stands_start c capacity durable, lives_start c capacity durable⟩, rfl,
      fun e he => absurd he List.not_mem_nil⟩ hrun
  · exact hpath.2
  · rintro h incident h' - hextend ⟨⟨hs, hl⟩, hlinked, hpasses⟩
    obtain ⟨-, -, hentries⟩ := extend_facts hextend
    obtain ⟨hlives, hpass⟩ := lives_of_extend hextend hl hs
    refine ⟨⟨stands_of_extend hextend hs, hlives⟩, ?_, ?_⟩
    · rw [hentries, List.map_append, List.map_append, List.map_singleton, List.map_singleton, hlinked]
      rfl
    · rw [hentries]
      intro e he
      rcases List.mem_append.mp he with he | he
      · exact hpasses e he
      · obtain rfl := List.mem_singleton.mp he
        exact hpass

/-- Every push of a history is of a whole batch, and no record is lost or repeated on its way. -/
theorem sends_of_run (hrun : (c.history capacity durable).run c incidents = some h) :
    (∀ e ∈ h.entries, e.HandsWhole c) ∧ (h.feed.Sends ∨ h.feed.Breaks) := by
  refine run_keeps (P := fun h => (∀ e ∈ h.entries, e.HandsWhole c) ∧
    (h.feed.Sends ∨ h.feed.Breaks)) ?_
    ⟨fun e he => absurd he List.not_mem_nil, .inl (Feed.sends_feed c capacity durable)⟩ hrun
  rintro h incident h' - hextend ⟨hwhole, hsends⟩
  obtain ⟨-, hhappens, hentries⟩ := extend_facts hextend
  refine ⟨?_, sends_or_breaks_of_happens hhappens hsends⟩
  rw [hentries]
  intro e he
  rcases List.mem_append.mp he with he | he
  · exact hwhole e he
  · obtain rfl := List.mem_singleton.mp he
    exact hands_whole_of_happens hhappens

/-- The states of every feed are a path of the graph, and every feed that is asked to stop does so in
order. -/
theorem lives_and_stops (c : FeedContext) (capacity : Nat) (durable : Option Position)
    (incidents : List Incident) {h : History}
    (hrun : (c.history capacity durable).run c incidents = some h) :
    h.FollowsLife c (c.feed capacity durable) ∧ h.StopsInOrder c := by
  have htold := stop_asked_iff_of_run hrun
  obtain ⟨hlinked, hpasses⟩ := path_of_run hrun
  obtain ⟨hwhole, hsends⟩ := sends_of_run hrun
  refine ⟨⟨hlinked, hpasses, ?_⟩, ⟨?_, hwhole, complete_of_sends hsends⟩⟩
  · intro hstopped
    refine htold.mp ?_
    cases (lives_of_run hrun).2 with
    | active hlife =>
        have hactive := hlife ▸ Lifecycle.active_alive h.feed.loop.failures
        rw [hstopped] at hactive
        exact absurd hactive Bool.false_ne_true
    | stopping hlife => exact absurd (hstopped.symm.trans hlife) (by simp)
    | stopped hlife p hcontrol hstop => exact hstop
    | failed hlife => exact absurd (hstopped.symm.trans hlife) (by simp)
  · intro hsignal more h' hmore
    have hw := winds_of_run (htold.mpr hsignal) hmore
    refine ⟨hw.opens, hw.polls, ?_⟩
    rcases hw.messages with ⟨hsame, -⟩ | ⟨⟨m, p, hp, hmessages⟩, -⟩
    · exact .inl hsame
    · exact .inr ⟨m, p, hp, hmessages⟩

/-- A first session cannot be opened. While the loop polls the second one, two calls for a stop come
in, the first of which returns; the poll succeeds all the same, and the loop leaves. -/
def stoppedTwice : List Incident :=
  [.turn .next, .turn (.opened (.error .closed)), .turn .next, .turn .woke, .turn .next,
    .turn (.opened (.ok ())), .turn .next, .turn .next, .mark, .mark, .signal,
    .turn (.polled (.ok none)), .turn .next, .turn (.closed (.ok ())), .signal]

/-- A feed that is asked twice to stop has reconnected once, and stops. -/
theorem lives_and_stops_twice :
    ∃ h, (FeedContext.ofItems.history 8 none).run .ofItems stoppedTwice = some h ∧
      h.feed.loop.lifecycle = .stopped ∧ h.opens = 2 ∧ h.polls = 1 ∧
      h.FollowsLife .ofItems (FeedContext.ofItems.feed 8 none) ∧ h.StopsInOrder .ofItems :=
  ⟨_, rfl, rfl, rfl, rfl, lives_and_stops .ofItems 8 none stoppedTwice rfl⟩

end History

end ChangeFeed
