import ChangeFeed.Proofs.Channel.Order
import ChangeFeed.Proofs.Feed.Transition

/-!
# The trail of a feed

A feed under observation: a read loop with its channel, and the trail of what it did and of what
became of its records. Its moves are those of the loop, of the receiver of the channel and of
whoever saves what is durable; their order is not fixed. `Feed.sends_or_breaks_of_steps` says that
the channel neither loses nor repeats anything: what was pushed is what was taken out and what is
still in flight, unless the channel was closed on a push.
-/

namespace ChangeFeed

/-- What a feed does, and what becomes of its records. -/
inductive Happening where
  /-- A session was opened that goes on from a position. -/
  | opened (resume : Position)
  | polled (message : Message)
  /-- A push of a batch was started. -/
  | pushed (records : List Record)
  /-- A position was published while records were in the channel. -/
  | published (position : Position) (buffered : List Record)
  /-- The receiver has taken a record. -/
  | received (record : Record)
  /-- The receiver has gone and let records go. -/
  | dropped (records : List Record)

namespace Trail

/-- The records of all pushes in order. -/
def pushed (trail : List Happening) : List Record :=
  trail.flatMap fun
    | .pushed records => records
    | _ => []

/-- The records that left the channel in order. -/
def taken (trail : List Happening) : List Record :=
  trail.flatMap fun
    | .received record => [record]
    | .dropped records => records
    | _ => []

/-- The positions that were published in order. -/
def published (trail : List Happening) : List Position :=
  trail.flatMap fun
    | .published position _ => [position]
    | _ => []

/-- The messages that the session which was opened last has given. -/
def session (trail : List Happening) : List Message :=
  trail.foldl (fun messages happening => match happening with
    | .opened _ => []
    | .polled message => messages ++ [message]
    | _ => messages) []

variable (trail news : List Happening)

@[simp]
theorem pushed_append : pushed (trail ++ news) = pushed trail ++ pushed news :=
  List.flatMap_append

@[simp]
theorem taken_append : taken (trail ++ news) = taken trail ++ taken news :=
  List.flatMap_append

@[simp]
theorem session_opened (resume : Position) : session (trail ++ [.opened resume]) = [] := by
  simp [session]

@[simp]
theorem session_polled (m : Message) : session (trail ++ [.polled m]) = session trail ++ [m] := by
  simp [session]

/-- A push adds nothing to what the session has given. -/
@[simp]
theorem session_pushed (records : List Record) :
    session (trail ++ [.pushed records]) = session trail := by
  simp [session]

/-- Publishing a position adds nothing to what the session has given. -/
@[simp]
theorem session_published (p : Position) (buffered : List Record) :
    session (trail ++ [.published p buffered]) = session trail := by
  simp [session]

/-- Taking a record adds nothing to what the session has given. -/
@[simp]
theorem session_received (r : Record) :
    session (trail ++ [.received r]) = session trail := by
  simp [session]

/-- Letting records go adds nothing to what the session has given. -/
@[simp]
theorem session_dropped (records : List Record) :
    session (trail ++ [.dropped records]) = session trail := by
  simp [session]

end Trail

/-- A feed under observation. -/
structure Feed where
  loop : Loop
  channel : Channel Record
  /-- What is durable, if that is tracked. -/
  durable : Option Position
  trail : List Happening

/-- What can happen to a feed. -/
inductive FeedMove where
  /-- The world answers the read loop. -/
  | read (event : LoopEvent)
  /-- The read loop learns how its push went. -/
  | learn
  /-- The receiver takes a record if there is one. -/
  | receive
  /-- The receiver takes nothing more in. -/
  | close
  /-- The receiver goes. -/
  | drop
  /-- Another position becomes durable. -/
  | persist (position : Position)
  /-- Somebody asks the read loop to stop. -/
  | stop

namespace FeedContext

/-- The feed that starts over a channel of a capacity. -/
def feed (c : FeedContext) (capacity : Nat) (durable : Option Position) : Feed where
  loop := c.loop
  channel := ⟨capacity, [], [], false⟩
  durable := durable
  trail := []

end FeedContext

namespace Feed

/-- What a transition of the read loop leaves on the trail. -/
def news (f : Feed) (event : LoopEvent) (after : Loop) : List Happening :=
  match f.loop.control, event with
  | .opening resume, .opened (.ok ()) => [.opened resume]
  | .polling _, .polled (.ok (some m)) =>
    match after.control with
    | .pushing records _ _ => [.polled m, .pushed records]
    | _ => [.polled m]
  | .pushing _ _ _, .pushed true => [.published after.position f.channel.buffered]
  | _, _ => []

/-- The channel when the read loop comes to a control point; where that is a push, it starts. -/
def channelAt (f : Feed) (control : Control) : Channel Record :=
  match control with
  | .pushing records _ _ => f.channel.push records
  | _ => f.channel

/-- The feed after a transition of its read loop. -/
def advance (f : Feed) (event : LoopEvent) (after : Loop) : Feed where
  loop := after
  channel := f.channelAt after.control
  durable := f.durable
  trail := f.trail ++ f.news event after

/-- Gives an event to the read loop, which does nothing if it does not wait for it. -/
def give (c : FeedContext) (f : Feed) (event : LoopEvent) : Feed :=
  match f.loop.step c f.durable event with
  | some after => f.advance event after
  | none => f

/-- One move. How a push went is learnt from the channel only. -/
def step (c : FeedContext) (f : Feed) : FeedMove → Feed
  | .read (.pushed _) => f
  | .read event => f.give c event
  | .learn =>
    match f.channel.lastPush? with
    | some .pushed => f.give c (.pushed true)
    | some .closed => f.give c (.pushed false)
    | _ => f
  | .receive =>
    match f.channel.receive with
    | (some record, channel) =>
      { f with channel := channel, trail := f.trail ++ [.received record] }
    | (none, _) => f
  | .close => { f with channel := f.channel.close }
  | .drop =>
    { f with
      channel := f.channel.discard
      trail := f.trail ++ [.dropped f.channel.buffered] }
  | .persist position => { f with durable := f.durable.map fun _ => position }
  | .stop => { f with loop := f.loop.stop }

/-- A sequence of moves. -/
def run (c : FeedContext) (f : Feed) (moves : List FeedMove) : Feed :=
  moves.foldl (step c) f

/-! ## What a move does -/

/-- The read loop hears how its push went only from a push that ended so. -/
def Hears (f : Feed) (event : LoopEvent) : Prop :=
  ∀ taken, event = .pushed taken → f.channel.lastPush? = some (if taken then .pushed else .closed)

/-- A transition that leaves nothing on the trail and starts no push changes the loop only. -/
theorem advance_of_silent {f : Feed} {event : LoopEvent} {after : Loop}
    (hnews : f.news event after = []) (hchannel : f.channelAt after.control = f.channel) :
    f.advance event after = { f with loop := after } := by
  rw [advance, hnews, hchannel, List.append_nil]

/-- The rules for the moves of a feed. -/
inductive Steps (c : FeedContext) (f : Feed) : Feed → Prop
  | rests : Steps c f f
  | moves {event : LoopEvent} {after : Loop} (hmoves : f.loop.Moves c f.durable event after)
      (hhears : f.Hears event) : Steps c f (f.advance event after)
  | receives (record : Record) (channel : Channel Record)
      (hreceive : f.channel.receive = (some record, channel)) :
      Steps c f { f with channel := channel, trail := f.trail ++ [.received record] }
  | closes : Steps c f { f with channel := f.channel.close }
  | drops : Steps c f { f with
      channel := f.channel.discard
      trail := f.trail ++ [.dropped f.channel.buffered] }
  | persists (position : Position) :
      Steps c f { f with durable := f.durable.map fun _ => position }
  | stops : Steps c f { f with loop := f.loop.stop }

variable {c : FeedContext} {f : Feed}

/-- Giving an event follows the rules. -/
theorem steps_of_give {event : LoopEvent} (hhears : f.Hears event) :
    Steps c f (f.give c event) := by
  unfold give
  split
  · exact .moves (Loop.moves_of_step ‹_›) hhears
  · exact .rests

/-- Every move follows the rules. -/
theorem steps_of_step (c : FeedContext) (f : Feed) (move : FeedMove) :
    Steps c f (f.step c move) := by
  cases move with
  | read event =>
      cases event with
      | pushed taken => exact .rests
      | _ => exact steps_of_give (fun _ h => absurd h (by simp))
  | learn =>
      rw [step]
      split
      · exact steps_of_give (fun taken h => by obtain rfl := LoopEvent.pushed.inj h; assumption)
      · exact steps_of_give (fun taken h => by obtain rfl := LoopEvent.pushed.inj h; assumption)
      · exact .rests
  | receive =>
      rw [step]
      split
      · exact .receives _ _ ‹_›
      · exact .rests
  | close => exact .closes
  | drop => exact .drops
  | persist position => exact .persists position
  | stop => exact .stops

/-! ## What a transition of the loop leaves behind -/

variable {event : LoopEvent} {after : Loop}

/-- A loop that has a session and hands nothing over starts no push. -/
theorem channel_at_reads (h : after.control.Reads) : f.channelAt after.control = f.channel := by
  unfold channelAt
  split
  · rename_i hcontrol
    exact (hcontrol ▸ h : (Control.pushing _ _ _).Reads).elim
  · rfl

/-- A loop on its way to a session starts no push. -/
theorem channel_at_waits (h : after.control.Waits) : f.channelAt after.control = f.channel := by
  unfold channelAt
  split
  · rename_i hcontrol
    exact (hcontrol ▸ h : (Control.pushing _ _ _).Waits).elim
  · rfl

/-- Going on with a session without a message leaves nothing behind. -/
theorem news_reads (hbefore : f.loop.control.Reads)
    (hevent : ∀ m, event ≠ .polled (.ok (some m))) : f.news event after = [] := by
  unfold news
  split
  · rename_i hcontrol
    exact (hcontrol ▸ hbefore : (Control.opening _).Reads).elim
  · exact absurd rfl (hevent _)
  · rename_i hcontrol
    exact (hcontrol ▸ hbefore : (Control.pushing _ _ _).Reads).elim
  · rfl

/-- Going on without a session leaves nothing behind. -/
theorem news_waits (hbefore : f.loop.control.Waits) (hevent : event ≠ .opened (.ok ())) :
    f.news event after = [] := by
  unfold news
  split
  · exact absurd rfl hevent
  · rename_i hcontrol
    exact (hcontrol ▸ hbefore : (Control.polling _).Waits).elim
  · rename_i hcontrol
    exact (hcontrol ▸ hbefore : (Control.pushing _ _ _).Waits).elim
  · rfl

/-- Going on without a session changes the loop only. -/
theorem advance_waits (hbefore : f.loop.control.Waits) (hafter : after.control.Waits)
    (hevent : event ≠ .opened (.ok ())) : f.advance event after = { f with loop := after } :=
  advance_of_silent (news_waits hbefore hevent) (channel_at_waits hafter)

/-- Opening a session is noted. -/
theorem advance_opens {resume confirmed : Position} (hbefore : f.loop.control = .opening resume)
    (hafter : after.control = .attending confirmed) :
    f.advance (.opened (.ok ())) after =
      { f with loop := after, trail := f.trail ++ [.opened resume] } := by
  simp [advance, news, channelAt, hbefore, hafter]

/-- Going on with a session without a message changes the loop only. -/
theorem advance_reads (hbefore : f.loop.control.Reads) (hafter : after.control.Reads)
    (hevent : ∀ m, event ≠ .polled (.ok (some m))) :
    f.advance event after = { f with loop := after } :=
  advance_of_silent (news_reads hbefore hevent) (channel_at_reads hafter)

/-- Leaving a session changes the loop only. -/
theorem advance_leaves {outcome : Except FeedFault Unit} (hbefore : f.loop.control.Reads)
    (hafter : after.control = .closing outcome) (hevent : ∀ m, event ≠ .polled (.ok (some m))) :
    f.advance event after = { f with loop := after } :=
  advance_of_silent (news_reads hbefore hevent) (by rw [hafter]; rfl)

/-- A message is noted. -/
theorem advance_rejects {m : Message} {confirmed : Position} {outcome : Except FeedFault Unit}
    (hbefore : f.loop.control = .polling confirmed) (hafter : after.control = .closing outcome) :
    f.advance (.polled (.ok (some m))) after =
      { f with loop := after, trail := f.trail ++ [.polled m] } := by
  simp [advance, news, channelAt, hbefore, hafter]

/-- A message that gives nothing to hand over is noted. -/
theorem advance_collects {m : Message} {confirmed : Position}
    (hbefore : f.loop.control = .polling confirmed) (hafter : after.control.Reads) :
    f.advance (.polled (.ok (some m))) after =
      { f with loop := after, trail := f.trail ++ [.polled m] } := by
  have hnews : f.news (.polled (.ok (some m))) after = [.polled m] := by
    unfold news
    rw [hbefore]
    dsimp only
    split
    · rename_i hcontrol
      exact (hcontrol ▸ hafter : (Control.pushing _ _ _).Reads).elim
    · rfl
  rw [advance, hnews, channel_at_reads hafter]

/-- A message that gives a batch is noted, and then the push of the batch, which starts. -/
theorem advance_hands {m : Message} {records : List Record} {last confirmed confirmed' : Position}
    (hbefore : f.loop.control = .polling confirmed)
    (hafter : after.control = .pushing records last confirmed') :
    f.advance (.polled (.ok (some m))) after = { f with
      loop := after
      channel := f.channel.push records
      trail := f.trail ++ [.polled m] ++ [.pushed records] } := by
  simp [advance, news, channelAt, hbefore, hafter]

/-- Publishing a position is noted. -/
theorem advance_publishes {records : List Record} {last confirmed : Position}
    (hbefore : f.loop.control = .pushing records last confirmed) (hafter : after.control.Reads) :
    f.advance (.pushed true) after = { f with
      loop := after
      trail := f.trail ++ [.published after.position f.channel.buffered] } := by
  rw [advance, channel_at_reads hafter]
  simp [news, hbefore]

/-- A push that failed changes the loop only. -/
theorem advance_refused {records : List Record} {last confirmed : Position}
    {outcome : Except FeedFault Unit} (hbefore : f.loop.control = .pushing records last confirmed)
    (hafter : after.control = .closing outcome) :
    f.advance (.pushed false) after = { f with loop := after } := by
  simp [advance, news, channelAt, hbefore, hafter]

/-- Trying again after a session changes the loop only. -/
theorem advance_recovers {outcome : Except FeedFault Unit} {closed : Except SessionFault Unit}
    (hbefore : f.loop.control = .closing outcome) (hafter : after.control = .shaken) :
    f.advance (.closed closed) after = { f with loop := after } := by
  simp [advance, news, channelAt, hbefore, hafter]

/-- Ending changes the loop only. -/
theorem advance_ends {result : Except FeedFault Position}
    (hbefore : f.loop.control.Waits ∨ ∃ outcome, f.loop.control = .closing outcome)
    (hafter : after.control = .finished result) (hevent : event ≠ .opened (.ok ())) :
    f.advance event after = { f with loop := after } := by
  refine advance_of_silent ?_ (by rw [hafter]; rfl)
  rcases hbefore with hbefore | ⟨outcome, hbefore⟩
  · exact news_waits hbefore hevent
  · simp [news, hbefore]

/-- Only a message makes the loop start a push. -/
theorem channel_at_of_moves (hmoves : f.loop.Moves c f.durable event after)
    (hpolled : ∀ m, event ≠ .polled (.ok (some m))) :
    f.channelAt after.control = f.channel := by
  cases hmoves with
  | waits hbefore hafter hresume hposition hbuffer hevent => exact channel_at_waits hafter
  | opens resume hbefore hafter hkeeps => rw [hafter]; rfl
  | reads hbefore hafter hconfirm hevent hkeeps => exact channel_at_reads hafter
  | leaves outcome hbefore hafter hevent hkeeps => rw [hafter]; rfl
  | rejects m fault confirmed hbefore hreceive hafter hkeeps => exact absurd rfl (hpolled m)
  | collects m buffer confirmed hbefore hreceive hafter hconfirm hposition hbuffer =>
      exact absurd rfl (hpolled m)
  | hands m buffer batch confirmed hbefore hreceive hafter hposition hbuffer =>
      exact absurd rfl (hpolled m)
  | publishes records last confirmed hbefore hafter hconfirm hposition hbuffer =>
      exact channel_at_reads hafter
  | refused records last confirmed hbefore hafter hkeeps => rw [hafter]; rfl
  | recovers fault closed hbefore hafter hposition hbuffer => rw [hafter]; rfl
  | ends result hbefore hafter hposition hevent => rw [hafter]; rfl

/-- The read loop takes nothing out of the channel. -/
theorem taken_news (f : Feed) (event : LoopEvent) (after : Loop) :
    Trail.taken (f.news event after) = [] := by
  unfold news
  split
  · rfl
  · split <;> rfl
  · rfl
  · rfl

/-- What every move keeps, every sequence of moves keeps. -/
theorem run_keeps {P : Feed → Prop} (hstep : ∀ f g, Steps c f g → P f → P g) (h : P f)
    (moves : List FeedMove) : P (f.run c moves) := by
  induction moves generalizing f with
  | nil => exact h
  | cons move rest ih => exact ih (hstep f _ (steps_of_step c f move) h)

/-! ## What is pushed is what arrives -/

/-- A loop that hands a batch over. -/
def IsPushing (control : Control) : Prop :=
  match control with
  | .pushing _ _ _ => True
  | _ => False

/-- A loop that starts no other push. -/
def IsDone (control : Control) : Prop :=
  match control with
  | .pushing _ _ _ => True
  | .closing (.error .channelClosed) => True
  | .finished _ => True
  | _ => False

/-- A loop that hands a batch over starts no other push meanwhile. -/
theorem IsPushing.done {control : Control} (h : IsPushing control) : IsDone control := by
  cases control <;> first | exact h.elim | exact h

/-- No push has failed: what was pushed has left the channel or is in flight, and only a loop that
hands a batch over has something waiting. -/
structure Sends (f : Feed) : Prop where
  one_at_a_time : f.channel.OneAtATime
  idle : ¬ IsPushing f.loop.control → f.channel.Idle
  conserved : Trail.pushed f.trail = Trail.taken f.trail ++ f.channel.inFlight

/-- The last push has failed: what left the channel and what is still in it are the first of what
was pushed. -/
structure Breaks (f : Feed) : Prop where
  closed : f.channel.isClosed = true
  last_push : f.channel.lastPush? = some .closed
  done : IsDone f.loop.control
  pushed_prefix : Trail.taken f.trail ++ f.channel.buffered <+: Trail.pushed f.trail

/-- A feed that starts sends. -/
theorem sends_feed (c : FeedContext) (capacity : Nat) (durable : Option Position) :
    (c.feed capacity durable).Sends where
  one_at_a_time := List.Pairwise.nil
  idle _ _ hp := absurd hp List.not_mem_nil
  conserved := rfl

/-- Where nothing waits and nothing is pushed or taken, a feed goes on sending. -/
theorem Sends.still {g : Feed} (h : f.Sends) (hidle : f.channel.Idle)
    (hchannel : g.channel = f.channel) (hpushed : Trail.pushed g.trail = Trail.pushed f.trail)
    (htaken : Trail.taken g.trail = Trail.taken f.trail) : g.Sends where
  one_at_a_time := hchannel ▸ h.one_at_a_time
  idle _ := hchannel ▸ hidle
  conserved := by rw [hpushed, htaken, hchannel, h.conserved]

/-- A loop that reads neither hands a batch over nor is done. -/
theorem not_pushing_of_reads {control : Control} (h : control.Reads) :
    ¬ IsPushing control ∧ ¬ IsDone control := by
  cases control <;> first | exact h.elim | exact ⟨id, id⟩

/-- A loop on its way to a session neither hands a batch over nor is done. -/
theorem not_pushing_of_waits {control : Control} (h : control.Waits) :
    ¬ IsPushing control ∧ ¬ IsDone control := by
  cases control <;> first | exact h.elim | exact ⟨id, id⟩

/-- Where the loop neither hands a batch over nor is done, a feed goes on sending as long as its
channel stays as it is. -/
theorem sends_of_still {g : Feed} (h : f.Sends ∨ f.Breaks)
    (hcontrol : ¬ IsPushing f.loop.control ∧ ¬ IsDone f.loop.control)
    (hchannel : g.channel = f.channel) (hpushed : Trail.pushed g.trail = Trail.pushed f.trail)
    (htaken : Trail.taken g.trail = Trail.taken f.trail) : g.Sends ∨ g.Breaks := by
  rcases h with h | h
  · exact .inl (h.still (h.idle hcontrol.1) hchannel hpushed htaken)
  · exact absurd h.done hcontrol.2

/-- Starting a push keeps a feed sending, or breaks it if the channel is closed. -/
theorem Sends.hands {m : Message} {records : List Record} {last confirmed : Position}
    (h : f.Sends) (hidle : f.channel.Idle)
    (hafter : after.control = .pushing records last confirmed) :
    let g : Feed := { f with
      loop := after
      channel := f.channel.push records
      trail := f.trail ++ [.polled m] ++ [.pushed records] }
    g.Sends ∨ g.Breaks := by
  have hpushed : Trail.pushed (f.trail ++ [.polled m] ++ [.pushed records]) =
      Trail.pushed f.trail ++ records := by simp [Trail.pushed]
  have htaken : Trail.taken (f.trail ++ [.polled m] ++ [.pushed records]) =
      Trail.taken f.trail := by simp [Trail.taken]
  by_cases hclosed : f.channel.isClosed = true
  · rw [Channel.push_of_closed hclosed]
    cases records with
    | nil =>
        -- A push of nothing succeeds, even where the channel is closed.
        refine .inl ⟨?_, ?_, ?_⟩
        · exact (Channel.push_of_closed hclosed [] ▸ hidle.push [])
        · intro hp
          exact absurd (hafter ▸ trivial) hp
        · rw [hpushed, htaken, h.conserved]
          simp [Channel.inFlight, Push.left]
    | cons r rest =>
        refine .inr ⟨hclosed, by simp [Channel.lastPush?], hafter ▸ trivial, ?_⟩
        rw [hpushed, htaken, h.conserved, hidle.in_flight_eq]
        exact List.prefix_append _ _
  · refine .inl ⟨hidle.push records, ?_, ?_⟩
    · intro hp
      exact absurd (hafter ▸ trivial) hp
    · rw [hpushed, htaken, h.conserved, List.append_assoc,
        Channel.push_in_flight (by simpa using hclosed)]

/-- Whatever the loop does, no record is lost or repeated on its way. -/
theorem sends_or_breaks_of_moves (hmoves : f.loop.Moves c f.durable event after)
    (hhears : f.Hears event) (h : f.Sends ∨ f.Breaks) :
    (f.advance event after).Sends ∨ (f.advance event after).Breaks := by
  cases hmoves with
  | waits hbefore hafter hresume hposition hbuffer hevent =>
      rw [advance_waits hbefore hafter hevent]
      exact sends_of_still h (not_pushing_of_waits hbefore) rfl rfl rfl
  | opens resume hbefore hafter hkeeps =>
      have hwaits : f.loop.control.Waits := hbefore ▸ trivial
      rw [advance_opens hbefore hafter]
      exact sends_of_still h (not_pushing_of_waits hwaits) rfl (by simp [Trail.pushed])
        (by simp [Trail.taken])
  | reads hbefore hafter hconfirm hevent hkeeps =>
      rw [advance_reads hbefore hafter hevent]
      exact sends_of_still h (not_pushing_of_reads hbefore) rfl rfl rfl
  | leaves outcome hbefore hafter hevent hkeeps =>
      rw [advance_leaves hbefore hafter hevent]
      exact sends_of_still h (not_pushing_of_reads hbefore) rfl rfl rfl
  | rejects m fault confirmed hbefore hreceive hafter hkeeps =>
      have hreads : f.loop.control.Reads := hbefore ▸ trivial
      rw [advance_rejects hbefore hafter]
      exact sends_of_still h (not_pushing_of_reads hreads) rfl (by simp [Trail.pushed])
        (by simp [Trail.taken])
  | collects m buffer confirmed hbefore hreceive hafter hconfirm hposition hbuffer =>
      have hreads : f.loop.control.Reads := hbefore ▸ trivial
      rw [advance_collects hbefore hafter]
      exact sends_of_still h (not_pushing_of_reads hreads) rfl (by simp [Trail.pushed])
        (by simp [Trail.taken])
  | hands m buffer batch confirmed hbefore hreceive hafter hposition hbuffer =>
      have hreads : f.loop.control.Reads := hbefore ▸ trivial
      rw [advance_hands hbefore hafter]
      rcases h with h | h
      · exact h.hands (h.idle (not_pushing_of_reads hreads).1) hafter
      · exact absurd h.done (not_pushing_of_reads hreads).2
  | publishes records last confirmed hbefore hafter hconfirm hposition hbuffer =>
      rw [advance_publishes hbefore hafter]
      have hlast : f.channel.lastPush? = some .pushed := hhears true rfl
      rcases h with h | h
      · exact .inl (h.still (h.one_at_a_time.idle_of_last_push hlast rfl) rfl
          (by simp [Trail.pushed]) (by simp [Trail.taken]))
      · exact absurd (hlast.symm.trans h.last_push) (by simp)
  | refused records last confirmed hbefore hafter hkeeps =>
      rw [advance_refused hbefore hafter]
      have hlast : f.channel.lastPush? = some .closed := hhears false rfl
      rcases h with h | h
      · exact .inl (h.still (h.one_at_a_time.idle_of_last_push hlast rfl) rfl rfl rfl)
      · exact .inr ⟨h.closed, h.last_push, hafter ▸ trivial, h.pushed_prefix⟩
  | recovers fault closed hbefore hafter hposition hbuffer =>
      rw [advance_recovers hbefore hafter]
      rcases h with h | h
      · exact .inl (h.still (h.idle (hbefore ▸ id)) rfl rfl rfl)
      · exact absurd h.done (hbefore ▸ id)
  | ends result hbefore hafter hposition hevent =>
      rw [advance_ends hbefore hafter hevent]
      have hidle : ¬ IsPushing f.loop.control := by
        rcases hbefore with hbefore | ⟨outcome, hbefore⟩
        · exact (not_pushing_of_waits hbefore).1
        · exact hbefore ▸ id
      rcases h with h | h
      · exact .inl (h.still (h.idle hidle) rfl rfl rfl)
      · exact .inr ⟨h.closed, h.last_push, hafter ▸ trivial, h.pushed_prefix⟩

/-- When the channel is shut and what it admitted is kept or let go, a push that waits fails. -/
theorem sends_or_breaks_of_shut {g : Feed} (hloop : g.loop = f.loop)
    (hclosed : g.channel.isClosed = true) (hidle : g.channel.Idle)
    (hlast : g.channel.lastPush? = f.channel.lastPush?.map Channel.failed)
    (hpushed : Trail.pushed g.trail = Trail.pushed f.trail)
    (htaken : Trail.taken g.trail ++ g.channel.buffered =
      Trail.taken f.trail ++ f.channel.buffered)
    (h : f.Sends ∨ f.Breaks) : g.Sends ∨ g.Breaks := by
  rcases h with h | h
  · by_cases hbefore : f.channel.Idle
    · refine .inl ⟨hidle.one_at_a_time, fun _ => hidle, ?_⟩
      rw [hpushed, h.conserved, hbefore.in_flight_eq, ← htaken, hidle.in_flight_eq]
    · -- A push is waiting. It fails, and what it has left is never taken.
      obtain ⟨left, hleft⟩ := h.one_at_a_time.idle_or_waits.resolve_left hbefore
      have hpushing : IsPushing f.loop.control := not_not.mp fun hp => hbefore (h.idle hp)
      refine .inr ⟨hclosed, by rw [hlast, hleft]; rfl, hloop ▸ hpushing.done, ?_⟩
      rw [hpushed, htaken, h.conserved]
      exact (List.prefix_append_right_inj _).mpr (List.prefix_append _ _)
  · refine .inr ⟨hclosed, by rw [hlast, h.last_push]; rfl, hloop ▸ h.done, ?_⟩
    rw [hpushed, htaken]
    exact h.pushed_prefix

/-- A record that the receiver takes is the next of what was pushed. -/
theorem sends_or_breaks_of_receive {record : Record} {channel : Channel Record}
    (hreceive : f.channel.receive = (some record, channel)) (h : f.Sends ∨ f.Breaks) :
    let g : Feed := { f with channel := channel, trail := f.trail ++ [.received record] }
    g.Sends ∨ g.Breaks := by
  have hpushed : Trail.pushed (f.trail ++ [.received record]) = Trail.pushed f.trail := by
    simp [Trail.pushed]
  have htaken : Trail.taken (f.trail ++ [.received record]) =
      Trail.taken f.trail ++ [record] := by simp [Trail.taken]
  rcases h with h | h
  · left
    rcases f.channel.receive_cases with ⟨first, d, hfirst, hflight, -, hidle, hone⟩ | ⟨-, hnone⟩
    · rw [hreceive] at hfirst
      obtain ⟨heq, rfl⟩ := Prod.mk.inj hfirst
      obtain rfl := Option.some.inj heq
      refine ⟨hone h.one_at_a_time, fun hp => hidle (h.idle hp), ?_⟩
      rw [hpushed, htaken, h.conserved, hflight, List.append_assoc]
      rfl
    · exact absurd (hreceive.symm.trans hnone) (by simp)
  · right
    obtain ⟨hbuffered, hchannel⟩ := Channel.receive_of_closed h.closed hreceive
    refine ⟨by rw [hchannel]; exact h.closed, by rw [hchannel]; exact h.last_push, h.done, ?_⟩
    rw [hpushed, htaken, List.append_assoc]
    have hprefix := h.pushed_prefix
    rwa [hbuffered] at hprefix

/-- Every move of a feed that sends leads to one that sends or breaks, and a broken one stays
so. -/
theorem sends_or_breaks_of_steps {g : Feed} (hstep : Steps c f g) (h : f.Sends ∨ f.Breaks) :
    g.Sends ∨ g.Breaks := by
  cases hstep with
  | rests => exact h
  | moves hmoves hhears => exact sends_or_breaks_of_moves hmoves hhears h
  | receives record channel hreceive => exact sends_or_breaks_of_receive hreceive h
  | closes =>
      obtain ⟨hclosed, hidle, -⟩ := f.channel.close_facts
      exact sends_or_breaks_of_shut (f := f) rfl hclosed hidle f.channel.last_push_close.1 rfl rfl h
  | drops =>
      obtain ⟨hclosed, hidle, -⟩ := f.channel.discard_facts
      refine sends_or_breaks_of_shut (f := f) rfl hclosed hidle f.channel.last_push_close.2
        (by simp [Trail.pushed]) ?_ h
      simp [Trail.taken, Channel.discard]
  | persists position =>
      rcases h with h | h
      · exact .inl ⟨h.one_at_a_time, h.idle, h.conserved⟩
      · exact .inr ⟨h.closed, h.last_push, h.done, h.pushed_prefix⟩
  | stops =>
      rcases h with h | h
      · exact .inl ⟨h.one_at_a_time, h.idle, h.conserved⟩
      · exact .inr ⟨h.closed, h.last_push, h.done, h.pushed_prefix⟩

/-- Whatever happens, what left the channel and what is still in it are the first of what was
pushed, in order. -/
theorem pushed_prefix_of {f : Feed} (h : f.Sends ∨ f.Breaks) :
    Trail.taken f.trail ++ f.channel.buffered <+: Trail.pushed f.trail := by
  rcases h with h | h
  · rw [h.conserved]
    exact (List.prefix_append_right_inj _).mpr (List.prefix_append _ _)
  · exact h.pushed_prefix

end Feed

end ChangeFeed
