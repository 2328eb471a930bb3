import ChangeFeed.Proofs.Feed.Stopping

/-!
# How a feed that was asked to stop ends

A feed that was asked to stop ends after at most seven turns of its loop, and never waits for an
answer that it does not take. It ends with the position that it published last, unless a message
could not be read, converted or handed over, or the failures of its sessions in a row have come to
the bound of its policy: a stop does not keep a failure from counting. Read
`History.ends_after_stop` first.
-/

namespace ChangeFeed

/-- Whether the incident is a turn of the read loop. -/
def Incident.isTurn : Incident → Bool
  | .turn _ => true
  | _ => false

/-- The loop polls or hands a batch over: a message is in flight. -/
def Control.Carries : Control → Prop
  | .polling _ => True
  | .pushing _ _ _ => True
  | _ => False

namespace History

variable {c : FeedContext} {h h' : History} {incident : Incident}

/-! ## What is published -/

/-- A turn publishes the position of the loop or keeps it. -/
theorem published_of_step {f : Feed} {event : LoopEvent} {after : Loop}
    (hstep : f.loop.step c f.durable event = some after) :
    (Trail.published (f.advance event after).trail = Trail.published f.trail ∧
      after.position = f.loop.position) ∨
    Trail.published (f.advance event after).trail = Trail.published f.trail ++ [after.position] := by
  cases Loop.moves_of_step hstep with
  | waits hbefore hafter hresume hposition hbuffer hevent =>
      rw [Feed.advance_waits hbefore hafter hevent]
      exact .inl ⟨rfl, hposition⟩
  | opens resume hbefore hafter hkeeps =>
      rw [Feed.advance_opens hbefore hafter]
      exact .inl ⟨by simp [Trail.published], hkeeps.1⟩
  | reads hbefore hafter hconfirm hevent hkeeps =>
      rw [Feed.advance_reads hbefore hafter hevent]
      exact .inl ⟨rfl, hkeeps.1⟩
  | leaves outcome hbefore hafter hevent hkeeps =>
      rw [Feed.advance_leaves hbefore hafter hevent]
      exact .inl ⟨rfl, hkeeps.1⟩
  | rejects m fault confirmed hbefore hreceive hafter hkeeps =>
      rw [Feed.advance_rejects hbefore hafter]
      exact .inl ⟨by simp [Trail.published], hkeeps.1⟩
  | collects m buffer confirmed hbefore hreceive hafter hconfirm hposition hbuffer =>
      rw [Feed.advance_collects hbefore hafter]
      exact .inl ⟨by simp [Trail.published], hposition⟩
  | hands m buffer batch confirmed hbefore hreceive hafter hposition hbuffer =>
      rw [Feed.advance_hands hbefore hafter]
      exact .inl ⟨by simp [Trail.published], hposition⟩
  | publishes records last confirmed hbefore hafter hconfirm hposition hbuffer =>
      rw [Feed.advance_publishes hbefore hafter]
      exact .inr (by simp [Trail.published])
  | refused records last confirmed hbefore hafter hkeeps =>
      rw [Feed.advance_refused hbefore hafter]
      exact .inl ⟨rfl, hkeeps.1⟩
  | recovers fault closed hbefore hafter hposition hbuffer =>
      rw [Feed.advance_recovers hbefore hafter]
      exact .inl ⟨rfl, hposition⟩
  | ends result hbefore hafter hposition hevent =>
      rw [Feed.advance_ends hbefore hafter hevent]
      exact .inl ⟨rfl, hposition⟩

/-- The position of the loop is the one that was published last. -/
theorem published_of_extend (hextend : h.extend c incident = some h')
    (hposition : h.feed.loop.position = h.published c) :
    h'.feed.loop.position = h'.published c := by
  obtain ⟨-, hhappens, -⟩ := extend_facts hextend
  unfold published at hposition ⊢
  generalize h'.feed = g at hhappens
  cases hhappens with
  | turns hstep hhears =>
      rcases published_of_step hstep with ⟨hsame, hkept⟩ | hmore
      · rw [hsame]
        exact hkept.trans hposition
      · rw [hmore, List.getLastD_concat]
        rfl
  | outside hturn hnocall hloop hpublished hpushed hsteps => rw [hloop, hpublished, hposition]
  | marks => exact hposition
  | signals => exact hposition

/-! ## The way to the end -/

/-- A loop that was told to stop comes closer to its end with every turn, and nothing else moves
it. -/
theorem rank_of_extend (hstop : h.feed.loop.stopAsked = true)
    (hextend : h.extend c incident = some h') :
    (if incident.isTurn then 1 else 0) + h'.feed.loop.control.rank ≤
      h.feed.loop.control.rank := by
  obtain ⟨-, hhappens, -⟩ := extend_facts hextend
  generalize h'.feed = g at hhappens
  cases hhappens with
  | turns hstep hhears =>
      rw [Incident.isTurn, if_pos rfl, Nat.add_comm]
      exact ((Loop.turns_of_step hstep).rank_lt hstop).2
  | outside hturn hnocall hloop hpublished hpushed hsteps =>
      have hnot : incident.isTurn = false := by
        cases incident with
        | turn event => exact absurd rfl (hturn event)
        | _ => rfl
      rw [hnot, hloop]
      exact Nat.le_of_eq (Nat.zero_add _)
  | marks => exact Nat.le_of_eq (Nat.zero_add _)
  | signals => exact Nat.le_of_eq (Nat.zero_add _)

/-- A loop that was told to stop takes no more turns than its control point is away from the end. -/
theorem rank_of_run {more : List Incident} (hstop : h.feed.loop.stopAsked = true)
    (hmore : h.run c more = some h') :
    more.countP Incident.isTurn + h'.feed.loop.control.rank ≤ h.feed.loop.control.rank := by
  induction more generalizing h with
  | nil => exact Option.some.inj hmore ▸ Nat.le_of_eq (Nat.zero_add _)
  | cons incident rest ih =>
      rw [run, List.foldlM_cons] at hmore
      obtain ⟨next, hnext, hrest⟩ := Option.bind_eq_some_iff.mp hmore
      have hfirst := rank_of_extend hstop hnext
      have hlast := ih ((stop_asked_of_extend hnext).mpr (.inl hstop)) hrest
      rw [List.countP_cons]
      omega

/-- No control point is farther from the end than a poll. -/
theorem rank_le (control : Control) : control.rank ≤ 7 := by
  cases control <;> simp [Control.rank]

/-- A loop waits for an answer until it has ended. -/
theorem awaits_or_ended (loop : Loop) :
    (∃ event, loop.control.Awaits event) ∨ ∃ result, loop.result? = some result := by
  cases hcontrol : loop.control with
  | finished result => exact .inr ⟨result, Loop.result_eq_some_iff.mpr hcontrol⟩
  | opening => exact .inl ⟨.opened (.ok ()), trivial⟩
  | confirming => exact .inl ⟨.confirmed (.ok ()), trivial⟩
  | polling => exact .inl ⟨.polled (.ok none), trivial⟩
  | pushing => exact .inl ⟨.pushed true, trivial⟩
  | closing => exact .inl ⟨.closed (.ok ()), trivial⟩
  | idling | backingOff => exact .inl ⟨.woke, trivial⟩
  | starting | attending | ready | pausing | shaken => exact .inl ⟨.next, trivial⟩

/-! ## The message in flight -/

/-- Only a loop that polls comes to hand a batch over. -/
theorem polling_of_pushing {loop after : Loop} {durable : Option Position} {event : LoopEvent}
    (hmoves : loop.Moves c durable event after) (hafter : Feed.IsPushing after.control) :
    loop.control.Carries := by
  have hcontrol : ∀ {control : Control}, after.control = control → Feed.IsPushing control := by
    rintro control rfl
    exact hafter
  cases hmoves with
  | hands m buffer batch confirmed hbefore => exact hbefore ▸ trivial
  | waits _ hwaits => exact absurd hafter (Feed.not_pushing_of_waits hwaits).1
  | reads _ hreads => exact absurd hafter (Feed.not_pushing_of_reads hreads).1
  | collects m buffer confirmed hbefore => exact hbefore ▸ trivial
  | publishes records last confirmed hbefore => exact hbefore ▸ trivial
  | opens resume _ hattending => exact (hcontrol hattending).elim
  | leaves outcome _ hclosing => exact (hcontrol hclosing).elim
  | rejects m fault confirmed _ _ hclosing => exact (hcontrol hclosing).elim
  | refused records last confirmed _ hclosing => exact (hcontrol hclosing).elim
  | recovers fault closed _ hshaken => exact (hcontrol hshaken).elim
  | ends result _ hfinished => exact (hcontrol hfinished).elim

/-- Only a message in flight brings a fault. -/
theorem in_flight_of_fault {f g : Feed} {event : LoopEvent} {durable : Option Position}
    {after : Loop} (hturn : f.loop.Turns c durable event after)
    (hfault : Entry.fault? c ⟨f, .turn event, g⟩ ≠ none) : f.loop.control.Carries := by
  cases hturn with
  | goes hevent => exact absurd (plain_facts hevent f g []).2 hfault
  | leaves hevent => exact absurd (plain_facts hevent f g []).2 hfault
  | refused hbefore => exact hbefore ▸ trivial
  | breaks fault hevent => exact absurd (breaks_facts hevent f g []).2 hfault
  | recovers result hbefore => exact hbefore ▸ trivial
  | rejects m fault hbefore => exact hbefore ▸ trivial
  | unopened | shakes | closes | fails => exact absurd rfl hfault
  | finishes hevent => exact absurd (plain_facts hevent f g []).2 hfault

/-- A loop that was told to stop carries no message that it did not carry before. -/
theorem carries_before {f : Feed} {event : LoopEvent} {after : Loop}
    (hstep : f.loop.step c f.durable event = some after) (hstop : f.loop.stopAsked = true)
    (hafter : after.control.Carries) : f.loop.control.Carries := by
  have hstarts := ((Loop.turns_of_step hstep).rank_lt hstop).1
  unfold Control.Carries at hafter
  split at hafter
  · rename_i confirmed hpolling
    exact absurd (hpolling ▸ trivial) hstarts
  · rename_i records last confirmed hpushing
    exact polling_of_pushing (Loop.moves_of_step hstep) (hpushing ▸ trivial)
  · exact hafter.elim

/-- Once the loop was told to stop, only the message that was in flight then brings a fault. -/
theorem fault_in_flight_of_run {more : List Incident} (hstop : h.feed.loop.stopAsked = true)
    (hmore : h.run c more = some h') :
    h'.fault? c = h.fault? c ∨ h.feed.loop.control.Carries := by
  -- A message that the loop carries later was in flight when it was told to stop.
  have hkept := run_keeps (P := fun k => k.feed.loop.stopAsked = true ∧
    (k.feed.loop.control.Carries → h.feed.loop.control.Carries) ∧
      (k.fault? c = h.fault? c ∨ h.feed.loop.control.Carries)) ?_ ⟨hstop, id, .inl rfl⟩ hmore
  · exact hkept.2.2
  rintro k incident k' - hextend ⟨hstopped, hback, hfault⟩
  obtain ⟨-, hhappens, hentries⟩ := extend_facts hextend
  have hmore := fault_concat (c := c) hentries
  refine ⟨(stop_asked_of_extend hextend).mpr (.inl hstopped), ?_⟩
  generalize k'.feed = g at hhappens hmore
  have hsilent : Entry.fault? c ⟨k.feed, incident, g⟩ = none →
      k'.fault? c = h.fault? c ∨ h.feed.loop.control.Carries := by
    intro hnone
    rw [hmore, hnone, Option.or_none]
    exact hfault
  cases hhappens with
  | turns hstep hhears =>
      rename_i event after
      refine ⟨fun hafter => hback (carries_before hstep hstopped hafter), ?_⟩
      by_cases hnone : Entry.fault? c ⟨k.feed, .turn event, k.feed.advance event after⟩ = none
      · exact hsilent hnone
      · exact .inr (hback (in_flight_of_fault (Loop.turns_of_step hstep) hnone))
  | outside hturn hnocall hloop hpublished hpushed hsteps =>
      refine ⟨hloop ▸ hback, hsilent ?_⟩
      cases incident with
      | turn event => exact absurd rfl (hturn event)
      | _ => rfl
  | marks => exact ⟨hback, hsilent rfl⟩
  | signals => exact ⟨hback, hsilent rfl⟩

/-! ## The end -/

/-- The outcome of a feed, where it has ended. -/
structure EndsAsStopped (c : FeedContext) (h : History) : Prop where
  /-- After a call for a stop has returned, the loop takes at most seven turns. -/
  at_most : (∃ e ∈ h.entries, e.incident = .signal) → ∀ more h', h.run c more = some h' →
    more.countP Incident.isTurn + h'.feed.loop.control.rank ≤ 7
  /-- It has a turn for every answer that it waits for, and it waits for one until it has ended. -/
  goes_on : (∀ event, h.feed.loop.control.Awaits event →
      ∃ after, h.feed.loop.step c h.feed.durable event = some after) ∧
    ((∃ event, h.feed.loop.control.Awaits event) ∨ ∃ result, h.feed.loop.result? = some result)
  /-- A fault that comes then is that of the message which was in flight. -/
  in_flight : (∃ e ∈ h.entries, e.incident = .signal) → ∀ more h', h.run c more = some h' →
    h'.fault? c = h.fault? c ∨ h.feed.loop.control.Carries
  /-- It is stopped at the position that it published last, unless a message could not be dealt with
  or the failures in a row have come to the bound. -/
  stopped_iff : ∀ result, h.feed.loop.result? = some result →
    (result = .ok (h.published c) ∧ h.feed.loop.lifecycle = .stopped ↔
      h.fault? c = none ∧ h.streak.length < c.limit)
  /-- Otherwise it has failed with that fault, or has given up with the last failure. -/
  failed : ∀ result, h.feed.loop.result? = some result →
    ¬ (h.fault? c = none ∧ h.streak.length < c.limit) → h.feed.loop.lifecycle = .failed ∧
      ((∃ fault, h.fault? c = some fault ∧ result = .error fault) ∨
        ∃ fault, h.streak.head? = some fault ∧ h.streak.length = c.limit ∧
          result = .error (.exhausted c.limit fault))

/-- Every feed that is asked to stop ends soon, and as its history says. -/
theorem ends_after_stop (c : FeedContext) (capacity : Nat) (durable : Option Position)
    (incidents : List Incident) {h : History}
    (hrun : (c.history capacity durable).run c incidents = some h) : h.EndsAsStopped c := by
  obtain ⟨hs, hl⟩ := lives_of_run hrun
  have hpublished : h.feed.loop.position = h.published c :=
    run_keeps (P := fun h => h.feed.loop.position = h.published c)
      (fun _ _ _ _ hextend hposition => published_of_extend hextend hposition) rfl hrun
  refine ⟨?_, ⟨fun event hawaits => Loop.exists_step_of_awaits hawaits,
    awaits_or_ended h.feed.loop⟩, ?_, ?_, ?_⟩
  · intro hsignal more h' hmore
    have hstop := (stop_asked_iff_of_run hrun).mpr hsignal
    exact (rank_of_run hstop hmore).trans (rank_le _)
  · intro hsignal more h' hmore
    exact fault_in_flight_of_run ((stop_asked_iff_of_run hrun).mpr hsignal) hmore
  · intro result hresult
    have hcontrol := Loop.result_eq_some_iff.mp hresult
    rcases hs.ended_cases hcontrol with
      ⟨hnone, hbelow, rfl⟩ | ⟨fault, hsome, rfl⟩ | ⟨fault, -, -, hlimit, rfl⟩
    · rcases hl.ended_facts hcontrol with ⟨p, -, hstopped⟩ | ⟨fault, herror, -⟩
      · simp [hpublished, hstopped, hnone, hbelow]
      · exact absurd herror (by simp)
    · simp [hsome]
    · simp [hlimit]
  · intro result hresult hnot
    have hcontrol := Loop.result_eq_some_iff.mp hresult
    have hfailed : ∀ fault, result = .error fault → h.feed.loop.lifecycle = .failed := by
      rintro fault rfl
      rcases hl.ended_facts hcontrol with ⟨p, hok, -⟩ | ⟨-, -, hfailed⟩
      · exact absurd hok (by simp)
      · exact hfailed
    rcases hs.ended_cases hcontrol with
      ⟨hnone, hbelow, -⟩ | ⟨fault, hsome, herror⟩ | ⟨fault, -, hhead, hlimit, herror⟩
    · exact absurd ⟨hnone, hbelow⟩ hnot
    · exact ⟨hfailed _ herror, .inl ⟨fault, hsome, herror⟩⟩
    · exact ⟨hfailed _ herror, .inr ⟨fault, hhead, hlimit, herror⟩⟩

end History

/-- A feed that does not group and gives up at the first failure. -/
def FeedContext.ofSingles : FeedContext :=
  { FeedContext.ofItems with settings := ⟨"items", "items_slot", false, ⟨1, 0, 0⟩⟩ }

/-- A call for a stop comes in while the feed lives. -/
def Entry.stopsLive (e : Entry) : Bool :=
  match e.incident with
  | .mark => e.before.loop.lifecycle.isActive
  | _ => false

namespace History

/-- A feed over a channel for one record hands a first item over and waits with a second one, when a
call for a stop comes in. The receiver takes the first item, the feed publishes the second one, and
confirming it fails. -/
def stoppedBeforeConfirm : List Incident :=
  [.turn .next, .turn (.opened (.ok ())), .turn .next, .turn .next,
    .turn (.polled (.ok (some ⟨⟨2⟩, none,
      Text.toUtf8 "table public.item: INSERT: id[integer]:1".toList⟩))),
    .turn (.pushed true), .turn (.confirmed (.ok ())), .turn .next,
    .turn (.polled (.ok (some ⟨⟨3⟩, none,
      Text.toUtf8 "table public.item: INSERT: id[integer]:2".toList⟩))),
    .mark, .signal, .receive, .turn (.pushed true),
    .turn (.confirmed (.error (.disconnected "reset"))), .turn (.closed (.ok ()))]

/-- Where nothing is in flight but a confirm, a feed that is asked to stop gives up all the same. -/
theorem gives_up_after_stop :
    ¬ ∀ incidents h, (FeedContext.ofSingles.history 1 none).run .ofSingles incidents = some h →
      h.entries.any (·.stopsLive) = true → h.fault? .ofSingles = none →
      ∀ result, h.feed.loop.result? = some result →
        result = .ok (h.published .ofSingles) ∧ h.feed.loop.lifecycle = .stopped := by
  intro hall
  have hgives : ((FeedContext.ofSingles.history 1 none).run .ofSingles stoppedBeforeConfirm).map
      (fun h => (h.entries.any (·.stopsLive), h.fault? .ofSingles, h.feed.loop.result?)) =
      some (true, none, some (.error (.exhausted 1 (.disconnected "reset")))) := by
    decide +kernel
  obtain ⟨h, hrun, hfacts⟩ := Option.map_eq_some_iff.mp hgives
  obtain ⟨hlive, hrest⟩ := Prod.mk.inj hfacts
  obtain ⟨hfault, hresult⟩ := Prod.mk.inj hrest
  obtain ⟨hok, -⟩ := hall _ h hrun hlive hfault _ hresult
  exact absurd hok (by simp)

/-- A feed that gives up after a stop has come to its bound. -/
theorem ends_after_stop_at_bound :
    ∃ h, (FeedContext.ofSingles.history 1 none).run .ofSingles stoppedBeforeConfirm = some h ∧
      h.streak.length = FeedContext.ofSingles.limit ∧ h.published .ofSingles = ⟨3⟩ ∧
      h.EndsAsStopped .ofSingles := by
  have hends : ((FeedContext.ofSingles.history 1 none).run .ofSingles stoppedBeforeConfirm).map
      (fun h => (h.streak.length, h.published .ofSingles)) = some (1, ⟨3⟩) := by decide +kernel
  obtain ⟨h, hrun, hfacts⟩ := Option.map_eq_some_iff.mp hends
  obtain ⟨hlength, hpublished⟩ := Prod.mk.inj hfacts
  exact ⟨h, hrun, hlength, hpublished, ends_after_stop .ofSingles 1 none _ hrun⟩

end History

end ChangeFeed
