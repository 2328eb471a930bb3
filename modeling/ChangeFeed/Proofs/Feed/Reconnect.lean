import ChangeFeed.Proofs.Feed.Outcome
import ChangeFeed.Proofs.Feed.Wholeness

/-!
# The bound on reconnects

A feed counts the failures of its sessions in a row, whatever its policy and whatever the world
answers, and gives up exactly when they are as many as the policy allows
(`History.keeps_reconnect_bound`). Between two failures it opens at most one session, and how its
sessions were closed makes no difference to anything. Read `History.KeepsBound` for what that says;
it rests on `History.stands_of_run`. A failure is counted when its session is closed and not
before, so that the count is one behind in the meantime (`History.count_lags_in_closing`).
-/

namespace ChangeFeed

namespace Entry

/-- The incident is a failed open, poll or confirm. -/
def fails (e : Entry) : Bool :=
  !(e.incident.failuresAfter []).isEmpty

end Entry

/-- Two incidents that are the same, or both the end of a session that was closed. -/
def Incident.SameButClose (first second : Incident) : Prop :=
  first = second ∨
    ∃ result other, first = .turn (.closed result) ∧ second = .turn (.closed other)

namespace History

/-- Two histories with the same feeds before and after each incident, where sessions may have been
closed with different results. -/
structure SameButClose (h k : History) : Prop where
  feed : k.feed = h.feed
  calls : k.calls = h.calls
  entries : List.Forall₂ (fun e e' : Entry => e'.before = e.before ∧ e'.after = e.after ∧
    e.incident.SameButClose e'.incident) h.entries k.entries

/-- The bound on failures in a row that a feed keeps. -/
structure KeepsBound (c : FeedContext) (h : History) : Prop where
  /-- The loop counts the failed opens, polls and confirms since the last poll that succeeded. -/
  counts : (∀ fault, h.feed.loop.control ≠ .closing (.error (.session fault))) →
    h.feed.loop.failures = h.streak.length
  /-- While the session of the last failure is being closed, all others are counted. -/
  counts_others : ∀ fault, h.feed.loop.control = .closing (.error (.session fault)) →
    ∃ earlier, h.streak = fault :: earlier ∧ h.feed.loop.failures = earlier.length
  within : h.streak.length ≤ c.limit
  /-- The loop gives up at the bound, not earlier, and reports the bound and the last failure. -/
  gives_up_iff : ∀ attempts fault,
    h.feed.loop.result? = some (.error (.exhausted attempts fault)) ↔
      attempts = c.limit ∧ h.streak.length = c.limit ∧ h.streak.head? = some fault ∧
        h.feed.loop.control ≠ .closing (.error (.session fault))
  /-- Not later: at the bound a loop that still closes its session does nothing else, and gives up
  as soon as it has done so, with or without success. -/
  then_gives_up : h.streak.length = c.limit →
    ∀ fault, h.feed.loop.control = .closing (.error (.session fault)) →
      (∀ event after, h.feed.loop.step c h.feed.durable event = some after →
        ∃ result, event = .closed result) ∧
      ∀ result, ∃ after, h.feed.loop.step c h.feed.durable (.closed result) = some after ∧
        after.result? = some (.error (.exhausted c.limit fault))
  /-- Nothing else ends the loop, unless there is a stop or another fault. -/
  only_end : (∀ e ∈ h.entries, e.incident ≠ .signal) → h.fault? c = none →
    ∀ result, h.feed.loop.result? = some result →
      ∃ fault, result = .error (.exhausted c.limit fault)
  /-- After a failure, and before the next one, at most one open is started. -/
  one_open : ∀ more h', h.run c more = some h' →
    (∀ incident ∈ more, incident.failuresAfter [] = []) → h'.opens ≤ h.opens + 1

variable {c : FeedContext} {h h' k : History} {incident other : Incident}

/-! ## Giving up -/

/-- The fault of an incident is that of its message or of the channel. -/
theorem fault_of_entry {e : Entry} {fault : FeedFault} (h : e.fault? c = some fault) :
    fault = .channelClosed ∨ fault.OfMessage := by
  unfold Entry.fault? at h
  split at h
  · exact .inl (Option.some.inj h).symm
  · split at h
    · obtain rfl := Option.some.inj h
      exact .inr (Loop.receive_error ‹_›)
    · exact absurd h (by simp)
  · exact absurd h (by simp)

/-- The fault of a history is no row of failures. -/
theorem fault_ne_exhausted {fault : FeedFault} (hfault : h.fault? c = some fault)
    (attempts : Nat) (last : SessionFault) : fault ≠ .exhausted attempts last := by
  rintro rfl
  obtain ⟨e, -, he⟩ := List.exists_of_findSome?_eq_some hfault
  exact (fault_of_entry he).elim nofun id

/-- The verdict is giving up exactly if the failures in a row are as many as the policy allows and
nothing else has ended the feed. -/
theorem verdict_exhausted_iff {attempts : Nat} {fault : SessionFault} :
    h.verdict c = .error (.exhausted attempts fault) ↔
      h.fault? c = none ∧ attempts = c.limit ∧ h.streak.length = c.limit ∧
        h.streak.head? = some fault := by
  unfold verdict
  split
  · rename_i other hsome
    constructor
    · intro heq
      exact absurd (Except.error.inj heq) (fault_ne_exhausted hsome _ _)
    · rintro ⟨hnone, -⟩
      exact absurd (hsome.symm.trans hnone) (by simp)
  · rename_i last earlier hnone hstreak
    rw [hstreak]
    split
    · rename_i hlimit
      simp [hnone, hlimit, eq_comm]
    · rename_i hlimit
      simp [hlimit]
  · rename_i hnone hstreak
    simp [hstreak]

/-- A loop gives up exactly at the bound. -/
theorem gives_up_iff_of_stands (hs : h.Stands c) (attempts : Nat) (fault : SessionFault) :
    h.feed.loop.result? = some (.error (.exhausted attempts fault)) ↔
      attempts = c.limit ∧ h.streak.length = c.limit ∧ h.streak.head? = some fault ∧
        h.feed.loop.control ≠ .closing (.error (.session fault)) := by
  rw [Loop.result_eq_some_iff]
  constructor
  · intro hfinished
    obtain ⟨hverdict, -⟩ := hs.ended_facts hfinished
    obtain ⟨-, hattempts, hlength, hhead⟩ := verdict_exhausted_iff.mp hverdict.symm
    exact ⟨hattempts, hlength, hhead, by simp [hfinished]⟩
  · rintro ⟨hattempts, hlength, hhead, hcontrol⟩
    cases hs with
    | underWay hway hfault hcount hbound => omega
    | leaves hclosing hfault hcount hbound => omega
    | breaks last earlier hclosing hfault hstreak =>
        obtain rfl : last = fault := by simpa [hstreak] using hhead
        exact absurd hclosing hcontrol
    | gives other hclosing hother hfault hcount hbound => omega
    | ended hfinished hcount hbound =>
        have hnone : h.fault? c = none := (hbound.resolve_left (by omega)).1
        rw [hfinished, verdict_exhausted_iff.mpr ⟨hnone, hattempts, hlength, hhead⟩]

/-- A loop that closes a session that failed does nothing else. -/
theorem closed_of_step {loop after : Loop} {durable : Option Position} {event : LoopEvent}
    {outcome : Except FeedFault Unit} (hcontrol : loop.control = .closing outcome)
    (hstep : loop.step c durable event = some after) : ∃ result, event = .closed result := by
  have hclosing : ¬ loop.control.UnderWay := by
    rw [hcontrol]
    exact id
  cases Loop.turns_of_step hstep with
  | shakes fault closed => exact ⟨closed, rfl⟩
  | closes closed => exact ⟨closed, rfl⟩
  | fails fault closed => exact ⟨closed, rfl⟩
  | goes hevent hbefore => exact absurd hbefore hclosing
  | leaves hevent hbefore => exact absurd hbefore.under_way hclosing
  | refused hbefore => exact absurd (hbefore ▸ trivial) hclosing
  | breaks fault hevent hbefore => exact absurd hbefore.under_way hclosing
  | recovers result hbefore => exact absurd (hbefore ▸ trivial) hclosing
  | rejects m fault hbefore => exact absurd (hbefore ▸ trivial) hclosing
  | unopened fault hbefore => exact absurd (hbefore ▸ trivial) hclosing
  | finishes hevent hbefore => exact absurd hbefore.under_way hclosing

/-- At the bound, a loop whose session is closed gives up. -/
theorem gives_up_of_closed (hs : h.Stands c) (hlength : h.streak.length = c.limit)
    {fault : SessionFault} (hcontrol : h.feed.loop.control = .closing (.error (.session fault)))
    (result : Except SessionFault Unit) :
    ∃ after, h.feed.loop.step c h.feed.durable (.closed result) = some after ∧
      after.result? = some (.error (.exhausted c.limit fault)) := by
  -- All failures but this one are counted, and this one comes to the bound.
  obtain ⟨earlier, -, hstreak, hcount, hbound⟩ := hs.breaks_facts hcontrol
  rw [hstreak, List.length_cons, hcount] at hlength
  refine ⟨h.feed.loop.shake c.settings.reconnect fault, by simp only [Loop.step, hcontrol], ?_⟩
  obtain ⟨-, -, ⟨-, hend, -⟩ | ⟨hmax, -⟩⟩ := h.feed.loop.shake_spec c.settings.reconnect fault
  · rw [Loop.result?, hend, ← hlength]
  · unfold FeedContext.limit at hlength hbound
    omega

/-- A loop that nobody has asked to stop and no other fault has hit ends by giving up. -/
theorem exhausted_of_result (hs : h.Stands c) (hstop : ¬ h.feed.loop.stopAsked = true)
    (hfault : h.fault? c = none) {result : Except FeedFault Position}
    (hresult : h.feed.loop.result? = some result) :
    ∃ fault, result = .error (.exhausted c.limit fault) := by
  obtain ⟨rfl, -, -, hasked⟩ := hs.ended_facts (Loop.result_eq_some_iff.mp hresult)
  rcases verdict_cases hfault with hgives | hok
  · exact hgives
  · exact absurd (hasked _ hok) hstop

/-! ## One open for each failure -/

/-- An incident that starts an open comes to one. -/
theorem exists_opening_of_opens {e : Entry} (h : e.opens = true) :
    (∀ resume, e.before.loop.control ≠ .opening resume) ∧
      ∃ resume, e.after.loop.control = .opening resume := by
  unfold Entry.opens at h
  split at h
  · exact absurd h (by simp)
  · rename_i resume hopening hnot
    exact ⟨hnot, resume, hopening⟩
  · exact absurd h (by simp)

/-- An incident without a failure makes no open due, and starts one only where it is due. -/
theorem due_of_extend (hextend : h.extend c incident = some h')
    (hsilent : incident.failuresAfter [] = []) :
    (h'.feed.loop.control.Unopened → h.feed.loop.control.Unopened) ∧
      (h'.opens = h.opens ∨ h'.opens = h.opens + 1 ∧ h.feed.loop.control.Unopened ∧
        ¬ h'.feed.loop.control.Unopened) := by
  obtain ⟨-, hhappens, hentries⟩ := extend_facts hextend
  rw [opens_concat hentries]
  generalize h'.feed = g at hhappens
  have hopens : (Entry.opens ⟨h.feed, incident, g⟩ = true → h.feed.loop.control.Unopened) →
      h.opens + (if Entry.opens ⟨h.feed, incident, g⟩ then 1 else 0) = h.opens ∨
        h.opens + (if Entry.opens ⟨h.feed, incident, g⟩ then 1 else 0) = h.opens + 1 ∧
          h.feed.loop.control.Unopened ∧ ¬ g.loop.control.Unopened := by
    intro hdue
    split
    · rename_i hopen
      obtain ⟨-, resume, hopening⟩ := exists_opening_of_opens hopen
      refine .inr ⟨rfl, hdue hopen, ?_⟩
      rw [hopening]
      exact id
    · exact .inl rfl
  -- Where the control point stays as it is, no open is started.
  have hstill : g.loop.control = h.feed.loop.control →
      Entry.opens ⟨h.feed, incident, g⟩ = true → h.feed.loop.control.Unopened := by
    intro hsame hopen
    obtain ⟨hnot, resume, hopening⟩ := exists_opening_of_opens hopen
    exact absurd (hsame ▸ hopening) (hnot resume)
  cases hhappens with
  | turns hstep hhears =>
      have hturn := Loop.turns_of_step hstep
      refine ⟨hturn.unopened_before ?_ ?_, hopens ?_⟩
      · rintro fault rfl
        exact absurd hsilent (by simp [Incident.failuresAfter])
      · intro fault hbreaks
        rw [(breaks_facts (c := c) hbreaks h.feed h.feed []).1] at hsilent
        exact absurd hsilent (by simp)
      · intro hopen
        obtain ⟨-, resume, hopening⟩ := exists_opening_of_opens hopen
        exact hturn.opening_due hopening
  | outside hturn hcalls hloop hpublished hpushed hsteps =>
      have hsame := congrArg Loop.control hloop
      exact ⟨fun hafter => hsame ▸ hafter, hopens (hstill hsame)⟩
  | marks => exact ⟨id, hopens (hstill rfl)⟩
  | signals => exact ⟨id, hopens (hstill rfl)⟩

/-- Between two failures at most one open is started. -/
theorem one_open_of_run {more : List Incident} (hrun : h.run c more = some h')
    (hsilent : ∀ incident ∈ more, incident.failuresAfter [] = []) : h'.opens ≤ h.opens + 1 := by
  have hdue : h'.opens = h.opens ∨
      h'.opens = h.opens + 1 ∧ ¬ h'.feed.loop.control.Unopened := by
    refine run_keeps (P := fun k => k.opens = h.opens ∨
      k.opens = h.opens + 1 ∧ ¬ k.feed.loop.control.Unopened) ?_ (.inl rfl) hrun
    intro k incident k' hmem hextend hdue
    -- Once an open was started none is due, and without a failure none becomes due.
    obtain ⟨hback, hsame | ⟨hmore, hbefore, hafter⟩⟩ := due_of_extend hextend (hsilent incident hmem)
    · rw [hsame]
      exact hdue.imp id (And.imp id (mt hback))
    · obtain hfirst | ⟨-, hopen⟩ := hdue
      · exact .inr ⟨by rw [hmore, hfirst], hafter⟩
      · exact absurd hbefore hopen
  rcases hdue with hsame | ⟨hmore, -⟩ <;> omega

/-! ## Sessions that are closed with another result -/

/-- The loop does not look at how closing a session went. -/
theorem step_closed (loop : Loop) (durable : Option Position)
    (result other : Except SessionFault Unit) :
    loop.step c durable (.closed other) = loop.step c durable (.closed result) := by
  cases hcontrol : loop.control with
  | closing outcome =>
      rcases outcome with fault | ⟨⟩
      · cases fault <;> simp only [Loop.step, hcontrol]
      · simp only [Loop.step, hcontrol]
  | _ => simp only [Loop.step, hcontrol]

/-- An incident that differs in how a session was closed has the same effect. -/
theorem happen_same (f : Feed) (hsame : incident.SameButClose other) :
    f.happen c other = f.happen c incident := by
  rcases hsame with rfl | ⟨result, result', rfl, rfl⟩
  · rfl
  · have hadvance : f.advance (.closed result') = f.advance (.closed result) := by
      funext after
      cases hcontrol : f.loop.control <;> simp [Feed.advance, Feed.news, hcontrol]
    simp only [Feed.happen, Feed.hears, step_closed f.loop f.durable result result', hadvance]

/-- Whatever takes place, takes place as well where sessions are closed with another result. -/
theorem SameButClose.extend (hsame : h.SameButClose k) (hincident : incident.SameButClose other)
    (hextend : h.extend c incident = some h') :
    ∃ k', k.extend c other = some k' ∧ h'.SameButClose k' := by
  obtain ⟨calls, hcalls, hextend⟩ := Option.bind_eq_some_iff.mp hextend
  obtain ⟨after, hafter, hextend⟩ := Option.bind_eq_some_iff.mp hextend
  obtain rfl := Option.some.inj hextend
  have hother : other.callsAfter k.calls = some calls := by
    rw [hsame.calls, ← hcalls]
    rcases hincident with rfl | ⟨result, result', rfl, rfl⟩ <;> rfl
  have hhappen : k.feed.happen c other = some after := by
    rw [hsame.feed, happen_same _ hincident, hafter]
  refine ⟨⟨after, calls, k.entries ++ [⟨k.feed, other, after⟩]⟩, ?_, rfl, rfl, ?_⟩
  · simp only [History.extend, hother, hhappen]
    rfl
  · exact List.rel_append hsame.entries (.cons ⟨hsame.feed, rfl, hincident⟩ .nil)

/-- Whatever has taken place, could have taken place as well where sessions are closed with another
result. -/
theorem SameButClose.run {incidents others : List Incident} (hsame : h.SameButClose k)
    (hincidents : List.Forall₂ Incident.SameButClose incidents others)
    (hrun : h.run c incidents = some h') : ∃ k', k.run c others = some k' ∧ h'.SameButClose k' := by
  induction hincidents generalizing h k with
  | nil => exact ⟨k, rfl, Option.some.inj hrun ▸ hsame⟩
  | cons hfirst _ ih =>
      rw [History.run, List.foldlM_cons] at hrun
      obtain ⟨next, hnext, hrest⟩ := Option.bind_eq_some_iff.mp hrun
      obtain ⟨k', hextend, hnext⟩ := hsame.extend hfirst hnext
      obtain ⟨last, hlast, hend⟩ := ih hnext hrest
      exact ⟨last, by rw [History.run, List.foldlM_cons, hextend]; exact hlast, hend⟩

/-- How a session was closed makes no difference to the row of failures. -/
theorem failures_after_same (hsame : incident.SameButClose other) (faults : List SessionFault) :
    other.failuresAfter faults = incident.failuresAfter faults := by
  rcases hsame with rfl | ⟨result, result', rfl, rfl⟩ <;> rfl

/-- How sessions were closed makes no difference to what is counted. -/
theorem SameButClose.counts (hsame : h.SameButClose k) :
    k.streak = h.streak ∧ k.opens = h.opens := by
  obtain ⟨-, -, hentries⟩ := hsame
  unfold streak opens
  generalize ([] : List SessionFault) = faults
  generalize h.entries = entries, k.entries = others at hentries
  induction hentries generalizing faults with
  | nil => exact ⟨rfl, rfl⟩
  | cons hfirst _ ih =>
      obtain ⟨hbefore, hafter, hincident⟩ := hfirst
      refine ⟨?_, ?_⟩
      · rw [List.foldl_cons, List.foldl_cons, failures_after_same hincident]
        exact (ih _).1
      · rw [List.countP_cons, List.countP_cons, (ih faults).2, Entry.opens, Entry.opens, hbefore,
          hafter]

/-! ## The bound -/

/-- Every feed keeps the bound of its policy, and however its sessions are closed instead, the same
happens. -/
theorem keeps_reconnect_bound (c : FeedContext) (capacity : Nat) (durable : Option Position)
    (incidents : List Incident) {h : History}
    (hrun : (c.history capacity durable).run c incidents = some h) :
    h.KeepsBound c ∧
      ∀ others, List.Forall₂ Incident.SameButClose incidents others →
        ∃ k, (c.history capacity durable).run c others = some k ∧ h.SameButClose k ∧
          k.streak = h.streak ∧ k.opens = h.opens := by
  have hs := stands_of_run hrun
  refine ⟨⟨?_, ?_, ?_, gives_up_iff_of_stands hs, ?_, ?_, ?_⟩, ?_⟩
  · intro hcontrol
    cases hs with
    | underWay _ _ hcount => exact hcount.symm
    | leaves _ _ hcount => exact hcount.symm
    | breaks fault _ hclosing => exact absurd hclosing (hcontrol fault)
    | gives _ _ _ _ hcount => exact hcount.symm
    | ended _ hcount => exact hcount.symm
  · intro fault hcontrol
    obtain ⟨earlier, -, hstreak, hcount, -⟩ := hs.breaks_facts hcontrol
    exact ⟨earlier, hstreak, hcount.symm⟩
  · cases hs with
    | underWay _ _ hcount hbound => omega
    | leaves _ _ hcount hbound => omega
    | breaks _ _ _ _ hstreak hcount hbound =>
        rw [hstreak, List.length_cons]
        omega
    | gives _ _ _ _ hcount hbound => omega
    | ended _ hcount hbound => omega
  · intro hlength fault hcontrol
    exact ⟨fun event after hstep => closed_of_step hcontrol hstep,
      gives_up_of_closed hs hlength hcontrol⟩
  · intro hsignal hfault result hresult
    exact exhausted_of_result hs (fun hstop => by
      obtain ⟨e, he, hasked⟩ := (stop_asked_iff_of_run hrun).mp hstop
      exact hsignal e he hasked) hfault hresult
  · intro more h' hmore hsilent
    exact one_open_of_run hmore hsilent
  · intro others hothers
    have hstart : (c.history capacity durable).SameButClose (c.history capacity durable) :=
      ⟨rfl, rfl, .nil⟩
    obtain ⟨k, hk, hsame⟩ := hstart.run hothers hrun
    exact ⟨k, hk, hsame, hsame.counts⟩

/-- A first session cannot be opened, a second one fails at its first poll and cannot be closed
either, and a third one cannot be opened. -/
def threeFailures : List Incident :=
  [.turn .next, .turn (.opened (.error .closed)), .turn .next, .turn .woke,
    .turn .next, .turn (.opened (.ok ())), .turn .next, .turn .next,
    .turn (.polled (.error (.disconnected "reset"))), .turn (.closed (.error .closed)),
    .turn .next, .turn .woke, .turn .next, .turn (.opened (.error .closed))]

/-- A feed that may fail three times gives up at the third failure, and keeps its bound. -/
theorem keeps_reconnect_bound_three :
    ∃ h, (FeedContext.ofItems.history 8 none).run .ofItems threeFailures = some h ∧
      h.feed.loop.result? = some (.error (.exhausted 3 .closed)) ∧ h.opens = 3 ∧
      h.KeepsBound .ofItems :=
  ⟨_, rfl, rfl, rfl, (keeps_reconnect_bound .ofItems 8 none threeFailures rfl).1⟩

/-- A session is opened, fails at its first poll, and is still being closed. -/
def failureInClosing : List Incident :=
  [.turn .next, .turn (.opened (.ok ())), .turn .next, .turn .next,
    .turn (.polled (.error (.disconnected "reset")))]

/-- While the session that has failed is being closed, the count lags: there is one failure since
the last poll that succeeded, nobody has asked for a stop, nothing else has gone wrong, and the loop
has counted none. It counts the failure when the session is closed. -/
theorem count_lags_in_closing :
    ∃ h h', (FeedContext.ofItems.history 8 none).run .ofItems failureInClosing = some h ∧
      h.feed.loop.control = .closing (.error (.session (.disconnected "reset"))) ∧
      h.fault? .ofItems = none ∧ h.feed.loop.stopAsked = false ∧
      h.streak = [.disconnected "reset"] ∧ h.feed.loop.failures = 0 ∧
      h.run .ofItems [.turn (.closed (.ok ()))] = some h' ∧
      h'.streak = [.disconnected "reset"] ∧ h'.feed.loop.failures = 1 :=
  ⟨_, _, rfl, rfl, rfl, rfl, rfl, rfl, rfl, rfl, rfl⟩

end History

end ChangeFeed
