import ChangeFeed.Proofs.Feed.History

/-!
# What a history comes to

Where the read loop of a feed stands after a history: under way, leaving a session, or at its end
(`History.Stands`). The count of its failures is that of the history, less the failure of a session
that is still being closed, and a loop that has ended has come to the verdict of its history
(`History.verdict`): the first fault that no session overcomes, giving up at the bound of its
policy, or its last position. Read `History.stands_of_run` first.
-/

namespace ChangeFeed

/-- The failures in a row after which a feed gives up; no policy makes it give up before the
first. -/
def FeedContext.limit (c : FeedContext) : Nat :=
  max 1 c.settings.reconnect.maxAttempts

namespace History

/-- How a feed with this history ends. -/
def verdict (c : FeedContext) (h : History) : Except FeedFault Position :=
  match h.fault? c, h.streak with
  | some fault, _ => .error fault
  | none, fault :: earlier =>
    if earlier.length + 1 = c.limit then .error (.exhausted c.limit fault)
    else .ok h.feed.loop.position
  | none, [] => .ok h.feed.loop.position

/-- Where a read loop stands after a history. -/
inductive Stands (c : FeedContext) (h : History) : Prop
  | underWay (hcontrol : h.feed.loop.control.UnderWay) (hfault : h.fault? c = none)
      (hcount : h.streak.length = h.feed.loop.failures) (hbound : h.feed.loop.failures < c.limit)
  /-- The loop leaves its session on request. -/
  | leaves (hcontrol : h.feed.loop.control = .closing (.ok ())) (hfault : h.fault? c = none)
      (hcount : h.streak.length = h.feed.loop.failures) (hbound : h.feed.loop.failures < c.limit)
      (hstop : h.feed.loop.stopAsked = true)
  /-- The loop leaves a session that failed and has not counted that yet. -/
  | breaks (fault : SessionFault) (earlier : List SessionFault)
      (hcontrol : h.feed.loop.control = .closing (.error (.session fault)))
      (hfault : h.fault? c = none) (hstreak : h.streak = fault :: earlier)
      (hcount : earlier.length = h.feed.loop.failures) (hbound : h.feed.loop.failures < c.limit)
  /-- The loop leaves its session because of a fault that no other session overcomes. -/
  | gives (fault : FeedFault) (hcontrol : h.feed.loop.control = .closing (.error fault))
      (hother : fault = .channelClosed ∨ fault.OfMessage) (hfault : h.fault? c = some fault)
      (hcount : h.streak.length = h.feed.loop.failures) (hbound : h.feed.loop.failures < c.limit)
  | ended (hcontrol : h.feed.loop.control = .finished (h.verdict c))
      (hcount : h.streak.length = h.feed.loop.failures)
      (hbound : h.feed.loop.failures < c.limit ∨
        h.fault? c = none ∧ h.feed.loop.failures = c.limit)
      (hstop : ∀ p, h.verdict c = .ok p → h.feed.loop.stopAsked = true)

variable {c : FeedContext} {h h' : History}

/-! ## The verdict -/

/-- A fault that no session overcomes is the verdict. -/
theorem verdict_of_fault {fault : FeedFault} (hfault : h.fault? c = some fault) :
    h.verdict c = .error fault := by
  rw [verdict, hfault]

/-- As many failures in a row as the policy allows are the verdict. -/
theorem verdict_of_limit {fault : SessionFault} {earlier : List SessionFault}
    (hfault : h.fault? c = none) (hstreak : h.streak = fault :: earlier)
    (hlimit : earlier.length + 1 = c.limit) :
    h.verdict c = .error (.exhausted c.limit fault) := by
  simp only [verdict, hfault, hstreak, hlimit, if_true]

/-- Otherwise the verdict is the last position. -/
theorem verdict_of_below (hfault : h.fault? c = none) (hbelow : h.streak.length < c.limit) :
    h.verdict c = .ok h.feed.loop.position := by
  unfold verdict
  split
  · rename_i hsome
    exact absurd (hfault.symm.trans hsome) (by simp)
  · rename_i hstreak
    rw [hstreak, List.length_cons] at hbelow
    rw [if_neg (by omega)]
  · rfl

/-- Where no other fault has hit a feed, the verdict is giving up or the last position. -/
theorem verdict_cases (hfault : h.fault? c = none) :
    (∃ fault, h.verdict c = .error (.exhausted c.limit fault)) ∨
      h.verdict c = .ok h.feed.loop.position := by
  unfold verdict
  split
  · rename_i hsome
    exact absurd (hfault.symm.trans hsome) (by simp)
  · split
    · exact .inl ⟨_, rfl⟩
    · exact .inr rfl
  · exact .inr rfl

/-! ## What the incidents of a turn add -/

/-- A plain answer brings no failure and no fault. -/
theorem plain_facts {event : LoopEvent} (hevent : event.IsPlain) (f g : Feed)
    (faults : List SessionFault) : (Incident.turn event).failuresAfter faults = faults ∧
      Entry.fault? c ⟨f, .turn event, g⟩ = none := by
  cases event with
  | opened result => cases result <;> first | exact hevent.elim | exact ⟨rfl, rfl⟩
  | confirmed result => cases result <;> first | exact hevent.elim | exact ⟨rfl, rfl⟩
  | pushed taken => cases taken <;> first | exact hevent.elim | exact ⟨rfl, rfl⟩
  | polled result => exact hevent.elim
  | closed result => exact hevent.elim
  | next | woke | stopSeen => exact ⟨rfl, rfl⟩

/-- The failure of an open session is one more in the row. -/
theorem breaks_facts {event : LoopEvent} {fault : SessionFault} (hevent : event.BreaksWith fault)
    (f g : Feed) (faults : List SessionFault) :
    (Incident.turn event).failuresAfter faults = fault :: faults ∧
      Entry.fault? c ⟨f, .turn event, g⟩ = none := by
  unfold LoopEvent.BreaksWith at hevent
  split at hevent
  · exact hevent ▸ ⟨rfl, rfl⟩
  · exact hevent ▸ ⟨rfl, rfl⟩
  · exact hevent.elim

/-! ## What every incident keeps -/

/-- A loop that is under way has counted all failures, and may have one more. -/
theorem Stands.under_way_facts (hs : h.Stands c) (hcontrol : h.feed.loop.control.UnderWay) :
    h.fault? c = none ∧ h.streak.length = h.feed.loop.failures ∧
      h.feed.loop.failures < c.limit := by
  cases hs with
  | underWay _ hfault hcount hbound => exact ⟨hfault, hcount, hbound⟩
  | leaves hclosing => exact (hclosing ▸ hcontrol : Control.UnderWay (.closing _)).elim
  | breaks fault earlier hclosing => exact (hclosing ▸ hcontrol : Control.UnderWay (.closing _)).elim
  | gives fault hclosing => exact (hclosing ▸ hcontrol : Control.UnderWay (.closing _)).elim
  | ended hfinished => exact (hfinished ▸ hcontrol : Control.UnderWay (.finished _)).elim

/-- A loop that leaves its session on request has counted all failures. -/
theorem Stands.leaves_facts (hs : h.Stands c) (hcontrol : h.feed.loop.control = .closing (.ok ())) :
    h.fault? c = none ∧ h.streak.length = h.feed.loop.failures ∧
      h.feed.loop.failures < c.limit ∧ h.feed.loop.stopAsked = true := by
  cases hs with
  | underWay hway => exact (hcontrol ▸ hway : Control.UnderWay (.closing _)).elim
  | leaves _ hfault hcount hbound hstop => exact ⟨hfault, hcount, hbound, hstop⟩
  | breaks fault earlier hclosing => exact absurd (hcontrol.symm.trans hclosing) (by simp)
  | gives fault hclosing => exact absurd (hcontrol.symm.trans hclosing) (by simp)
  | ended hfinished => exact absurd (hcontrol.symm.trans hfinished) (by simp)

/-- A loop that leaves a session which failed has counted all failures but this one. -/
theorem Stands.breaks_facts {fault : SessionFault} (hs : h.Stands c)
    (hcontrol : h.feed.loop.control = .closing (.error (.session fault))) :
    ∃ earlier, h.fault? c = none ∧ h.streak = fault :: earlier ∧
      earlier.length = h.feed.loop.failures ∧ h.feed.loop.failures < c.limit := by
  cases hs with
  | underWay hway => exact (hcontrol ▸ hway : Control.UnderWay (.closing _)).elim
  | leaves hclosing => exact absurd (hcontrol.symm.trans hclosing) (by simp)
  | breaks other earlier hclosing hfault hstreak hcount hbound =>
      obtain rfl : fault = other := by simpa using hcontrol.symm.trans hclosing
      exact ⟨earlier, hfault, hstreak, hcount, hbound⟩
  | gives other hclosing hother =>
      obtain rfl : FeedFault.session fault = other := by simpa using hcontrol.symm.trans hclosing
      exact absurd hother (by simp [FeedFault.OfMessage])
  | ended hfinished => exact absurd (hcontrol.symm.trans hfinished) (by simp)

/-- A loop that leaves its session because of another fault has counted all failures. -/
theorem Stands.gives_facts {fault : FeedFault} (hs : h.Stands c)
    (hcontrol : h.feed.loop.control = .closing (.error fault))
    (hsession : ∀ reason, fault ≠ .session reason) :
    h.fault? c = some fault ∧ h.streak.length = h.feed.loop.failures ∧
      h.feed.loop.failures < c.limit := by
  cases hs with
  | underWay hway => exact (hcontrol ▸ hway : Control.UnderWay (.closing _)).elim
  | leaves hclosing => exact absurd (hcontrol.symm.trans hclosing) (by simp)
  | breaks reason earlier hclosing =>
      exact absurd (by simpa using hcontrol.symm.trans hclosing) (hsession reason)
  | gives other hclosing _ hfault hcount hbound =>
      obtain rfl : fault = other := by simpa using hcontrol.symm.trans hclosing
      exact ⟨hfault, hcount, hbound⟩
  | ended hfinished => exact absurd (hcontrol.symm.trans hfinished) (by simp)

/-- A loop that has ended has come to the verdict of its history. -/
theorem Stands.ended_facts {result : Except FeedFault Position} (hs : h.Stands c)
    (hcontrol : h.feed.loop.control = .finished result) :
    result = h.verdict c ∧ h.streak.length = h.feed.loop.failures ∧
      (h.feed.loop.failures < c.limit ∨ h.fault? c = none ∧ h.feed.loop.failures = c.limit) ∧
      ∀ p, result = .ok p → h.feed.loop.stopAsked = true := by
  cases hs with
  | underWay hway => exact (hcontrol ▸ hway : Control.UnderWay (.finished _)).elim
  | leaves hclosing => exact absurd (hcontrol.symm.trans hclosing) (by simp)
  | breaks fault earlier hclosing => exact absurd (hcontrol.symm.trans hclosing) (by simp)
  | gives fault hclosing => exact absurd (hcontrol.symm.trans hclosing) (by simp)
  | ended hfinished hcount hbound hstop =>
      obtain rfl : result = h.verdict c := by simpa using hcontrol.symm.trans hfinished
      exact ⟨rfl, hcount, hbound, hstop⟩

/-- The three ends of a feed: its last position, a fault, or giving up. -/
theorem Stands.ended_cases {result : Except FeedFault Position} (hs : h.Stands c)
    (hcontrol : h.feed.loop.control = .finished result) :
    (h.fault? c = none ∧ h.streak.length < c.limit ∧ result = .ok h.feed.loop.position) ∨
      (∃ fault, h.fault? c = some fault ∧ result = .error fault) ∨
      ∃ fault, h.fault? c = none ∧ h.streak.head? = some fault ∧ h.streak.length = c.limit ∧
        result = .error (.exhausted c.limit fault) := by
  obtain ⟨rfl, hcount, hbound, -⟩ := hs.ended_facts hcontrol
  cases hfault : h.fault? c with
  | some fault => exact .inr (.inl ⟨fault, rfl, verdict_of_fault hfault⟩)
  | none =>
      rcases hbound with hbelow | ⟨-, hlimit⟩
      · have hshort : h.streak.length < c.limit := by omega
        exact .inl ⟨rfl, hshort, verdict_of_below hfault hshort⟩
      · have hpositive : 0 < c.limit := Nat.lt_of_lt_of_le Nat.one_pos (Nat.le_max_left _ _)
        cases hstreak : h.streak with
        | nil => exact absurd (hstreak ▸ hcount) (by simp; omega)
        | cons fault earlier =>
            have hlength : earlier.length + 1 = c.limit := by
              rw [hstreak, List.length_cons] at hcount
              omega
            exact .inr (.inr ⟨fault, rfl, rfl, hlength, verdict_of_limit hfault hstreak hlength⟩)

/-- A loop that counts another failure goes on, or ends if the failures in a row are as many as its
policy allows. -/
theorem stands_of_shake {loop : Loop} {fault : SessionFault} {earlier : List SessionFault}
    (hloop : h'.feed.loop = loop.shake c.settings.reconnect fault) (hfault : h'.fault? c = none)
    (hstreak : h'.streak = fault :: earlier) (hcount : earlier.length = loop.failures)
    (hbound : loop.failures < c.limit) : h'.Stands c := by
  have hlength : h'.streak.length = loop.failures + 1 := by rw [hstreak, List.length_cons, hcount]
  obtain ⟨hfailures, -, hend⟩ := loop.shake_spec c.settings.reconnect fault
  rw [← hloop] at hfailures hend
  unfold FeedContext.limit at hbound
  rcases hend with ⟨hmax, hcontrol, -⟩ | ⟨hmax, hcontrol, -⟩
  · have hlimit : loop.failures + 1 = c.limit := by unfold FeedContext.limit; omega
    have hverdict := verdict_of_limit hfault hstreak (by omega)
    refine .ended ?_ (hlength.trans hfailures.symm) (.inr ⟨hfault, hfailures.trans hlimit⟩) ?_
    · rw [hcontrol, hverdict, hlimit]
    · intro p hp
      exact absurd (hverdict.symm.trans hp) (by simp)
  · refine .underWay (hcontrol ▸ trivial) hfault (hlength.trans hfailures.symm) ?_
    unfold FeedContext.limit
    omega

/-- A loop that ends on request has come to its last position. -/
theorem stands_of_finish {loop : Loop} (hloop : h'.feed.loop = loop.finish)
    (hfault : h'.fault? c = none) (hcount : h'.streak.length = loop.failures)
    (hbound : loop.failures < c.limit) (hstop : loop.stopAsked = true) : h'.Stands c := by
  have hverdict : h'.verdict c = .ok loop.position := by
    rw [verdict_of_below hfault (by omega), hloop]
    rfl
  have hfailures : h'.feed.loop.failures = loop.failures := by rw [hloop]; rfl
  refine .ended ?_ (hcount.trans hfailures.symm) (.inl (by omega)) ?_
  · rw [hverdict, hloop]
    rfl
  · intro p hp
    rw [hloop]
    exact hstop

/-- A turn that brings neither a failure nor a fault keeps what a history tells. -/
theorem silent_facts {event : LoopEvent} {faults : List SessionFault} {fault? : Option FeedFault}
    (hentries : h'.entries = h.entries ++ [⟨h.feed, .turn event, h'.feed⟩])
    (hevent : (Incident.turn event).failuresAfter h.streak = faults ∧
      Entry.fault? c ⟨h.feed, .turn event, h'.feed⟩ = fault?) (hnone : h.fault? c = none) :
    h'.streak = faults ∧ h'.fault? c = fault? := by
  rw [streak_concat hentries, fault_concat hentries, hnone]
  exact hevent

/-- Every turn leads from one place to another. -/
theorem Stands.turns {event : LoopEvent} {durable : Option Position} {after : Loop}
    (hs : h.Stands c) (hturn : h.feed.loop.Turns c durable event after)
    (hloop : h'.feed.loop = after)
    (hentries : h'.entries = h.entries ++ [⟨h.feed, .turn event, h'.feed⟩]) : h'.Stands c := by
  have hlimit : 0 < c.limit := Nat.lt_of_lt_of_le Nat.one_pos (Nat.le_max_left _ _)
  cases hturn with
  | goes hevent hbefore hafter hwaits hstopped hkeeps =>
      obtain ⟨hnone, hcount, hbound⟩ := hs.under_way_facts hbefore
      obtain ⟨hstreak, hfault⟩ := silent_facts hentries (plain_facts hevent _ _ _) hnone
      refine .underWay (hloop ▸ hafter) hfault ?_ ?_
      · rw [hstreak, hcount, hloop, hkeeps.1]
      · rwa [hloop, hkeeps.1]
  | leaves hevent hbefore hrank hstop =>
      obtain ⟨hnone, hcount, hbound⟩ := hs.under_way_facts hbefore.under_way
      obtain ⟨hstreak, hfault⟩ := silent_facts hentries (plain_facts hevent _ _ _) hnone
      exact .leaves (hloop ▸ rfl) hfault (by rw [hstreak, hcount, hloop]; rfl) (hloop ▸ hbound)
        (hloop ▸ hstop)
  | refused hbefore =>
      obtain ⟨hnone, hcount, hbound⟩ := hs.under_way_facts (hbefore ▸ trivial)
      obtain ⟨hstreak, hfault⟩ := silent_facts hentries ⟨rfl, rfl⟩ hnone
      exact .gives .channelClosed (hloop ▸ rfl) (.inl rfl) hfault
        (by rw [hstreak, hloop]; exact hcount) (hloop ▸ hbound)
  | breaks fault hevent hbefore hrank =>
      obtain ⟨hnone, hcount, hbound⟩ := hs.under_way_facts hbefore.under_way
      obtain ⟨hstreak, hfault⟩ := silent_facts hentries (History.breaks_facts hevent _ _ _) hnone
      exact .breaks fault h.streak (hloop ▸ rfl) hfault hstreak (hloop ▸ hcount) (hloop ▸ hbound)
  | recovers result hbefore hreceive hafter hwaits hrank hkeeps =>
      -- The row of failures ends here, and the message, if there is one, brings no fault.
      obtain ⟨hnone, -, -⟩ := hs.under_way_facts (hbefore ▸ trivial)
      have hzero : h'.feed.loop.failures = 0 := by
        rw [hloop, hkeeps.1, h.feed.loop.recover_spec.1]
      have hquiet : Entry.fault? c ⟨h.feed, .turn (.polled (.ok result)), h'.feed⟩ = none := by
        cases result with
        | none => rfl
        | some m =>
            obtain ⟨received, hok⟩ := hreceive m rfl
            simp [Entry.fault?, hok]
      obtain ⟨hstreak, hfault⟩ := silent_facts hentries ⟨rfl, hquiet⟩ hnone
      exact .underWay (hloop ▸ hafter) hfault (by rw [hstreak, hzero]; rfl) (hzero ▸ hlimit)
  | rejects m fault hbefore hreceive =>
      obtain ⟨hnone, -, -⟩ := hs.under_way_facts (hbefore ▸ trivial)
      have hzero : h'.feed.loop.failures = 0 := by
        rw [hloop]
        exact h.feed.loop.recover_spec.1
      have hloud : Entry.fault? c ⟨h.feed, .turn (.polled (.ok (some m))), h'.feed⟩ =
          some fault := by simp [Entry.fault?, hreceive]
      obtain ⟨hstreak, hfault⟩ := silent_facts hentries ⟨rfl, hloud⟩ hnone
      exact .gives fault (hloop ▸ rfl) (.inr (Loop.receive_error hreceive)) hfault
        (by rw [hstreak, hzero]; rfl) (hzero ▸ hlimit)
  | unopened fault hbefore =>
      obtain ⟨hnone, hcount, hbound⟩ := hs.under_way_facts (hbefore ▸ trivial)
      obtain ⟨hstreak, hfault⟩ := silent_facts hentries ⟨rfl, rfl⟩ hnone
      exact stands_of_shake hloop hfault hstreak hcount hbound
  | shakes fault closed hbefore =>
      -- The failure is in the row already; now the loop counts it as well.
      obtain ⟨earlier, hnone, hbroken, hcount, hbound⟩ := hs.breaks_facts hbefore
      obtain ⟨hstreak, hfault⟩ := silent_facts hentries ⟨rfl, rfl⟩ hnone
      exact stands_of_shake hloop hfault (hstreak.trans hbroken) hcount hbound
  | finishes hevent hbefore hstop =>
      obtain ⟨hnone, hcount, hbound⟩ := hs.under_way_facts hbefore.under_way
      obtain ⟨hstreak, hfault⟩ := silent_facts hentries (plain_facts hevent _ _ _) hnone
      exact stands_of_finish hloop hfault (by rw [hstreak, hcount]) hbound hstop
  | closes closed hbefore =>
      obtain ⟨hnone, hcount, hbound, hstop⟩ := hs.leaves_facts hbefore
      obtain ⟨hstreak, hfault⟩ := silent_facts hentries ⟨rfl, rfl⟩ hnone
      exact stands_of_finish hloop hfault (by rw [hstreak]; exact hcount) hbound hstop
  | fails fault closed hother hbefore =>
      obtain ⟨hsome, hcount, hbound⟩ := hs.gives_facts hbefore hother
      have hfault : h'.fault? c = some fault := by rw [fault_concat hentries, hsome]; rfl
      have hverdict := verdict_of_fault hfault
      refine .ended ?_ ?_ ?_ ?_
      · rw [hverdict, hloop]
        rfl
      · rw [streak_concat hentries, hloop]
        exact hcount
      · rw [hloop]
        exact .inl hbound
      · intro p hp
        exact absurd (hverdict.symm.trans hp) (by simp)

/-- What happens outside of the turns of the loop changes nothing of where it stands. -/
theorem Stands.still {incident : Incident} (hs : h.Stands c)
    (hentries : h'.entries = h.entries ++ [⟨h.feed, incident, h'.feed⟩])
    (hincident : ∀ event, incident ≠ .turn event)
    (hloop : h'.feed.loop.control = h.feed.loop.control ∧
      h'.feed.loop.failures = h.feed.loop.failures ∧
      h'.feed.loop.position = h.feed.loop.position ∧
      (h.feed.loop.stopAsked = true → h'.feed.loop.stopAsked = true)) : h'.Stands c := by
  obtain ⟨hcontrol, hfailures, hposition, hstop⟩ := hloop
  -- The verdict is read off the entries and the position, and the new entry adds nothing.
  have hstreak : h'.streak = h.streak := by
    rw [streak_concat hentries]
    cases incident with
    | turn event => exact absurd rfl (hincident event)
    | _ => rfl
  have hfault : h'.fault? c = h.fault? c := by
    rw [fault_concat hentries]
    cases incident with
    | turn event => exact absurd rfl (hincident event)
    | _ => exact Option.or_none
  have hverdict : h'.verdict c = h.verdict c := by
    simp only [verdict, hstreak, hfault, hposition]
  cases hs with
  | underWay hway hnone hcount hbound =>
      exact .underWay (hcontrol ▸ hway) (hfault ▸ hnone) (hstreak ▸ hfailures ▸ hcount)
        (hfailures ▸ hbound)
  | leaves hclosing hnone hcount hbound hasked =>
      exact .leaves (hcontrol.trans hclosing) (hfault ▸ hnone) (hstreak ▸ hfailures ▸ hcount)
        (hfailures ▸ hbound) (hstop hasked)
  | breaks fault earlier hclosing hnone hbroken hcount hbound =>
      exact .breaks fault earlier (hcontrol.trans hclosing) (hfault ▸ hnone) (hstreak ▸ hbroken)
        (hfailures ▸ hcount) (hfailures ▸ hbound)
  | gives fault hclosing hother hsome hcount hbound =>
      exact .gives fault (hcontrol.trans hclosing) hother (hfault ▸ hsome)
        (hstreak ▸ hfailures ▸ hcount) (hfailures ▸ hbound)
  | ended hfinished hcount hbound hasked =>
      refine .ended (by rw [hcontrol, hfinished, hverdict]) (hstreak ▸ hfailures ▸ hcount)
        (hfault ▸ hfailures ▸ hbound) ?_
      intro p hp
      exact hstop (hasked p (hverdict ▸ hp))

/-- Every incident leads from one place to another. -/
theorem stands_of_extend {incident : Incident} (hextend : h.extend c incident = some h')
    (hs : h.Stands c) : h'.Stands c := by
  obtain ⟨-, hhappens, hentries⟩ := extend_facts hextend
  generalize hfeed : h'.feed = g at hhappens
  cases hhappens with
  | turns hstep hhears =>
      exact hs.turns (Loop.turns_of_step hstep) (by rw [hfeed]; rfl) hentries
  | outside hturn hcalls hloop hpublished hpushed hsteps =>
      refine hs.still hentries hturn ?_
      rw [hfeed, hloop]
      exact ⟨rfl, rfl, rfl, id⟩
  | marks =>
      refine hs.still hentries (by simp) ?_
      rw [hfeed]
      exact ⟨rfl, rfl, rfl, id⟩
  | signals =>
      refine hs.still hentries (by simp) ?_
      rw [hfeed]
      exact ⟨rfl, rfl, rfl, fun _ => rfl⟩

/-- A feed that starts is under way. -/
theorem stands_start (c : FeedContext) (capacity : Nat) (durable : Option Position) :
    (c.history capacity durable).Stands c :=
  .underWay (trivial : Control.UnderWay .starting) rfl rfl
    (Nat.lt_of_lt_of_le Nat.one_pos (Nat.le_max_left _ _))

/-- Whatever has happened to a feed, its loop stands where its history says. -/
theorem stands_of_run {capacity : Nat} {durable : Option Position} {incidents : List Incident}
    (hrun : (c.history capacity durable).run c incidents = some h) : h.Stands c :=
  run_keeps (fun _ _ _ _ hextend hs => stands_of_extend hextend hs)
    (stands_start c capacity durable) hrun

end History

end ChangeFeed
