import ChangeFeed.Channel
import Mathlib.Data.List.Basic

/-!
# The order of a channel

What is in flight in a channel is what was admitted and not received, and then what the pushes
still have to hand over. Admitting slices does not change it; a push adds its batch at the end and
a receiver takes from the front, so nothing is lost, repeated or mixed. Where pushes are started
one after the other, a push that is through has left nothing waiting (`idle_of_last_push`).
-/

namespace ChangeFeed

variable {α : Type}

/-- What a push still has to hand over. -/
def Push.left : Push α → List α
  | .pending left => left
  | .pushed => []
  | .closed => []

namespace Channel

/-- What is in flight, in order. -/
def inFlight (c : Channel α) : List α :=
  c.buffered ++ c.pushes.flatMap Push.left

/-- No push has anything left to hand over. -/
def Idle (c : Channel α) : Prop :=
  ∀ p ∈ c.pushes, p.left = []

/-- Only the last push may have something left to hand over. -/
def OneAtATime (c : Channel α) : Prop :=
  c.pushes.Pairwise fun p _ => p.left = []

/-- An idle channel has in flight only what is buffered. -/
theorem Idle.in_flight_eq {c : Channel α} (h : c.Idle) : c.inFlight = c.buffered := by
  rw [inFlight, List.flatMap_eq_nil_iff.mpr h, List.append_nil]

/-- In an idle channel no push is ahead of another. -/
theorem Idle.one_at_a_time {c : Channel α} (h : c.Idle) : c.OneAtATime :=
  List.pairwise_of_forall_mem_list fun p hp _ _ => h p hp

/-! ## Admitting slices -/

section Admit

variable {capacity : Nat} {buffered buffered' : List α} {pushes pushes' : List (Push α)}

/-- What admitting a slice does: it takes from the first push that waits, or goes on behind a push
that does not. -/
theorem admit_first_cases {p : Push α}
    (h : admitFirst capacity buffered (p :: pushes) = some (buffered', pushes')) :
    (∃ left, p = .pending left ∧ buffered' = buffered ++ left.take capacity ∧ ∃ p',
      p'.left = left.drop capacity ∧ pushes' = p' :: pushes) ∨
    (p.left = [] ∧ ∃ rest, admitFirst capacity buffered pushes = some (buffered', rest) ∧
      pushes' = p :: rest) := by
  cases p with
  | pending left =>
      rw [admitFirst] at h
      split at h
      · obtain ⟨rfl, rfl⟩ := Prod.mk.inj (Option.some.inj h)
        refine .inl ⟨left, rfl, rfl, _, ?_, rfl⟩
        split
        · rename_i hempty
          exact (List.isEmpty_iff.mp hempty).symm
        · rfl
      · exact absurd h (Option.some_ne_none _).symm
  | pushed =>
      simp only [admitFirst, Option.map_eq_some_iff, Prod.mk.injEq] at h
      obtain ⟨⟨_, rest⟩, hrest, rfl, rfl⟩ := h
      exact .inr ⟨rfl, rest, hrest, rfl⟩
  | closed =>
      simp only [admitFirst, Option.map_eq_some_iff, Prod.mk.injEq] at h
      obtain ⟨⟨_, rest⟩, hrest, rfl, rfl⟩ := h
      exact .inr ⟨rfl, rest, hrest, rfl⟩

/-- A slice moves from the pushes to the end of the buffer. -/
theorem admit_first_in_flight
    (h : admitFirst capacity buffered pushes = some (buffered', pushes')) :
    buffered' ++ pushes'.flatMap Push.left = buffered ++ pushes.flatMap Push.left := by
  induction pushes generalizing pushes' with
  | nil => simp [admitFirst] at h
  | cons p rest ih =>
      rcases admit_first_cases h with ⟨left, rfl, rfl, p', hp', rfl⟩ | ⟨hp, more, hmore, rfl⟩
      · rw [List.flatMap_cons, List.flatMap_cons, hp', List.append_assoc,
          ← List.append_assoc (left.take capacity), List.take_append_drop]
        rfl
      · rw [List.flatMap_cons, List.flatMap_cons, hp, List.nil_append, List.nil_append, ih hmore]

/-- A push that has nothing left gets nothing more. -/
theorem admit_first_idle (h : admitFirst capacity buffered pushes = some (buffered', pushes'))
    (hidle : ∀ p ∈ pushes, p.left = []) : ∀ p ∈ pushes', p.left = [] := by
  induction pushes generalizing pushes' with
  | nil => simp [admitFirst] at h
  | cons p rest ih =>
      obtain ⟨hfirst, hothers⟩ := List.forall_mem_cons.mp hidle
      rcases admit_first_cases h with ⟨left, rfl, -, p', hp', rfl⟩ | ⟨hp, more, hmore, rfl⟩
      · have hleft : left = [] := hfirst
        exact List.forall_mem_cons.mpr ⟨by rw [hp', hleft, List.drop_nil], hothers⟩
      · exact List.forall_mem_cons.mpr ⟨hp, ih hmore hothers⟩

/-- Only the last push may still have something left. -/
theorem admit_first_one_at_a_time
    (h : admitFirst capacity buffered pushes = some (buffered', pushes'))
    (hone : pushes.Pairwise fun p _ => p.left = []) :
    pushes'.Pairwise fun p _ => p.left = [] := by
  induction pushes generalizing pushes' with
  | nil => simp [admitFirst] at h
  | cons p rest ih =>
      obtain ⟨hfirst, hothers⟩ := List.pairwise_cons.mp hone
      rcases admit_first_cases h with ⟨left, rfl, -, p', hp', rfl⟩ | ⟨hp, more, hmore, rfl⟩
      · -- A push that others follow has nothing left, so its slice is empty.
        refine List.pairwise_cons.mpr ⟨?_, hothers⟩
        intro q hq
        have hleft : left = [] := hfirst q hq
        rw [hp', hleft, List.drop_nil]
      · exact List.pairwise_cons.mpr ⟨fun _ _ => hp, ih hmore hothers⟩

end Admit

variable {c d : Channel α}

/-- What admitting a slice to an open channel does. -/
theorem admit_cases (h : c.admit? = some d) :
    c.isClosed = false ∧ admitFirst c.capacity c.buffered c.pushes =
      some (d.buffered, d.pushes) ∧ d.isClosed = c.isClosed := by
  unfold admit? at h
  split at h
  · exact absurd h (Option.some_ne_none _).symm
  · rename_i hopen
    obtain ⟨⟨buffered, pushes⟩, hadmit, rfl⟩ := Option.map_eq_some_iff.mp h
    exact ⟨by simpa using hopen, hadmit, rfl⟩

/-- What admitting one slice keeps, admitting as many as there is room for keeps. -/
theorem settle_keeps {P : Channel α → Prop} (hstep : ∀ c d, c.admit? = some d → P c → P d)
    (h : P c) : P c.settle := by
  -- The property is kept whether or not the fuel lasts until there is no more room.
  have hwithin (fuel : Nat) (c : Channel α) (h : P c) : P (settleWithin fuel c) := by
    induction fuel generalizing c with
    | zero => exact h
    | succ fuel ih =>
        rw [settleWithin]
        split
        · rename_i d hadmit
          exact ih d (hstep c d hadmit h)
        · exact h
  exact hwithin _ c h

/-- Admitting slices changes nothing of what is in flight. -/
@[simp]
theorem settle_in_flight (c : Channel α) : c.settle.inFlight = c.inFlight := by
  refine settle_keeps (P := fun d => d.inFlight = c.inFlight) ?_ rfl
  intro d e hadmit hd
  exact (admit_first_in_flight (admit_cases hadmit).2.1).trans hd

/-- Admitting slices neither closes nor opens a channel. -/
@[simp]
theorem settle_is_closed (c : Channel α) : c.settle.isClosed = c.isClosed := by
  refine settle_keeps (P := fun d => d.isClosed = c.isClosed) ?_ rfl
  intro d e hadmit hd
  exact (admit_cases hadmit).2.2.trans hd

/-- An idle channel stays idle. -/
theorem Idle.settle (h : c.Idle) : c.settle.Idle :=
  settle_keeps (fun _ _ hadmit => admit_first_idle (admit_cases hadmit).2.1) h

/-- Pushes stay one at a time. -/
theorem OneAtATime.settle (h : c.OneAtATime) : c.settle.OneAtATime :=
  settle_keeps (fun _ _ hadmit => admit_first_one_at_a_time (admit_cases hadmit).2.1) h

/-! ## Pushing and receiving -/

/-- A push to an open channel adds its batch behind everything in flight. -/
theorem push_in_flight (h : c.isClosed = false) (records : List α) :
    (c.push records).inFlight = c.inFlight ++ records := by
  rw [push, settle_in_flight]
  cases records with
  | nil => simp [inFlight, Push.left]
  | cons r rest => simp [inFlight, h, Push.left]

/-- A closed channel admits nothing. -/
theorem settle_of_closed (h : c.isClosed = true) : c.settle = c := by
  have hadmit : c.admit? = none := by simp [admit?, h]
  simp [settle, settleWithin, hadmit]

/-- A push to a closed channel fails at once, if it is not empty. -/
theorem push_of_closed (h : c.isClosed = true) (records : List α) :
    c.push records =
      { c with pushes := c.pushes ++ [if records.isEmpty then .pushed else .closed] } := by
  have hclosed (ps : List (Push α)) : ({ c with pushes := ps } : Channel α).isClosed = true := h
  rw [push, settle_of_closed (hclosed _)]
  simp [h]

/-- A push to an idle channel is the only one. -/
theorem Idle.push (h : c.Idle) (records : List α) : (c.push records).OneAtATime := by
  refine OneAtATime.settle ?_
  refine List.pairwise_append.mpr ⟨h.one_at_a_time, List.pairwise_singleton _ _, ?_⟩
  exact fun p hp _ _ => h p hp

/-- Receiving takes the first record in flight, if anything is admitted, and else does nothing. -/
theorem receive_cases (c : Channel α) :
    (∃ record d, c.receive = (some record, d) ∧ c.inFlight = record :: d.inFlight ∧
      d.isClosed = c.isClosed ∧ (c.Idle → d.Idle) ∧ (c.OneAtATime → d.OneAtATime)) ∨
    c.buffered = [] ∧ c.receive = (none, c) := by
  cases hbuffered : c.buffered with
  | nil => exact .inr ⟨rfl, by simp [receive, hbuffered]⟩
  | cons record rest =>
      refine .inl ⟨record, _, by rw [receive, hbuffered], ?_, ?_, ?_, ?_⟩
      · rw [settle_in_flight]
        simp [inFlight, hbuffered]
      · rw [settle_is_closed]
      · exact fun h => Idle.settle h
      · exact fun h => OneAtATime.settle h

/-- From a closed channel only what is admitted can be received, and nothing takes its place. -/
theorem receive_of_closed (h : c.isClosed = true) {record : α}
    (hreceive : c.receive = (some record, d)) :
    c.buffered = record :: d.buffered ∧ d = { c with buffered := d.buffered } := by
  cases hbuffered : c.buffered with
  | nil => simp [receive, hbuffered] at hreceive
  | cons first rest =>
      rw [receive, hbuffered] at hreceive
      obtain ⟨hfirst, hrest⟩ := Prod.mk.inj hreceive
      obtain rfl := Option.some.inj hfirst
      have hclosed : ({ c with buffered := rest } : Channel α).isClosed = true := h
      rw [settle_of_closed hclosed] at hrest
      subst hrest
      exact ⟨rfl, rfl⟩

/-- A channel whose records are let go is closed, and nothing is in flight any more. -/
theorem discard_facts (c : Channel α) :
    c.discard.isClosed = true ∧ c.discard.Idle ∧ c.discard.inFlight = [] := by
  have hidle : c.discard.Idle := by
    intro p hp
    obtain ⟨q, -, rfl⟩ := List.mem_map.mp hp
    cases q <;> rfl
  exact ⟨rfl, hidle, hidle.in_flight_eq⟩

/-- Closing keeps what is admitted and lets what waits go. -/
theorem close_facts (c : Channel α) :
    c.close.isClosed = true ∧ c.close.Idle ∧ c.close.inFlight = c.buffered := by
  have hidle : c.close.Idle := by
    intro p hp
    obtain ⟨q, -, rfl⟩ := List.mem_map.mp hp
    cases q <;> rfl
  exact ⟨rfl, hidle, hidle.in_flight_eq⟩

/-- Where pushes are started one after the other, the channel is idle once the last one has
nothing left. -/
theorem OneAtATime.idle_of_last_push (h : c.OneAtATime) {p : Push α}
    (hlast : c.lastPush? = some p) (hp : p.left = []) : c.Idle := by
  obtain ⟨init, hinit⟩ := List.getLast?_eq_some_iff.mp hlast
  rw [OneAtATime, hinit] at h
  intro q hq
  rw [hinit] at hq
  rcases List.mem_append.mp hq with hq | hq
  · exact (List.pairwise_append.mp h).2.2 q hq p (List.mem_singleton_self p)
  · exact List.mem_singleton.mp hq ▸ hp

/-- Where pushes are started one after the other, only the last one can wait. -/
theorem OneAtATime.idle_or_waits (h : c.OneAtATime) :
    c.Idle ∨ ∃ left, c.lastPush? = some (.pending left) := by
  cases hlast : c.lastPush? with
  | none =>
      left
      intro p hp
      rw [List.getLast?_eq_none_iff.mp hlast] at hp
      exact absurd hp List.not_mem_nil
  | some p =>
      cases p with
      | pending left => exact .inr ⟨left, rfl⟩
      | pushed => exact .inl (h.idle_of_last_push hlast rfl)
      | closed => exact .inl (h.idle_of_last_push hlast rfl)

/-- Closing a channel fails its pushes, and so does letting its records go. -/
theorem last_push_close (c : Channel α) :
    c.close.lastPush? = c.lastPush?.map failed ∧ c.discard.lastPush? = c.lastPush?.map failed :=
  ⟨List.getLast?_map, List.getLast?_map⟩

end Channel

end ChangeFeed
