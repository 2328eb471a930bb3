import ChangeFeed.Job.Run
import ChangeFeed.Proofs.Except
import ChangeFeed.Proofs.Session.Delivery
import ChangeFeed.Proofs.Session.Exchange

/-!
# The world of a job

The surroundings of a job as a world that can go wrong wherever the job touches it: a server with
one slot, a store for one position, and an output that keeps what was flushed. The world also keeps
the positions that were handed to the server, so that it can be said that none of them is beyond
a bound, such as what is stored. Read `World.Sound` first, and then what opening, polling and
confirming make of a sound world (`World.ensures_prepare`, `World.poll_facts`,
`World.confirm_facts`).
-/

namespace ChangeFeed

open LoggedTransaction

/-- What goes wrong with a statement. -/
inductive Trouble where
  | refused (code message : String)
  /-- The connection breaks after the statement was carried out, or before. -/
  | lost (isDone : Bool)

/-- What a world does when it is asked, apart from its state: what goes wrong, and what is only
read. -/
structure Weather where
  connect : Option (List Cause)
  statement : Statement → Option Trouble
  /-- What the server knows of its tables. -/
  catalog : Statement → List (List Cell)
  content : String → Except FileFault String
  load : Option Failure
  /-- Why a save fails, and whether the position is stored nevertheless. -/
  save : Option (Failure × Bool)
  write : Option FileFault
  /-- Why a flush fails. Nothing that a failed flush has put out counts as flushed. -/
  flush : Option FileFault

/-- The world of a job. -/
structure World where
  source : SlotServer
  weather : Weather
  /-- The positions that were handed to the server: sessions were opened at them, or the slot was
  told to advance to them. -/
  handed : List Position
  /-- The position that the job saved last. -/
  stored : Option Position
  /-- The lines that were written and not flushed. -/
  pending : List String
  flushed : List String

namespace World

/-- The position from which a job goes on. -/
def checkpoint (w : World) : Position :=
  w.stored.getD .zero

/-- The world with another position handed to the server. -/
def handOver (w : World) (p : Position) : World :=
  { w with handed := w.handed ++ [p] }

/-- The world after it was noted that a statement is sent. -/
def sending (w : World) : Statement → World
  | .advanceSlot _ p => w.handOver p
  | _ => w

/-- The server carries a statement out. -/
def carryOut (w : World) (s : Statement) : Reply × World :=
  match s with
  | .listColumns _ => (.rows (w.weather.catalog s), w)
  | .listPrimaryKeys _ => (.rows (w.weather.catalog s), w)
  | _ =>
    let (reply, source) := SlotServer.answer s w.source
    (reply, { w with source := source })

/-- The server of a world. -/
def answer : Server World := fun s w =>
  match w.weather.statement s with
  | none => (w.sending s).carryOut s
  | some (.refused code message) => (.refused code message, w.sending s)
  | some (.lost true) => (.lost, ((w.sending s).carryOut s).2)
  | some (.lost false) => (.lost, w.sending s)

/-- The world after the store was given a position. -/
def store (w : World) (p : Position) : World :=
  { w with stored := some p }

/-- A world as the surroundings of a job. -/
def surroundings : Surroundings World where
  connect _ w := (w.weather.connect.elim (.ok ()) .error, w)
  server := answer
  content path w := w.weather.content path
  load _ _ w := w.weather.load.elim (.ok w.stored) .error
  save _ _ p w :=
    match w.weather.save with
    | none => (.ok (), w.store p)
    | some (failure, isDone) => (.error failure, if isDone then w.store p else w)
  write line w :=
    match w.weather.write with
    | none => (.ok (), { w with pending := w.pending ++ [line] })
    | some fault => (.error fault, w)
  flush w :=
    match w.weather.flush with
    | none => (.ok (), { w with pending := [], flushed := w.flushed ++ w.pending })
    | some fault => (.error fault, w)

/-! ## Sound worlds -/

/-- The slot has not moved beyond a bound, and nothing beyond it was handed to the server. -/
structure Sound (w : World) (bound : Position) : Prop where
  slot : ∀ p, w.source.slot = some p → w.source.origin ≤ p ∧ (p = w.source.origin ∨ p ≤ bound)
  handed : ∀ p ∈ w.handed, p ≤ bound

/-- Nothing has changed but the slot and what was handed to the server. -/
structure Keeps (w w' : World) : Prop where
  log : w.source.SameLog w'.source
  stored_eq : w'.stored = w.stored
  pending_eq : w'.pending = w.pending
  flushed_eq : w'.flushed = w.flushed

variable {w w' w'' : World} {bound : Position}

/-- A world keeps itself. -/
theorem Keeps.refl (w : World) : w.Keeps w :=
  ⟨⟨rfl, rfl⟩, rfl, rfl, rfl⟩

/-- What is kept twice is kept. -/
theorem Keeps.trans (h : w.Keeps w') (h' : w'.Keeps w'') : w.Keeps w'' :=
  ⟨⟨h'.log.1.trans h.log.1, h'.log.2.trans h.log.2⟩, h'.stored_eq.trans h.stored_eq,
    h'.pending_eq.trans h.pending_eq, h'.flushed_eq.trans h.flushed_eq⟩

/-- The job goes on from the same position. -/
theorem Keeps.checkpoint_eq (h : w.Keeps w') : w'.checkpoint = w.checkpoint := by
  rw [checkpoint, h.stored_eq, checkpoint]

/-- What is not beyond the bound may be handed to the server. -/
theorem Sound.hand_over (h : w.Sound bound) {p : Position} (hp : p ≤ bound) :
    (w.handOver p).Sound bound where
  slot := h.slot
  handed q hq := by
    rcases List.mem_append.mp hq with hq | hq
    · exact h.handed q hq
    · exact List.mem_singleton.mp hq ▸ hp

/-- A sound world is sound with a later bound. -/
theorem Sound.mono (h : w.Sound bound) {bound' : Position} (hle : bound ≤ bound') :
    w.Sound bound' where
  slot p hp := by
    obtain ⟨horigin, hslot⟩ := h.slot p hp
    exact ⟨horigin, hslot.imp_right fun hp => hp.trans hle⟩
  handed p hp := (h.handed p hp).trans hle

/-- A world stays sound whatever becomes of its weather, its store and its output. -/
theorem Sound.alter (h : w.Sound bound) (hsource : w'.source = w.source)
    (hhanded : w'.handed = w.handed) : w'.Sound bound where
  slot := by
    rw [hsource]
    exact h.slot
  handed := by
    rw [hhanded]
    exact h.handed

/-- A world stays sound when another transaction commits. -/
theorem Sound.commit (h : w.Sound bound) (t : LoggedTransaction) :
    ({ w with source := w.source.commit t } : World).Sound bound where
  slot p hp := by
    rw [SlotServer.commit_slot] at hp
    rw [SlotServer.commit_origin]
    exact h.slot p hp
  handed := h.handed

/-- A statement may be sent when its position is neither before the origin of the slot nor beyond
the bound. -/
def MaySend (w : World) (bound : Position) (s : Statement) : Prop :=
  ∀ name p, s = .advanceSlot name p → w.source.origin ≤ p ∧ p ≤ bound

/-- Sending a statement keeps a world sound. -/
theorem Sound.sending (h : w.Sound bound) {s : Statement} (hs : w.MaySend bound s) :
    (w.sending s).Sound bound ∧ w.Keeps (w.sending s) := by
  cases s with
  | advanceSlot name p => exact ⟨h.hand_over (hs name p rfl).2, ⟨rfl, rfl⟩, rfl, rfl, rfl⟩
  | _ => exact ⟨h, .refl w⟩

/-- Carrying a statement out keeps a world sound. -/
theorem Sound.carry_out (h : w.Sound bound) {s : Statement} (hs : w.MaySend bound s) :
    (w.carryOut s).2.Sound bound ∧ w.Keeps (w.carryOut s).2 := by
  cases s with
  | createSlot name plugin =>
      refine ⟨⟨?_, h.handed⟩, ⟨rfl, rfl⟩, rfl, rfl, rfl⟩
      intro p hp
      exact Option.some.inj hp ▸ ⟨le_refl _, .inl rfl⟩
  | advanceSlot name q =>
      refine ⟨⟨?_, h.handed⟩, ⟨rfl, rfl⟩, rfl, rfl, rfl⟩
      intro p hp
      obtain ⟨horigin, hle⟩ := hs name q rfl
      exact Option.some.inj hp ▸ ⟨horigin, .inr hle⟩
  | _ => exact ⟨⟨h.slot, h.handed⟩, ⟨rfl, rfl⟩, rfl, rfl, rfl⟩

/-- The server keeps a world sound, whatever goes wrong. -/
theorem Sound.answer (h : w.Sound bound) {s : Statement} (hs : w.MaySend bound s) :
    (World.answer s w).2.Sound bound ∧ w.Keeps (World.answer s w).2 := by
  obtain ⟨hsent, hkeeps⟩ := h.sending hs
  have hs' : (w.sending s).MaySend bound s := fun name p heq => by
    rw [hkeeps.log.2]
    exact hs name p heq
  obtain ⟨hdone, hkeeps'⟩ := hsent.carry_out hs'
  unfold World.answer
  split
  · exact ⟨hdone, hkeeps.trans hkeeps'⟩
  · exact ⟨hsent, hkeeps⟩
  · exact ⟨hdone, hkeeps.trans hkeeps'⟩
  · exact ⟨hsent, hkeeps⟩

/-- A server that gives rows has carried the statement out. -/
theorem carry_out_of_rows {s : Statement} {rows : List (List Cell)}
    (h : World.answer s w = (.rows rows, w')) : (w.sending s).carryOut s = (.rows rows, w') := by
  unfold World.answer at h
  split at h
  · exact h
  · exact absurd (congrArg Prod.fst h) (by simp)
  · exact absurd (congrArg Prod.fst h) (by simp)
  · exact absurd (congrArg Prod.fst h) (by simp)

/-! ## Opening a session -/

/-- What holds of a world while a session is opened that was sound before. -/
def During (before : World) (bound : Position) (w : World) : Prop :=
  w.Sound bound ∧ before.Keeps w

/-- A question keeps a world sound that was sound before, and rows come with what it does. -/
theorem ensures_ask {before : World} {task : SessionTask} {s : Statement}
    {P : Link × World → Prop} (hP : ∀ state, P state → During before bound state.2)
    (hs : ∀ state, P state → before.MaySend bound s) :
    Exchange.Ensures P (Exchange.ask World.answer task s) (During before bound)
      fun rows state => state.1 = .live ∧ During before bound state.2 ∧
        ∃ w, P (.live, w) ∧ (w.sending s).carryOut s = (.rows rows, state.2) := by
  have hanswer (w : World) (hw : P (.live, w)) : During before bound (World.answer s w).2 := by
    obtain ⟨hsound, hkeeps⟩ := hP _ hw
    have hsend : w.MaySend bound s := fun name p heq => by
      rw [hkeeps.log.2]
      exact hs _ hw name p heq
    obtain ⟨hafter, hkeeps'⟩ := hsound.answer hsend
    exact ⟨hafter, hkeeps.trans hkeeps'⟩
  refine Exchange.ensures_ask hP hanswer fun w rows after hw heq => ⟨rfl, ?_, w, hw, ?_⟩
  · have hafter := hanswer w hw
    rwa [heq] at hafter
  · exact carry_out_of_rows heq

/-- The row that a server gives about its slot names the slot's position. -/
theorem read_slot_row {plugin : Option String} {p q : Position}
    (h : (do
      let _ ← SessionTask.readPlugin.reading
        (optionalTextAt [plugin.elim .null .text, .text q.write] 0)
      let lsn ← SessionTask.readSlotPosition.reading
        (optionalTextAt [plugin.elim .null .text, .text q.write] 1)
      Position.ofReply lsn) = .ok p) : q = p := by
  cases plugin <;>
    simpa [optionalTextAt, SessionTask.reading, bind, Except.bind,
      SlotServer.of_reply_write] using h

/-- The row that a server gives about a new slot names the slot's position. -/
theorem read_created_row {p q : Position}
    (h : (do
      let row ← onlyRow .createSlot [[.text q.write]]
      let lsn ← SessionTask.readCreatedPosition.reading (optionalTextAt row 0)
      Position.ofReply lsn) = .ok p) : q = p := by
  simpa [onlyRow, optionalTextAt, SessionTask.reading, bind, Except.bind,
    SlotServer.of_reply_write] using h

/-- Finding the slot gives its position, and there is a slot then. -/
theorem ensures_find (before : World) (bound : Position) (name : String) (plugin : Plugin) :
    Exchange.Ensures (fun state => During before bound state.2)
      (Session.findPosition World.answer name plugin) (During before bound)
      fun p state =>
        state.1 = .live ∧ During before bound state.2 ∧ state.2.source.slot = some p := by
  refine (ensures_ask (fun _ h => h) (fun _ _ _ _ h => absurd h (by simp))).and_then ?_
  intro rows
  cases rows with
  | cons row rest =>
      refine Exchange.ensures_of_result (fun _ h => h.2.1) ?_
      intro p state h hp
      obtain ⟨hlive, hduring, w, -, hrows⟩ := h
      obtain ⟨hreply, hafter⟩ := Prod.mk.inj hrows
      refine ⟨hlive, hduring, ?_⟩
      have hfound : (w.source.slot.elim [] fun q => [[w.source.plugin.elim .null .text,
          .text q.write]]) = row :: rest := Reply.rows.inj hreply
      cases hslot : w.source.slot with
      | none =>
          rw [hslot] at hfound
          exact absurd hfound (List.cons_ne_nil row rest).symm
      | some q =>
          rw [hslot] at hfound
          rw [← (List.cons.inj hfound).1] at hp
          rw [← hafter, ← read_slot_row hp]
          exact hslot
  | nil =>
      -- There is no slot, and the one that is created starts at the origin.
      refine (ensures_ask (fun _ h => h.2.1) (fun _ _ _ _ h => absurd h (by simp))).and_then ?_
      intro rows
      refine Exchange.ensures_of_result (fun _ h => h.2.1) ?_
      intro p state h hp
      obtain ⟨hlive, hduring, w, -, hrows⟩ := h
      obtain ⟨hreply, hafter⟩ := Prod.mk.inj hrows
      refine ⟨hlive, hduring, ?_⟩
      rw [← Reply.rows.inj hreply] at hp
      rw [← hafter, ← read_created_row hp]

/-- Preparing the slot for a position that is not beyond the bound leaves a slot behind. -/
theorem ensures_prepare (before : World) (name : String) (plugin : Plugin) {start : Position}
    (hstart : start ≤ bound) :
    Exchange.Ensures (fun state => During before bound state.2)
      (Session.prepare World.answer name plugin start) (During before bound)
      fun _ state =>
        state.1 = .live ∧ During before bound state.2 ∧ ∃ p, state.2.source.slot = some p := by
  refine (ensures_find before bound name plugin).and_then ?_
  intro current
  split
  · rename_i hlt
    refine (ensures_ask (fun _ h => h.2.1) ?_).and_then fun rows => ?_
    · rintro ⟨link, w⟩ ⟨-, ⟨hsound, hkeeps⟩, hslot⟩ name' p heq
      obtain ⟨-, rfl⟩ := Statement.advanceSlot.inj heq
      refine ⟨?_, hstart⟩
      rw [← hkeeps.log.2]
      exact (hsound.slot current hslot).1.trans hlt.le
    · refine Exchange.ensures_of_result (fun _ h => h.2.1) fun _ state h _ => ?_
      obtain ⟨hlive, hduring, w, -, hrows⟩ := h
      exact ⟨hlive, hduring, start, (Prod.mk.inj hrows).2 ▸ rfl⟩
  · refine Exchange.ensures_of_result (fun _ h => h.2.1) fun _ state h _ => ?_
    exact ⟨h.1, h.2.1, current, h.2.2⟩

/-- Opening a session at a position that is not beyond the bound keeps a world sound, and a session
that is open has a slot and nothing in its log. -/
theorem open_facts (hsound : w.Sound bound) (name : String) (plugin : Plugin) (pageSize : Nat)
    {start : Position} (hstart : start ≤ bound) {result : Except SessionFault Session}
    (hopen : Session.open World.answer name plugin pageSize start w = (result, w')) :
    w'.Sound bound ∧ w.Keeps w' ∧ ∀ s, result = .ok s →
      s.link = .live ∧ s.log = .empty ∧ ∃ p, w'.source.slot = some p := by
  obtain ⟨hduring, hvalue⟩ :=
    ensures_prepare w name plugin hstart (.live, w) ⟨hsound, .refl w⟩
  unfold Session.open at hopen
  split at hopen
  · rename_i link after hprepare
    rw [hprepare] at hduring hvalue
    obtain ⟨rfl, rfl⟩ := Prod.mk.inj hopen
    refine ⟨hduring.1, hduring.2, ?_⟩
    intro s hs
    obtain ⟨hlive, -, hslot⟩ := hvalue () rfl
    exact Except.ok.inj hs ▸ ⟨hlive, rfl, hslot⟩
  · rename_i fault link after hprepare
    rw [hprepare] at hduring
    obtain ⟨rfl, rfl⟩ := Prod.mk.inj hopen
    exact ⟨hduring.1, hduring.2, fun s hs => absurd hs (by simp)⟩

/-! ## Reading a session -/

section Session

variable {s s' : Session} {base slot : Position} {returned held : List Message}

/-- Polling a session keeps a world sound, and a poll that succeeds returns its message in
agreement with the slot. -/
theorem poll_facts (hsound : w.Sound bound) (hlink : s.link = .live)
    (hslot : w.source.slot = some slot)
    (hagrees : s.log.Agrees w.source base slot returned held)
    {result : Except SessionFault (Option Message)}
    (hpoll : s.poll World.answer w = (result, s', w')) :
    w'.Sound bound ∧ w.Keeps w' ∧ ∀ message, result = .ok message →
      s'.link = .live ∧ w'.source.slot = some slot ∧
        ∃ held', s'.log.Agrees w'.source base slot (returned ++ message.toList) held' := by
  rcases s.hand_out_cases with ⟨m, log, hnext, -⟩ | ⟨hpending, -⟩
  · rw [Session.poll_of_next _ _ hnext] at hpoll
    obtain ⟨rfl, rfl, rfl⟩ : .ok (some m) = result ∧ { s with log := log } = s' ∧ w = w' := by
      simpa using hpoll
    refine ⟨hsound, .refl w, ?_⟩
    intro message hok
    obtain rfl := Except.ok.inj hok
    exact ⟨hlink, hslot, _, hagrees.next hnext⟩
  · rcases Exchange.ask_cases World.answer .peekChanges
        (.peekChanges s.slot s.limit s.options) (s.link, w) with
      ⟨fault, hask⟩ | ⟨-, reply, after, hreply, ⟨rows, rfl, hask⟩ | ⟨fault, link, hask⟩⟩
    · rw [Session.poll_of_fault hpending hask] at hpoll
      obtain ⟨rfl, -, rfl⟩ : .error fault = result ∧ _ = s' ∧ w = w' := by simpa using hpoll
      exact ⟨hsound, .refl w, fun message hok => absurd hok (by simp)⟩
    · obtain ⟨hrows, rfl⟩ := Prod.mk.inj (carry_out_of_rows hreply)
      have hpage : rows.mapM Message.ofRow =
          .ok (messagesOf (SlotServer.page s.limit (w.source.past slot))) := by
        rw [← Reply.rows.inj hrows]
        simp only [sending, hslot, Option.getD_some]
        exact SlotServer.messages_of_rows _
      rw [Session.poll_of_page hpending hlink hreply hpage] at hpoll
      have hpaged := hagrees.accept_page hpending s.limit
      obtain ⟨rfl, rfl, rfl⟩ := hpoll
      refine ⟨hsound, .refl w, ?_⟩
      intro message hok
      obtain rfl := Except.ok.inj hok
      rcases Session.hand_out_cases { s with log := s.log.acceptPage _ } with
        ⟨m, log, hnext, hout⟩ | ⟨-, hout⟩
      · rw [hout]
        exact ⟨hlink, hslot, _, hpaged.next hnext⟩
      · rw [hout]
        refine ⟨hlink, hslot, held, ?_⟩
        rw [Option.toList_none, List.append_nil]
        exact hpaged
    · rw [Session.poll_of_fault hpending hask] at hpoll
      obtain ⟨rfl, -, rfl⟩ : .error fault = result ∧ _ = s' ∧ after = w' := by simpa using hpoll
      have hanswer := hsound.answer (s := .peekChanges s.slot s.limit s.options)
        (fun _ _ h => absurd h (by simp))
      rw [hreply] at hanswer
      exact ⟨hanswer.1, hanswer.2, fun message hok => absurd hok (by simp)⟩

/-- Confirming a position that is not beyond the bound keeps a world sound, and a confirm that
succeeds leaves the session in agreement with the slot. -/
theorem confirm_facts (hsound : w.Sound bound) (hlink : s.link = .live)
    (hslot : w.source.slot = some slot)
    (hagrees : s.log.Agrees w.source base slot returned held) {p : Position}
    (hp : p ≤ bound) {result : Except SessionFault Unit}
    (hconfirm : s.confirm World.answer p w = (result, s', w')) :
    w'.Sound bound ∧ w.Keeps w' ∧ (result = .ok () → s'.link = .live ∧
      ∃ slot' held', w'.source.slot = some slot' ∧
        s'.log.Agrees w'.source base slot' returned held') := by
  rcases hagrees.release p with hnone | ⟨last, later, hlast, hlt, hle, hlater⟩
  · rw [Session.confirm_of_none _ _ hnone] at hconfirm
    obtain ⟨rfl, rfl, rfl⟩ : .ok () = result ∧ s = s' ∧ w = w' := by simpa using hconfirm
    exact ⟨hsound, .refl w, fun _ => ⟨hlink, slot, held, hslot, hagrees⟩⟩
  · have hsend : w.MaySend bound (.advanceSlot s.slot last) := fun name q heq => by
      obtain ⟨-, rfl⟩ := Statement.advanceSlot.inj heq
      exact ⟨(hsound.slot slot hslot).1.trans hlt.le, hle.trans hp⟩
    obtain ⟨hafter, hkeeps⟩ := hsound.answer hsend
    rcases Exchange.ask_cases World.answer .advanceSlot (.advanceSlot s.slot last) (s.link, w) with
      ⟨fault, hask⟩ | ⟨-, reply, after, hreply, ⟨rows, rfl, hask⟩ | ⟨fault, link, hask⟩⟩
    · rw [Session.confirm_of_fault hlast hask] at hconfirm
      obtain ⟨rfl, -, rfl⟩ : .error fault = result ∧ _ = s' ∧ w = w' := by simpa using hconfirm
      exact ⟨hsound, .refl w, fun hok => absurd hok (by simp)⟩
    · rw [hreply] at hafter hkeeps
      rw [Session.confirm_of_some hlink hlast hreply] at hconfirm
      obtain ⟨-, rfl, rfl⟩ : .ok () = result ∧ { s with log := (s.log.releaseThrough p).1 } = s' ∧
        after = w' := by simpa using hconfirm
      refine ⟨hafter, hkeeps, fun _ => ⟨hlink, last, later, ?_, hlater.same_log hkeeps.log⟩⟩
      rw [← (Prod.mk.inj (carry_out_of_rows hreply)).2]
      rfl
    · -- The slot may have advanced although the session has failed.
      rw [hreply] at hafter hkeeps
      rw [Session.confirm_of_fault hlast hask] at hconfirm
      obtain ⟨rfl, -, rfl⟩ : .error fault = result ∧ _ = s' ∧ after = w' := by simpa using hconfirm
      exact ⟨hafter, hkeeps, fun hok => absurd hok (by simp)⟩

end Session

/-! ## Saving -/

/-- A save stores the position if it succeeds, and perhaps if it fails. -/
theorem save_facts (w : World) (storage : CheckpointStorage) (jobId : String) (p : Position)
    {result : Except Failure Unit} (h : surroundings.save storage jobId p w = (result, w')) :
    (w' = w ∨ w' = w.store p) ∧ (result = .ok () → w' = w.store p) := by
  dsimp only [surroundings] at h
  split at h
  · obtain ⟨-, rfl⟩ := Prod.mk.inj h
    exact ⟨.inr rfl, fun _ => rfl⟩
  · obtain ⟨rfl, rfl⟩ := Prod.mk.inj h
    refine ⟨?_, fun hok => absurd hok (by simp)⟩
    split
    · exact .inr rfl
    · exact .inl rfl

/-! ## Writing -/

/-- The output takes a line, or the world stays as it is. -/
theorem write_cases (w : World) (line : String) {result : Except FileFault Unit}
    (h : surroundings.write line w = (result, w')) :
    (result = .ok () ∧ w' = { w with pending := w.pending ++ [line] }) ∨
      ∃ fault, result = .error fault ∧ w' = w := by
  dsimp only [surroundings] at h
  split at h
  · obtain ⟨rfl, rfl⟩ := Prod.mk.inj h
    exact .inl ⟨rfl, rfl⟩
  · obtain ⟨rfl, rfl⟩ := Prod.mk.inj h
    exact .inr ⟨_, rfl, rfl⟩

/-- The output flushes all that was written, or the world stays as it is. -/
theorem flush_cases (w : World) {result : Except FileFault Unit}
    (h : surroundings.flush w = (result, w')) :
    (result = .ok () ∧ w' = { w with pending := [], flushed := w.flushed ++ w.pending }) ∨
      ∃ fault, result = .error fault ∧ w' = w := by
  dsimp only [surroundings] at h
  split at h
  · obtain ⟨rfl, rfl⟩ := Prod.mk.inj h
    exact .inl ⟨rfl, rfl⟩
  · obtain ⟨rfl, rfl⟩ := Prod.mk.inj h
    exact .inr ⟨_, rfl, rfl⟩

/-! ## Starting a job -/

/-- A question about tables keeps a world sound. -/
theorem Sound.look_up (h : w.Sound bound) {s : Statement}
    (hs : ∀ name p, s ≠ .advanceSlot name p) : During w bound (World.answer s w).2 :=
  h.answer fun name p heq => absurd heq (hs name p)

/-- Looking up the tables of a job keeps a world sound. -/
theorem load_facts (h : w.Sound bound) (schema : String) (tables : List String) :
    During w bound (Schema.load World.answer schema tables w).2 := by
  obtain ⟨hcolumns, hkeeps⟩ := h.look_up (s := .listColumns schema) (by simp)
  obtain ⟨hkeys, hkeeps'⟩ := hcolumns.look_up (s := .listPrimaryKeys schema) (by simp)
  unfold Schema.load
  dsimp only
  split
  · exact ⟨hcolumns, hkeeps⟩
  · split
    · exact ⟨hkeys, hkeeps.trans hkeeps'⟩
    · exact ⟨hkeys, hkeeps.trans hkeeps'⟩

/-- Finding the definitions of the tables of a job keeps a world sound. -/
theorem load_schema_facts (h : w.Sound bound) (settings : JobSettings) :
    During w bound (Job.loadSchema surroundings settings w).2 := by
  unfold Job.loadSchema
  split
  · exact ⟨h, .refl w⟩
  · split
    · exact ⟨h, .refl w⟩
    · split
      · rename_i after heq
        obtain rfl : w = after := congrArg Prod.snd heq
        exact ⟨h, .refl w⟩
      · rename_i after heq
        obtain rfl : w = after := congrArg Prod.snd heq
        exact load_facts h _ _

end World

/-- A job that is put together has the ticks that its settings ask for, and the pipeline of its
context over the channel. -/
theorem Job.assemble_eq_ok {σ : Type} {settings : JobSettings} {schema : Schema} {start : Position}
    {channel : Channel Record} {world : σ} {job : Job σ}
    (h : Job.assemble settings schema start channel world = .ok job) :
    ∃ context connection, settings.checkpointMillis = .ok context.interval ∧
      context.feed.plugin = settings.plugin ∧ context.feed.start = start ∧
      job = ⟨settings, connection, context, context.pipeline channel, none, world⟩ := by
  unfold Job.assemble at h
  obtain ⟨interval, hinterval, h⟩ := Except.bind_eq_ok.mp h
  obtain ⟨feed, -, h⟩ := Except.bind_eq_ok.mp h
  obtain ⟨connection, -, h⟩ := Except.bind_eq_ok.mp h
  obtain ⟨-, -, h⟩ := Except.bind_eq_ok.mp h
  obtain rfl := Except.pure_eq_ok.mp h
  exact ⟨_, connection, hinterval, rfl, rfl, rfl⟩

/-- A job that was started in a world goes on from what was stored there. -/
structure Job.IsFresh (settings : JobSettings) (w : World) (job : Job World) : Prop where
  settings_eq : job.settings = settings
  plugin_eq : job.context.feed.plugin = settings.plugin
  start_eq : job.context.feed.start = w.checkpoint
  session_eq : job.session = none
  pipeline_eq : ∃ capacity, job.pipeline = job.context.pipeline ⟨capacity, [], [], false⟩

namespace World

/-- A job that is put together is fresh. -/
theorem assemble_facts {settings : JobSettings} {schema : Schema} {channel : Channel Record}
    {job : Job World} (hchannel : Channel.create settings.channelCapacity = .ok channel)
    (h : Job.assemble settings schema w.checkpoint channel w' = .ok job) :
    job.IsFresh settings w ∧ job.world = w' := by
  have hnew : channel = ⟨settings.channelCapacity, [], [], false⟩ := by
    unfold Channel.create at hchannel
    split at hchannel
    · exact absurd hchannel (by simp)
    · split at hchannel
      · exact absurd hchannel (by simp)
      · exact (Except.ok.inj hchannel).symm
  obtain ⟨context, connection, -, hplugin, hstart, rfl⟩ := Job.assemble_eq_ok h
  exact ⟨⟨rfl, hplugin, hstart, rfl, _, by rw [hnew]⟩, rfl⟩

/-- Starting a job keeps a world sound, and a job that starts is fresh. -/
theorem start_facts (h : w.Sound bound) (settings : JobSettings) :
    During w bound (Job.start surroundings settings w).2 ∧
      ∀ job, (Job.start surroundings settings w).1 = .ok job →
        job.IsFresh settings w ∧ job.world = (Job.start surroundings settings w).2 := by
  unfold Job.start
  split
  · exact ⟨⟨h, .refl w⟩, fun job hjob => absurd hjob (by simp)⟩
  · split
    · exact ⟨⟨h, .refl w⟩, fun job hjob => absurd hjob (by simp)⟩
    · rename_i saved hload
      have hsaved : saved.getD .zero = w.checkpoint := by
        have hweather : w.weather.load.elim (.ok w.stored) Except.error = .ok saved := hload
        cases hfault : w.weather.load with
        | none =>
            rw [hfault] at hweather
            rw [checkpoint, Except.ok.inj hweather]
        | some failure =>
            rw [hfault] at hweather
            exact absurd hweather (by simp)
      have hschema := load_schema_facts h settings
      split
      · rename_i heq
        rw [heq] at hschema
        exact ⟨hschema, fun job hjob => absurd hjob (by simp)⟩
      · rename_i schema after heq
        rw [heq] at hschema
        split
        · exact ⟨hschema, fun job hjob => absurd hjob (by simp)⟩
        · rename_i channel hchannel
          refine ⟨hschema, ?_⟩
          intro job hjob
          rw [hsaved, Except.map_error_eq_ok] at hjob
          exact assemble_facts hchannel hjob

end World

end ChangeFeed
