import ChangeFeed.Proofs.Applier.Lines
import ChangeFeed.Proofs.Position.Order

/-!
# What an applier acknowledges

A course is an applier with its output and with all that both did, in order: lines that the output
took, flushes, acknowledgements, and a failure. Nothing is said about when records arrive, when the
channel is empty, or which write or flush fails. Read `Applier.Course.acknowledges_flushed` first:
over every course, what is acknowledged was written and flushed before, in increasing order and
never behind a failure, and an applier that ends well has written and flushed all it received.
-/

namespace ChangeFeed.Applier

/-! ## Deeds -/

/-- What an applier and its output do. -/
inductive Deed where
  /-- The output takes the line of a record, and the channel is empty then or not. -/
  | wrote (record : Record) (isDrained : Bool)
  /-- The output passes on all it has taken. -/
  | flushed
  | acknowledged (position : Position)
  /-- The output fails. -/
  | failed

/-- What the output does when an applier gets an answer. -/
def deedsBy (control : Control) : ApplierEvent → List Deed
  | .wrote (.ok ()) isDrained => (Writing.inHand control).map (.wrote · isDrained)
  | .flushed (.ok ()) => [.flushed]
  | .wrote (.error _) _ | .flushed (.error _) => [.failed]
  | .received _ | .ended => []

/-- What is acknowledged between two states of an applier. -/
def news (before after : Applier) : List Deed :=
  if after.acknowledged = before.acknowledged then [] else [.acknowledged after.acknowledged]

/-- The records that were written, and whether the channel was empty after each. -/
def arrivalsIn (deeds : List Deed) : List (Record × Bool) :=
  deeds.filterMap fun
    | .wrote record isDrained => some (record, isDrained)
    | _ => none

/-- The records that were written. -/
def writtenIn (deeds : List Deed) : List Record :=
  (arrivalsIn deeds).map Prod.fst

/-- The positions that were acknowledged. -/
def acknowledgedIn (deeds : List Deed) : List Position :=
  deeds.filterMap fun
    | .acknowledged position => some position
    | _ => none

/-- Records in the batches in which they were flushed, and those that wait for a flush. -/
structure Batches where
  flushed : List (List Record)
  waiting : List Record

namespace Batches

/-- A record that is written waits, and a flush makes a batch of all that wait. -/
def add (b : Batches) : Deed → Batches
  | .wrote record _ => { b with waiting := b.waiting ++ [record] }
  | .flushed => ⟨b.flushed ++ [b.waiting], []⟩
  | _ => b

/-- The batches that deeds make. -/
def ofDeeds (deeds : List Deed) : Batches :=
  deeds.foldl add ⟨[], []⟩

end Batches

/-- The records that were written and flushed. -/
def flushedIn (deeds : List Deed) : List Record :=
  (Batches.ofDeeds deeds).flushed.flatten

/-- A deed may follow others: none of these is a failure, and if it acknowledges a position, a
record of that position was flushed. -/
structure MayFollow (before : List Deed) (deed : Deed) : Prop where
  not_failed : .failed ∉ before
  flushed : ∀ position, deed = .acknowledged position →
    ∃ record ∈ flushedIn before, record.position = position

/-- Every deed may follow those before it. -/
def ComeInOrder (deeds : List Deed) : Prop :=
  ∀ before deed after, deeds = before ++ deed :: after → MayFollow before deed

variable {deeds : List Deed} {deed : Deed}

@[simp]
theorem arrivals_in_append (ds es : List Deed) :
    arrivalsIn (ds ++ es) = arrivalsIn ds ++ arrivalsIn es :=
  List.filterMap_append

@[simp]
theorem written_in_append (ds es : List Deed) :
    writtenIn (ds ++ es) = writtenIn ds ++ writtenIn es := by
  rw [writtenIn, arrivals_in_append, List.map_append, writtenIn, writtenIn]

@[simp]
theorem acknowledged_in_append (ds es : List Deed) :
    acknowledgedIn (ds ++ es) = acknowledgedIn ds ++ acknowledgedIn es :=
  List.filterMap_append

@[simp]
theorem Batches.of_deeds_concat (ds : List Deed) (d : Deed) :
    Batches.ofDeeds (ds ++ [d]) = (Batches.ofDeeds ds).add d := by
  rw [ofDeeds, List.foldl_append]
  rfl

/-- What was written is flushed or waits. -/
theorem flushed_append_waiting (deeds : List Deed) :
    flushedIn deeds ++ (Batches.ofDeeds deeds).waiting = writtenIn deeds := by
  induction deeds using List.reverseRecOn with
  | nil => rfl
  | append_singleton ds d ih =>
      rw [flushedIn, Batches.of_deeds_concat, written_in_append, ← ih, flushedIn]
      cases d <;> simp [Batches.add, writtenIn, arrivalsIn]

/-- After a flush everything written is flushed. -/
theorem flushed_in_concat_flushed (deeds : List Deed) :
    flushedIn (deeds ++ [.flushed]) = writtenIn deeds := by
  rw [← flushed_append_waiting, flushedIn, flushedIn, Batches.of_deeds_concat]
  simp [Batches.add]

/-- Another deed that may follow keeps deeds in order. -/
theorem ComeInOrder.concat (h : ComeInOrder deeds) (hdeed : MayFollow deeds deed) :
    ComeInOrder (deeds ++ [deed]) := by
  intro before other after heq
  rcases List.eq_nil_or_concat after with rfl | ⟨rest, last, rfl⟩
  · obtain ⟨rfl, hlast⟩ := List.append_inj' heq rfl
    obtain rfl : deed = other := by simpa using hlast
    exact hdeed
  · have heq' : deeds ++ [deed] = (before ++ other :: rest) ++ [last] := by simpa using heq
    exact h before other rest (List.append_inj' heq' rfl).1

/-- Positions of which the last one is known increase when a greater one is added. -/
theorem increases_concat {initial latest position : Position} {positions : List Position}
    (h : (initial :: positions).Pairwise (· < ·)) (hlatest : positions.getLastD initial = latest)
    (hlt : latest < position) : (initial :: (positions ++ [position])).Pairwise (· < ·) := by
  rw [← List.cons_append, List.pairwise_append]
  refine ⟨h, List.pairwise_singleton _ _, ?_⟩
  intro p hp q hq
  obtain rfl := List.mem_singleton.mp hq
  refine lt_of_le_of_lt ?_ hlt
  rcases List.eq_nil_or_concat positions with rfl | ⟨rest, last, rfl⟩
  · obtain rfl : initial = latest := hlatest
    exact (List.mem_singleton.mp hp).le
  · obtain rfl : last = latest := by simpa using hlatest
    rw [List.concat_eq_append, ← List.cons_append] at h hp
    rcases List.mem_append.mp hp with hp | hp
    · exact ((List.pairwise_append.mp h).2.2 p hp last (List.mem_singleton_self last)).le
    · exact (List.mem_singleton.mp hp).le

/-- A flush leaves the acknowledgement or moves it on to what was written last. -/
theorem acknowledge_cases (a : Applier) :
    a.acknowledge.acknowledged = a.acknowledged ∨
      ∃ position, a.last = some position ∧ a.acknowledge.acknowledged = position ∧
        a.acknowledged < position := by
  cases hlast : a.last with
  | none => exact .inl (by simp [acknowledge, hlast])
  | some position =>
      have hmax : a.acknowledge.acknowledged = max a.acknowledged position := by
        simp [acknowledge, hlast]
      rcases le_or_gt position a.acknowledged with hle | hlt
      · exact .inl (hmax.trans (max_eq_left hle))
      · exact .inr ⟨position, rfl, hmax.trans (max_eq_right hlt.le), hlt⟩

/-- An applier that has not ended stands elsewhere than at its end. -/
theorem control_ne_of_goes {a : Applier} (hgoes : a.isFinished = false)
    (result : Except Failure Nat) : a.control ≠ .finished result := by
  intro hover
  have hfinished : a.isFinished = true := is_finished_iff.mpr ⟨result, hover⟩
  exact Bool.false_ne_true (hgoes.symm.trans hfinished)

/-- An applier that has written a record flushes when it has written enough since the last flush or
when the channel is empty. -/
theorem step_wrote {a : Applier} {record : Record} (h : a.control = .writing record)
    (flushEvery : Nat) (isDrained : Bool) :
    a.step flushEvery (.wrote (.ok ()) isDrained) = some { a.count record with
      control := if flushEvery ≤ a.unflushed + 1 ∨ isDrained then .flushing false
        else .receiving } := by
  simp only [step, h, count]
  split <;> rfl

/-! ## Courses -/

/-- An applier and its output with all they did. -/
structure Course where
  writing : Writing
  deeds : List Deed

namespace Course

/-- A course that starts with an empty output when a position is already acknowledged. -/
def start (acknowledged : Position) : Course :=
  ⟨.start acknowledged, []⟩

/-- One transition. What the output does comes before what is acknowledged because of it. -/
def step (flushEvery : Nat) (c : Course) (move : Writing.Move) : Option Course :=
  (c.writing.step flushEvery move).map fun writing =>
    { writing := writing
      deeds := c.deeds ++ deedsBy c.writing.applier.control move.event ++
        news c.writing.applier writing.applier }

/-- A run of an applier with its output. -/
def run (flushEvery : Nat) (c : Course) (moves : List Writing.Move) : Option Course :=
  moves.foldlM (step flushEvery) c

/-- Runs one after the other are a run. -/
theorem run_append {flushEvery : Nat} (c : Course) (moves more : List Writing.Move) :
    c.run flushEvery (moves ++ more) = (c.run flushEvery moves).bind (run flushEvery · more) :=
  List.foldlM_append

/-- What every transition keeps, every run keeps. -/
theorem run_keeps {flushEvery : Nat} {P : Course → Prop}
    (hkeeps : ∀ c c' move, P c → c.step flushEvery move = some c' → P c') {c c' : Course}
    {moves : List Writing.Move} (h : P c) (hrun : c.run flushEvery moves = some c') : P c' := by
  induction moves generalizing c with
  | nil => exact Option.some.inj hrun ▸ h
  | cons move rest ih =>
      obtain ⟨next, hstep, hrest⟩ := Option.bind_eq_some_iff.mp hrun
      exact ih (hkeeps c next move h hstep) hrest

/-- What holds of an applier with its output and with what both did since a position was
acknowledged. -/
structure Accounts (initial : Position) (c : Course) : Prop where
  orderly : c.writing.IsOrderly
  written : writtenIn c.deeds = c.writing.taken
  in_order : ComeInOrder c.deeds
  increases : (initial :: acknowledgedIn c.deeds).Pairwise (· < ·)
  latest : (acknowledgedIn c.deeds).getLastD initial = c.writing.applier.acknowledged
  last : c.writing.applier.last = (writtenIn c.deeds).getLast?.map Record.position
  failed_iff : .failed ∈ c.deeds ↔
    ∃ failure, c.writing.applier.control = .finished (.error failure)
  /-- An applier ends well behind a flush. -/
  flushed : ∀ n, c.writing.applier.control = .finished (.ok n) →
    (Batches.ofDeeds c.deeds).waiting = []

variable {flushEvery : Nat} {initial : Position} {c c' : Course} {move : Writing.Move}

/-- The accounts of a course that starts. -/
theorem accounts_start (initial : Position) : (start initial).Accounts initial where
  orderly := Writing.orderly_start initial
  written := rfl
  in_order before deed after h := absurd h (by simp [start])
  increases := List.pairwise_singleton _ _
  latest := rfl
  last := rfl
  failed_iff := ⟨fun h => absurd h List.not_mem_nil, fun ⟨_, h⟩ => absurd h nofun⟩
  flushed _ h := absurd h nofun

/-- Nothing has failed while an applier has not ended. -/
theorem Accounts.not_failed (h : c.Accounts initial)
    (hgoes : c.writing.applier.isFinished = false) : .failed ∉ c.deeds := by
  intro hfailed
  obtain ⟨failure, hcontrol⟩ := h.failed_iff.mp hfailed
  exact control_ne_of_goes hgoes _ hcontrol

/-- What holds of the deeds of a course behind a flush and what is acknowledged after it. -/
structure Settled (initial acknowledged : Position) (written : List Record)
    (deeds : List Deed) : Prop where
  not_failed : .failed ∉ deeds
  written : writtenIn deeds = written
  in_order : ComeInOrder deeds
  increases : (initial :: acknowledgedIn deeds).Pairwise (· < ·)
  latest : (acknowledgedIn deeds).getLastD initial = acknowledged
  flushed : (Batches.ofDeeds deeds).waiting = []

/-- A flush settles what was written, and what is acknowledged after it was flushed. -/
theorem Accounts.settled (h : c.Accounts initial) (hgoes : c.writing.applier.isFinished = false)
    {after : Applier}
    (hafter : after.acknowledged = c.writing.applier.acknowledge.acknowledged) :
    Settled initial after.acknowledged (writtenIn c.deeds)
      (c.deeds ++ [.flushed] ++ news c.writing.applier after) := by
  have hfailed := h.not_failed hgoes
  have hflush : Settled initial c.writing.applier.acknowledged (writtenIn c.deeds)
      (c.deeds ++ [.flushed]) := {
    not_failed := by simpa using hfailed
    written := by simp [writtenIn, arrivalsIn]
    in_order := h.in_order.concat ⟨hfailed, nofun⟩
    increases := by simpa [acknowledgedIn] using h.increases
    latest := by simpa [acknowledgedIn] using h.latest
    flushed := by simp [Batches.add] }
  rcases acknowledge_cases c.writing.applier with hsame | ⟨position, hlast, hnew, hlt⟩
  · have hnone : news c.writing.applier after = [] := if_pos (hafter.trans hsame)
    rw [hnone, List.append_nil, hafter, hsame]
    exact hflush
  · have hposition : after.acknowledged = position := hafter.trans hnew
    have hone : news c.writing.applier after = [.acknowledged position] := by
      rw [news, if_neg (hposition ▸ hlt.ne'), hposition]
    obtain ⟨record, hrecord, hat⟩ := Option.map_eq_some_iff.mp (h.last.symm.trans hlast)
    rw [hone, hposition]
    refine {
      not_failed := by simpa using hfailed
      written := by simp [writtenIn, arrivalsIn]
      in_order := hflush.in_order.concat ⟨hflush.not_failed, ?_⟩
      increases := ?_
      latest := by simp [acknowledgedIn]
      flushed := by
        rw [Batches.of_deeds_concat]
        exact hflush.flushed }
    · intro other hother
      obtain rfl : position = other := Deed.acknowledged.inj hother
      rw [flushed_in_concat_flushed]
      exact ⟨record, List.mem_of_getLast? hrecord, hat⟩
    · rw [acknowledged_in_append]
      exact increases_concat hflush.increases hflush.latest hlt

/-- The accounts where nothing is done. -/
theorem Accounts.silent (h : c.Accounts initial) (hfailed : .failed ∉ c.deeds)
    {writing : Writing} (horderly : writing.IsOrderly) (htaken : writing.taken = c.writing.taken)
    (hacknowledged : writing.applier.acknowledged = c.writing.applier.acknowledged)
    (hlast : writing.applier.last = c.writing.applier.last)
    (hgoes : writing.applier.isFinished = false) :
    Accounts initial ⟨writing, c.deeds⟩ where
  orderly := horderly
  written := h.written.trans htaken.symm
  in_order := h.in_order
  increases := h.increases
  latest := h.latest.trans hacknowledged.symm
  last := hlast.trans h.last
  failed_iff :=
    iff_of_false hfailed fun ⟨_, hover⟩ => control_ne_of_goes hgoes _ hover
  flushed _ hover := absurd hover (control_ne_of_goes hgoes _)

/-- The accounts behind a line. -/
theorem Accounts.behind_line (h : c.Accounts initial) (hfailed : .failed ∉ c.deeds)
    {writing : Writing} {record : Record} (isDrained : Bool) (horderly : writing.IsOrderly)
    (htaken : writing.taken = c.writing.taken ++ [record])
    (hacknowledged : writing.applier.acknowledged = c.writing.applier.acknowledged)
    (hlast : writing.applier.last = some record.position)
    (hgoes : writing.applier.isFinished = false) :
    Accounts initial ⟨writing, c.deeds ++ [.wrote record isDrained]⟩ where
  orderly := horderly
  written := by simp [htaken, ← h.written, writtenIn, arrivalsIn]
  in_order := h.in_order.concat ⟨hfailed, nofun⟩
  increases := by simpa [acknowledgedIn] using h.increases
  latest := by simpa [acknowledgedIn, hacknowledged] using h.latest
  last := by simp [hlast, writtenIn, arrivalsIn]
  failed_iff :=
    iff_of_false (by simpa using hfailed) fun ⟨_, hover⟩ => control_ne_of_goes hgoes _ hover
  flushed _ hover := absurd hover (control_ne_of_goes hgoes _)

/-- The accounts behind a failure. -/
theorem Accounts.behind_failure (h : c.Accounts initial) (hfailed : .failed ∉ c.deeds)
    {writing : Writing} (horderly : writing.IsOrderly) (htaken : writing.taken = c.writing.taken)
    (hacknowledged : writing.applier.acknowledged = c.writing.applier.acknowledged)
    (hlast : writing.applier.last = c.writing.applier.last) {failure : Failure}
    (hover : writing.applier.control = .finished (.error failure)) :
    Accounts initial ⟨writing, c.deeds ++ [.failed]⟩ where
  orderly := horderly
  written := by simp [htaken, ← h.written, writtenIn, arrivalsIn]
  in_order := h.in_order.concat ⟨hfailed, nofun⟩
  increases := by simpa [acknowledgedIn] using h.increases
  latest := by simpa [acknowledgedIn, hacknowledged] using h.latest
  last := by simpa [hlast, writtenIn, arrivalsIn] using h.last
  failed_iff := ⟨fun _ => ⟨failure, hover⟩, fun _ => by simp⟩
  flushed _ hwell := absurd (hover.symm.trans hwell) nofun

/-- The accounts behind a flush. -/
theorem Accounts.behind_flush (h : c.Accounts initial) {writing : Writing} {deeds : List Deed}
    (hsettled : Settled initial writing.applier.acknowledged (writtenIn c.deeds) deeds)
    (horderly : writing.IsOrderly) (htaken : writing.taken = c.writing.taken)
    (hlast : writing.applier.last = c.writing.applier.last)
    (hgoes : ∀ failure, writing.applier.control ≠ .finished (.error failure)) :
    Accounts initial ⟨writing, deeds⟩ where
  orderly := horderly
  written := hsettled.written.trans (h.written.trans htaken.symm)
  in_order := hsettled.in_order
  increases := hsettled.increases
  latest := hsettled.latest
  last := by
    rw [hsettled.written, hlast]
    exact h.last
  failed_iff := iff_of_false hsettled.not_failed fun ⟨_, hover⟩ => hgoes _ hover
  flushed _ _ := hsettled.flushed

/-- Every transition keeps the accounts. -/
theorem Accounts.step (h : c.Accounts initial) (hstep : c.step flushEvery move = some c') :
    c'.Accounts initial := by
  obtain ⟨writing, hwriting, rfl⟩ := Option.map_eq_some_iff.mp hstep
  have horderly := h.orderly.step hwriting
  obtain ⟨after, happlier, rfl⟩ := Option.map_eq_some_iff.mp hwriting
  have hmoves := moves_of_step happlier
  have hgoes := hmoves.not_finished
  have hfailed := h.not_failed hgoes
  obtain ⟨⟨a, received, taken, output⟩, deeds⟩ := c
  obtain ⟨event, torn⟩ := move
  dsimp only at hmoves hgoes hfailed horderly ⊢
  cases hmoves with
  | receives hcontrol =>
      have hafter := h.silent hfailed horderly (by simp [Writing.takenBy, hcontrol]) rfl rfl rfl
      simpa [deedsBy, news, hcontrol] using hafter
  | ends hcontrol =>
      have hafter := h.silent hfailed horderly (by simp [Writing.takenBy, hcontrol]) rfl rfl rfl
      simpa [deedsBy, news, hcontrol] using hafter
  | @writes record isDrained next hcontrol hnext =>
      have hgoes : { a.count record with control := next }.isFinished = false := by
        rcases hnext with rfl | rfl <;> rfl
      have hafter := h.behind_line hfailed isDrained horderly
        (by simp [Writing.takenBy, hcontrol]) rfl rfl hgoes
      simpa [deedsBy, news, hcontrol, count, Writing.inHand] using hafter
  | flushes hcontrol =>
      exact h.behind_flush (h.settled hgoes rfl) horderly (by simp [Writing.takenBy, hcontrol]) rfl
        (by simp)
  | flushesLast hcontrol =>
      exact h.behind_flush (h.settled hgoes rfl) horderly (by simp [Writing.takenBy, hcontrol]) rfl
        (by simp)
  | fails hevent _ =>
      have hnone : Writing.takenBy a.control event = [] := by
        rcases hevent with ⟨_, rfl⟩ | rfl <;> cases a.control <;> rfl
      have hdeeds : deedsBy a.control event = [.failed] := by
        rcases hevent with ⟨_, rfl⟩ | rfl <;> rfl
      have hafter := h.behind_failure hfailed horderly (by simp [hnone]) rfl rfl rfl
      simpa [hdeeds, news, fail] using hafter

/-- The accounts of a course that has started. -/
theorem accounts_run {moves : List Writing.Move}
    (hrun : (start initial).run flushEvery moves = some c) : c.Accounts initial :=
  run_keeps (fun _ _ _ h hstep => h.step hstep) (accounts_start initial) hrun

/-! ## Courses without a failure -/

/-- Acknowledging writes nothing. -/
theorem arrivals_in_news (before after : Applier) : arrivalsIn (news before after) = [] := by
  unfold news
  split <;> rfl

/-- What an applier can do, it can do in a course. -/
theorem exists_step {event : ApplierEvent} {after : Applier}
    (h : c.writing.applier.step flushEvery event = some after) :
    ∃ c', c.step flushEvery ⟨event, 0⟩ = some c' ∧ c'.writing.applier = after ∧
      arrivalsIn c'.deeds =
        arrivalsIn c.deeds ++ arrivalsIn (deedsBy c.writing.applier.control event) := by
  have hwriting : ∃ writing, c.writing.step flushEvery ⟨event, 0⟩ = some writing ∧
      writing.applier = after :=
    ⟨_, Option.map_eq_some_iff.mpr ⟨after, h, rfl⟩, rfl⟩
  obtain ⟨writing, hstep, happlier⟩ := hwriting
  refine ⟨_, Option.map_eq_some_iff.mpr ⟨writing, hstep, rfl⟩, happlier, ?_⟩
  simp [arrivals_in_news]

/-- An applier that waits for a record can receive and write it, with the channel empty then or not,
and waits again. -/
theorem exists_run_arrival (hcontrol : c.writing.applier.control = .receiving)
    (record : Record) (isDrained : Bool) :
    ∃ moves c', c.run flushEvery moves = some c' ∧ c'.writing.applier.control = .receiving ∧
      arrivalsIn c'.deeds = arrivalsIn c.deeds ++ [(record, isDrained)] := by
  have hreceives : c.writing.applier.step flushEvery (.received record) =
      some { c.writing.applier with control := .writing record } := by
    simp [Applier.step, hcontrol]
  obtain ⟨taking, htakes, htaking, harrived⟩ := exists_step hreceives
  have hrecord : taking.writing.applier.control = .writing record := by rw [htaking]
  obtain ⟨taken, hwrites, htaken, hwrote⟩ := exists_step (step_wrote hrecord flushEvery isDrained)
  have harrivals : arrivalsIn taken.deeds = arrivalsIn c.deeds ++ [(record, isDrained)] := by
    rw [hwrote, harrived]
    simp [deedsBy, hrecord, Writing.inHand, arrivalsIn]
  by_cases hdue : flushEvery ≤ taking.writing.applier.unflushed + 1 ∨ isDrained = true
  · have hflushes : taken.writing.applier.step flushEvery (.flushed (.ok ())) =
        some { taken.writing.applier.acknowledge with control := .receiving } := by
      simp [htaken, hdue, Applier.step]
    obtain ⟨flushed, hflush, hflushed, hsame⟩ := exists_step hflushes
    refine ⟨[⟨.received record, 0⟩, ⟨.wrote (.ok ()) isDrained, 0⟩, ⟨.flushed (.ok ()), 0⟩],
      flushed, by simp [run, htakes, hwrites, hflush], by rw [hflushed], ?_⟩
    rw [hsame, harrivals]
    exact List.append_nil _
  · refine ⟨[⟨.received record, 0⟩, ⟨.wrote (.ok ()) isDrained, 0⟩], taken,
      by simp [run, htakes, hwrites], ?_, harrivals⟩
    rw [htaken]
    exact if_neg hdue

/-- An applier that waits for a record can receive and write any records, with the channel empty
or not after each, and end well then. -/
theorem exists_run (hcontrol : c.writing.applier.control = .receiving)
    (arrivals : List (Record × Bool)) :
    ∃ moves c' n, c.run flushEvery moves = some c' ∧ c'.writing.applier.result? = some (.ok n) ∧
      arrivalsIn c'.deeds = arrivalsIn c.deeds ++ arrivals := by
  induction arrivals generalizing c with
  | nil =>
      have hends : c.writing.applier.step flushEvery .ended =
          some { c.writing.applier with control := .flushing true } := by
        simp [Applier.step, hcontrol]
      obtain ⟨ending, hend, hending, harrived⟩ := exists_step hends
      have hflushes : ending.writing.applier.step flushEvery (.flushed (.ok ())) =
          some { ending.writing.applier.acknowledge with
            control := .finished (.ok ending.writing.applier.acknowledge.written) } := by
        simp [hending, Applier.step]
      obtain ⟨flushed, hflush, hflushed, hsame⟩ := exists_step hflushes
      refine ⟨[⟨.ended, 0⟩, ⟨.flushed (.ok ()), 0⟩], flushed, _, by simp [run, hend, hflush],
        by rw [hflushed]; rfl, ?_⟩
      rw [hsame, harrived]
      simp [deedsBy, arrivalsIn]
  | cons arrival rest ih =>
      obtain ⟨moves, next, hrun, hwaits, harrived⟩ :=
        exists_run_arrival hcontrol arrival.1 arrival.2
      obtain ⟨more, c', n, hmore, hresult, hrest⟩ := ih hwaits
      refine ⟨moves ++ more, c', n, ?_, hresult, by simp [hrest, harrived]⟩
      rw [run_append, hrun]
      exact hmore

/-- An applier has a result when it stands at its end. -/
theorem result_eq_some_iff {a : Applier} {result : Except Failure Nat} :
    a.result? = some result ↔ a.control = .finished result := by
  constructor
  · exact control_of_result
  · intro h
    rw [result?, h]

/-- Any records can be written in any pattern of arrivals, and the applier counts them then. -/
theorem exists_course (flushEvery : Nat) (initial : Position) (arrivals : List (Record × Bool)) :
    ∃ moves c, (start initial).run flushEvery moves = some c ∧ arrivalsIn c.deeds = arrivals ∧
      c.writing.applier.result? = some (.ok arrivals.length) := by
  obtain ⟨moves, c, n, hrun, hresult, harrived⟩ : ∃ moves c n,
      (start initial).run flushEvery moves = some c ∧
        c.writing.applier.result? = some (.ok n) ∧
        arrivalsIn c.deeds = arrivalsIn (start initial).deeds ++ arrivals := exists_run rfl arrivals
  have haccounts := accounts_run hrun
  have hlength : n = arrivals.length := by
    rw [haccounts.orderly.count n (result_eq_some_iff.mp hresult), ← haccounts.written, writtenIn,
      harrived]
    simp [start, arrivalsIn]
  exact ⟨moves, c, hrun, harrived, hlength ▸ hresult⟩

/-! ## The main result -/

/-- What holds of a course that has started when a position was already acknowledged. -/
structure IsSafe (initial : Position) (c : Course) : Prop where
  /-- Records are written in the order in which they are received, and each once. -/
  written : writtenIn c.deeds <+: c.writing.received
  /-- The output holds their lines, and behind these at most the beginning of one that failed. -/
  output : ∃ torn, c.writing.output = (writtenIn c.deeds).flatMap outputOf ++ torn ∧
    (torn = [] ∨ .failed ∈ c.deeds ∧ ∃ record ∈ c.writing.received, torn <+: bytesOf record)
  /-- What is acknowledged was flushed before, and nothing happens behind a failure. -/
  in_order : ComeInOrder c.deeds
  increases : (initial :: acknowledgedIn c.deeds).Pairwise (· < ·)
  latest : c.writing.applier.acknowledged = (acknowledgedIn c.deeds).getLastD initial
  failed_iff : .failed ∈ c.deeds ↔ ∃ failure, c.writing.applier.result? = some (.error failure)
  /-- An applier that ends well has written and flushed all that it received. -/
  whole : ∀ n, c.writing.applier.result? = some (.ok n) →
    n = c.writing.received.length ∧ flushedIn c.deeds = c.writing.received ∧
      c.writing.output = c.writing.received.flatMap outputOf

/-- The accounts of a course show that it is safe. -/
theorem Accounts.is_safe (h : c.Accounts initial) : c.IsSafe initial where
  written := h.written ▸ h.orderly.taken
  output := by
    rw [h.written]
    by_cases hfailed : .failed ∈ c.deeds
    · obtain ⟨torn, houtput, htorn⟩ := h.orderly.output
      exact ⟨torn, houtput, htorn.imp_right fun hrecord => ⟨hfailed, hrecord⟩⟩
    · have hgoes : ∀ failure, c.writing.applier.control ≠ .finished (.error failure) :=
        fun failure hover => hfailed (h.failed_iff.mpr ⟨failure, hover⟩)
      refine ⟨[], ?_, .inl rfl⟩
      rw [List.append_nil]
      exact (h.orderly.whole hgoes).1
  in_order := h.in_order
  increases := h.increases
  latest := h.latest.symm
  failed_iff := by
    simp only [result_eq_some_iff]
    exact h.failed_iff
  whole := by
    intro n hresult
    have hover := result_eq_some_iff.mp hresult
    obtain ⟨houtput, hreceived, -⟩ := h.orderly.whole fun failure hfailed =>
      absurd (hover.symm.trans hfailed) nofun
    have hall : c.writing.received = c.writing.taken := by
      simpa [hover, Writing.inHand] using hreceived
    have hflushed := flushed_append_waiting c.deeds
    rw [h.flushed n hover, List.append_nil, h.written] at hflushed
    rw [hall]
    exact ⟨h.orderly.count n hover, hflushed, houtput⟩

/-- Any records can be written in any pattern of arrivals. Over every course, whatever the numbers
of records between flushes, the arrivals and the failures, records are written in order and once
each, a position that is acknowledged is greater than those before and belongs to a record that was
written and flushed by then, nothing follows a failure, and an applier that ends well has written
and flushed as many records as it says, which are all that it received. -/
theorem acknowledges_flushed (flushEvery : Nat) (initial : Position) :
    (∀ arrivals, ∃ moves c, (start initial).run flushEvery moves = some c ∧
      arrivalsIn c.deeds = arrivals ∧
      c.writing.applier.result? = some (.ok arrivals.length)) ∧
    ∀ moves c, (start initial).run flushEvery moves = some c → c.IsSafe initial :=
  ⟨exists_course flushEvery initial, fun _ _ hrun => (accounts_run hrun).is_safe⟩

end Course

end ChangeFeed.Applier
