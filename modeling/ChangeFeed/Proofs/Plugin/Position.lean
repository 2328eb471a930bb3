import ChangeFeed.Plugin.Basic
import ChangeFeed.Proofs.Except
import ChangeFeed.Proofs.Text.Cut

/-!
# What a message tells, and where

The events that a line can tell of (`LineForm.Tells`), and of those the ones about a table by the
action behind its name (`LineForm.TableTells`). Whatever a message says, its event stands where the
server reported the message (`Plugin.decode_position`).
-/

namespace ChangeFeed.Plugin

variable {position : Position} {cs : List Char} {event : Event}

namespace LineForm

/-- What a message about a table tells, by its action. Only an update gives old keys. -/
inductive TableTells (position : Position) (schema table : String) : String → Event → Prop
  | change (kind : RowKind) {columns oldKeys : List RawColumn}
      (hkeys : kind = .update ∨ oldKeys = []) :
      TableTells position schema table kind.name
        (.row ⟨position, kind, schema, table, columns, oldKeys, none, none⟩)
  | truncation : TableTells position schema table "TRUNCATE" (.placeholder position)

/-- What a line tells. -/
inductive Tells (position : Position) : Event → Prop
  | begin (xid : Option UInt64) : Tells position (.begin position xid none)
  | commit (xid : Option UInt64) (time : Option Calendar.Instant) :
      Tells position (.commit position xid none time)
  | table {schema table action : String} {event : Event}
      (htells : TableTells position schema table action event) : Tells position event
  | message : Tells position (.placeholder position)

/-- In a message about a table the action stands between the name of the table and a colon. -/
theorem tells_of_read_table (h : readTable position cs = .ok event) :
    ∃ schema table action body,
      takeTableName cs = some ((schema, table), ':' :: ' ' :: (action.toList ++ ':' :: body)) ∧
        TableTells position schema table action event := by
  unfold readTable at h
  split at h
  case h_2 => exact absurd h (by simp)
  rename_i schema table rest hname
  split at h
  case h_2 => exact absurd h (by simp)
  rename_i rest' hseparator
  split at h
  case h_2 => exact absurd h (by simp)
  rename_i action body haction
  obtain rfl := Text.strip_start_eq_some_iff.mp hseparator
  obtain ⟨rfl, -⟩ := Text.cut_at_eq_some_iff.mp haction
  refine ⟨schema, table, String.ofList action, body, ?_, ?_⟩
  · rw [String.toList_ofList]
    exact hname
  dsimp only at h
  generalize String.ofList action = word at h ⊢
  split at h
  · obtain ⟨columns, -, h⟩ := Except.bind_eq_ok.mp h
    obtain rfl := Except.pure_eq_ok.mp h
    exact .change .insert (.inr rfl)
  · obtain ⟨⟨columns, oldKeys⟩, -, h⟩ := Except.bind_eq_ok.mp h
    obtain rfl := Except.pure_eq_ok.mp h
    exact .change .update (.inl rfl)
  · obtain ⟨columns, -, h⟩ := Except.bind_eq_ok.mp h
    obtain rfl := Except.pure_eq_ok.mp h
    exact .change .delete (.inr rfl)
  · obtain rfl := Except.pure_eq_ok.mp h
    exact .truncation
  · exact absurd h (by simp)

/-- A line that is read tells of one of these events. -/
theorem tells_of_read (h : read position cs = .ok event) : Tells position event := by
  unfold read at h
  dsimp only at h
  split at h
  · obtain ⟨xid, -, h⟩ := Except.bind_eq_ok.mp h
    obtain rfl := Except.pure_eq_ok.mp h
    exact .begin xid
  split at h
  · obtain ⟨⟨xid, time⟩, -, h⟩ := Except.bind_eq_ok.mp h
    obtain rfl := Except.pure_eq_ok.mp h
    exact .commit xid time
  split at h
  · obtain ⟨schema, table, action, body, -, htells⟩ := tells_of_read_table h
    exact .table htells
  split at h
  · obtain rfl := Except.ok.inj h
    exact .message
  · exact absurd h (by simp)

/-- A line gives an event at its position. -/
theorem read_position (h : read position cs = .ok event) : event.position = position := by
  cases tells_of_read h with
  | begin xid => rfl
  | commit xid time => rfl
  | table htells => cases htells <;> rfl
  | message => rfl

end LineForm

/-- A row document gives an event at its position. -/
theorem RowForm.read_row_position (h : RowForm.readRow position cs = .ok event) :
    event.position = position := by
  unfold RowForm.readRow at h
  split at h
  case h_2 => exact absurd h (by simp)
  split at h
  case h_2 => exact absurd h (by simp)
  obtain ⟨columns, -, h⟩ := Except.bind_eq_ok.mp h
  obtain ⟨oldKeys, -, h⟩ := Except.bind_eq_ok.mp h
  exact (Except.pure_eq_ok.mp h) ▸ rfl

/-- A message in document form gives an event at its position. -/
theorem RowForm.read_position (h : RowForm.read position cs = .ok event) :
    event.position = position := by
  unfold RowForm.read at h
  dsimp only at h
  split at h
  · exact read_row_position h
  split at h
  · obtain ⟨numbers, -, h⟩ := Except.bind_eq_ok.mp h
    exact (Except.pure_eq_ok.mp h) ▸ rfl
  · obtain ⟨numbers, -, h⟩ := Except.bind_eq_ok.mp h
    exact (Except.pure_eq_ok.mp h) ▸ rfl
  · obtain ⟨numbers, -, h⟩ := Except.bind_eq_ok.mp h
    exact (Except.pure_eq_ok.mp h) ▸ rfl
  · exact absurd h (by simp)

/-- An event stands where its message was reported. -/
theorem decode_position {plugin : Plugin} {bytes : List UInt8}
    (h : plugin.decode position bytes = .ok event) : event.position = position := by
  unfold decode at h
  split at h
  · exact absurd h (by simp)
  · cases plugin with
    | testDecoding => exact LineForm.read_position h
    | mppdbDecoding => exact RowForm.read_position h

end ChangeFeed.Plugin
