import ChangeFeed.Proofs.Position.Text
import ChangeFeed.Proofs.Value.Document
import ChangeFeed.Record.Document

/-!
# Records read back

A record whose values hold no floating-point numbers is the record of its document, as long as that
is not nested too deeply: `Record.of_json_to_json`. Columns, data records and transactions are read
by the names of their fields (`Json.members_zip`); which kind of record it is says the field in
front of the others.
-/

namespace ChangeFeed

open Json (IsPlain ArePlain AreFieldsPlain height heightOfItems heightOfFields depthLimit)

/-- A number of 64 bits is read back, or that there is none. -/
theorem optional_word (n : Option UInt64) :
    (Json.ofOptional wordJson n).toOptional? wordOf = some n := by
  cases n with
  | none => rfl
  | some n =>
      have hlt : (n.toNat : Int) < 18446744073709551616 := Int.ofNat_lt.mpr n.toNat_lt
      have hword : wordOf (.integer n.toNat) = some n := by
        simp [wordOf, Json.toNatBelow?, hlt]
      simp [Json.ofOptional, wordJson, Json.toOptional?, hword]

/-- A number of 64 bits is a plain document, and so is that there is none. -/
theorem is_plain_optional_word (n : Option UInt64) : (Json.ofOptional wordJson n).IsPlain := by
  cases n with
  | none => trivial
  | some n => exact Json.is_whole_of_lt n.toNat_lt

/-- A moment is read back, or that there is none. -/
theorem optional_instant (t : Option Calendar.Instant) :
    (Json.ofOptional (fun t => .text t.write) t).toOptional? instantOf = some t := by
  cases t with
  | none => rfl
  | some t =>
      have hinstant : instantOf (.text t.write) = some t := by
        simp only [instantOf, Json.toText?, Option.bind_some, Calendar.read_stored_instant_write]
      simp [Json.ofOptional, Json.toOptional?, hinstant]

/-- A moment is a plain document, and so is that there is none. -/
theorem is_plain_optional_instant (t : Option Calendar.Instant) :
    (Json.ofOptional (fun t => .text t.write) t).IsPlain := by
  cases t <;> trivial

/-- An operation is read back from its name. -/
theorem Operation.of_json_name (operation : Operation) :
    ofJson? (.text operation.name) = some operation := by
  cases operation <;> rfl

namespace Column

/-- A column without floating-point numbers is a plain document. -/
theorem is_plain_to_json {c : Column} (h : c.value.IsExact) : c.toJson.IsPlain := by
  have hvalue := Value.is_plain_to_json c.value h
  simp [toJson, IsPlain, AreFieldsPlain, hvalue]

/-- A column without floating-point numbers is read back from its document. -/
theorem of_json_to_json {c : Column} (h : c.value.IsExact)
    (hheight : c.value.toJson.height ≤ depthLimit) : ofJson? c.toJson = some c := by
  have hvalue := Value.of_json_to_json h hheight true
  have hmembers : Json.members [("name", .required), ("value", .required), ("unique_key", .required)]
      c.toJson = some [some (.text c.name), some c.value.toJson, some (.bool c.uniqueKey)] :=
    Json.members_zip [.text c.name, c.value.toJson, .bool c.uniqueKey] rfl (by simp)
  rw [ofJson?, hmembers]
  simp [Json.toText?, Json.toBool?, hvalue]

/-- Columns without floating-point numbers are read back from the list of their documents. -/
theorem list_of_columns {columns : List Column} (h : ∀ c ∈ columns, c.value.IsExact)
    (hheight : heightOfItems (columns.map toJson) ≤ depthLimit) :
    (Json.list (columns.map toJson)).toListOf? ofJson? = some columns := by
  refine Json.list_of_map fun c hc => of_json_to_json (h c hc) ?_
  have hle := (Json.height_le_of_mem (List.mem_map_of_mem (f := toJson) hc)).trans hheight
  simp only [toJson, height, heightOfFields] at hle
  omega

/-- Columns without floating-point numbers are plain documents. -/
theorem are_plain_columns {columns : List Column} (h : ∀ c ∈ columns, c.value.IsExact) :
    ArePlain (columns.map toJson) := by
  refine Json.are_plain_of_forall fun item hitem => ?_
  obtain ⟨c, hc, rfl⟩ := List.mem_map.mp hitem
  exact is_plain_to_json (h c hc)

end Column

namespace DataRecord

/-- The fields of a data record without floating-point numbers are plain. -/
theorem are_plain_fields {r : DataRecord} (h : ∀ c ∈ r.before ++ r.after, c.value.IsExact) :
    AreFieldsPlain r.fields := by
  have hbefore := Column.are_plain_columns fun c hc => h c (List.mem_append_left _ hc)
  have hafter := Column.are_plain_columns fun c hc => h c (List.mem_append_right _ hc)
  have hkeys : ArePlain (r.uniqueKeys.map Json.text) := by
    refine Json.are_plain_of_forall fun item hitem => ?_
    obtain ⟨_, -, rfl⟩ := List.mem_map.mp hitem
    trivial
  have hxid := is_plain_optional_word r.xid
  have hcsn := is_plain_optional_word r.csn
  have hposition := r.position.is_plain_to_json
  simp [fields, AreFieldsPlain, IsPlain, hbefore, hafter, hkeys, hxid, hcsn, hposition]

/-- A data record without floating-point numbers is read back from its fields. -/
theorem of_json_fields {r : DataRecord} (h : ∀ c ∈ r.before ++ r.after, c.value.IsExact)
    (hheight : (Json.object r.fields).height ≤ depthLimit) : ofJson? (.object r.fields) = some r := by
  simp only [fields, height, heightOfFields] at hheight
  have hbefore := Column.list_of_columns (fun c hc => h c (List.mem_append_left _ hc))
    (by omega)
  have hafter := Column.list_of_columns (fun c hc => h c (List.mem_append_right _ hc))
    (by omega)
  have hkeys : (Json.list (r.uniqueKeys.map .text)).toListOf? Json.toText? = some r.uniqueKeys :=
    Json.list_of_map fun _ _ => rfl
  have hxid := optional_word r.xid
  have hcsn := optional_word r.csn
  have hmembers : Json.members [("table", .required), ("op", .required), ("before", .required),
      ("after", .required), ("unique_keys", .required), ("xid", .optional), ("csn", .optional),
      ("position", .required)] (.object r.fields) = some
        [some (.text r.table), some (.text r.operation.name),
          some (.list (r.before.map Column.toJson)), some (.list (r.after.map Column.toJson)),
          some (.list (r.uniqueKeys.map .text)), some (Json.ofOptional wordJson r.xid),
          some (Json.ofOptional wordJson r.csn), some r.position.toJson] :=
    Json.members_zip [.text r.table, .text r.operation.name,
      .list (r.before.map Column.toJson), .list (r.after.map Column.toJson),
      .list (r.uniqueKeys.map .text), Json.ofOptional wordJson r.xid,
      Json.ofOptional wordJson r.csn, r.position.toJson] rfl (by simp)
  rw [ofJson?, hmembers]
  generalize Json.list (r.before.map Column.toJson) = before at hbefore ⊢
  generalize Json.list (r.after.map Column.toJson) = after at hafter ⊢
  generalize Json.list (r.uniqueKeys.map .text) = keys at hkeys ⊢
  generalize Json.ofOptional wordJson r.xid = xid at hxid ⊢
  generalize Json.ofOptional wordJson r.csn = csn at hcsn ⊢
  simp [Json.toText?, Operation.of_json_name, hbefore, hafter, hkeys, hxid, hcsn]

end DataRecord

namespace TransactionRecord

/-- The fields of a transaction record are plain. -/
theorem are_plain_fields (r : TransactionRecord) : AreFieldsPlain r.fields := by
  have hxid := is_plain_optional_word r.xid
  have hcsn := is_plain_optional_word r.csn
  have htime := is_plain_optional_instant r.commitTime
  have hposition := r.position.is_plain_to_json
  simp [fields, AreFieldsPlain, hxid, hcsn, htime, hposition]

/-- A transaction record is read back from its fields. -/
theorem of_json_fields (r : TransactionRecord) : ofJson? (.object r.fields) = some r := by
  have hxid := optional_word r.xid
  have hcsn := optional_word r.csn
  have htime := optional_instant r.commitTime
  have hmembers : Json.members [("xid", .optional), ("csn", .optional), ("commit_time", .optional),
      ("position", .required)] (.object r.fields) = some
        [some (Json.ofOptional wordJson r.xid), some (Json.ofOptional wordJson r.csn),
          some (Json.ofOptional (fun t => .text t.write) r.commitTime), some r.position.toJson] :=
    Json.members_zip [Json.ofOptional wordJson r.xid, Json.ofOptional wordJson r.csn,
      Json.ofOptional (fun t => .text t.write) r.commitTime, r.position.toJson] rfl (by simp)
  rw [ofJson?, hmembers]
  generalize Json.ofOptional wordJson r.xid = xid at hxid ⊢
  generalize Json.ofOptional wordJson r.csn = csn at hcsn ⊢
  generalize Json.ofOptional (fun t : Calendar.Instant => .text t.write) r.commitTime = time
    at htime ⊢
  simp [hxid, hcsn, htime]

end TransactionRecord

namespace Record

/-- Whether no value of a record holds a floating-point number. -/
def IsExact : Record → Prop
  | .data r => ∀ c ∈ r.before ++ r.after, c.value.IsExact
  | .transaction _ => True
  | .placeholder _ => True

/-- A record without floating-point numbers is a plain document. -/
theorem is_plain_to_json {record : Record} (h : record.IsExact) : record.toJson.IsPlain := by
  cases record with
  | data r => exact ⟨trivial, DataRecord.are_plain_fields h⟩
  | transaction r => exact ⟨trivial, r.are_plain_fields⟩
  | placeholder p => exact ⟨trivial, p.is_plain_to_json, trivial⟩

/-- A record without floating-point numbers is read back from its document. -/
theorem of_json_to_json {record : Record} (h : record.IsExact)
    (hheight : record.toJson.height ≤ depthLimit) : ofJson? record.toJson = some record := by
  cases record with
  | data r =>
      have hfields : (Json.object r.fields).height ≤ depthLimit := by
        simp only [toJson, height, heightOfFields] at hheight ⊢
        omega
      have htagged : Json.tagged "type" ["data", "transaction", "placeholder"] false
          (toJson (.data r)) = some ("data", .object r.fields) :=
        Json.tagged_cons (by simp) (by simp [DataRecord.fields]) (DataRecord.are_plain_fields h)
      rw [ofJson?, htagged]
      simp [DataRecord.of_json_fields h hfields]
  | transaction r =>
      have htagged : Json.tagged "type" ["data", "transaction", "placeholder"] false
          (toJson (.transaction r)) = some ("transaction", .object r.fields) :=
        Json.tagged_cons (by simp) (by simp [TransactionRecord.fields]) r.are_plain_fields
      rw [ofJson?, htagged]
      simp [r.of_json_fields]
  | placeholder p =>
      have htagged : Json.tagged "type" ["data", "transaction", "placeholder"] false
          (toJson (.placeholder p)) = some ("placeholder", .object [("position", p.toJson)]) :=
        Json.tagged_cons (by simp) (by simp) ⟨p.is_plain_to_json, trivial⟩
      rw [ofJson?, htagged]
      simp [Json.members, Json.memberOf, Json.valuesOf]

end Record

end ChangeFeed
