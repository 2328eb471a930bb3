import ChangeFeed.Proofs.Calendar.Stored
import ChangeFeed.Proofs.Json.Shape
import ChangeFeed.Proofs.Uuid
import ChangeFeed.Value.Document

/-!
# Values read back

A value that holds no floating-point number is the value of its document (`Value.of_json_to_json`),
as is every column type of its own (`ColumnType.of_json_to_json`). The readers count how many values
and types are nested; a document that is not nested too deeply has no more of them.
-/

namespace ChangeFeed

open Json (IsPlain ArePlain AreFieldsPlain height heightOfItems heightOfFields)

/-! ## Column types -/

namespace ColumnType

/-- A number of eight bits is read back from its document. -/
@[simp]
theorem byte_of_integer (n : UInt8) : byteOf (.integer n.toNat) = some n := by
  have hlt : (n.toNat : Int) < 256 := Int.ofNat_lt.mpr n.toNat_lt
  simp [byteOf, Json.toNatBelow?, hlt]

/-- A number of sixteen bits is read back from its document. -/
@[simp]
theorem length_of_integer (n : UInt16) : lengthOf (.integer n.toNat) = some n := by
  have hlt : (n.toNat : Int) < 65536 := Int.ofNat_lt.mpr n.toNat_lt
  simp [lengthOf, Json.toNatBelow?, hlt]

/-- A type is a plain document. -/
theorem is_plain_to_json (t : ColumnType) : t.toJson.IsPlain := by
  induction t with
  | decimal precision scale =>
      have hprecision := Json.is_whole_of_lt (precision.toNat_lt.trans (by decide))
      have hscale := Json.is_whole_of_lt (scale.toNat_lt.trans (by decide))
      simp [toJson, IsPlain, AreFieldsPlain, hprecision, hscale]
  | char length | varChar length =>
      have hlength := Json.is_whole_of_lt (length.toNat_lt.trans (by decide))
      simp [toJson, IsPlain, AreFieldsPlain, hlength]
  | array element ih => simpa [toJson, IsPlain, AreFieldsPlain] using ih
  | _ => simp [toJson, IsPlain, AreFieldsPlain]

section Reading

variable {document : Json} {nested : Bool} {fuel : Nat}

/-- A type without fields is read from its name. -/
theorem of_json_plain {t : ColumnType} (hplain : t.toJson = .object [("type", .text t.tag)])
    (h : Json.tagged "type" tags nested document = some (t.tag, .object [])) :
    ofJsonWithin (fuel + 1) nested document = some t := by
  rw [ofJsonWithin, h]
  cases t with
  | decimal | char | varChar | array => simp [toJson] at hplain
  | _ => rfl

/-- A decimal type is read from its precision and its scale. -/
theorem of_json_decimal {field field' : Json} {precision scale : UInt8}
    (h : Json.tagged "type" tags nested document =
      some ("decimal", .object [("precision", field), ("scale", field')]))
    (hprecision : byteOf field = some precision) (hscale : byteOf field' = some scale) :
    ofJsonWithin (fuel + 1) nested document = some (.decimal precision scale) := by
  have hmembers : Json.members [("precision", .required), ("scale", .required)]
      (.object [("precision", field), ("scale", field')]) = some [some field, some field'] :=
    Json.members_zip [field, field'] rfl (by simp)
  rw [ofJsonWithin, h, Option.bind_eq_bind, Option.bind_some]
  show (Json.members _ _ >>= _) = _
  rw [hmembers]
  simp [hprecision, hscale]

/-- A type of texts of or up to some length is read from that length. -/
theorem of_json_length {tag : String} {build : UInt16 → ColumnType} {field : Json}
    {length : UInt16}
    (hbuild : tag = "char" ∧ build = .char ∨ tag = "var_char" ∧ build = .varChar)
    (h : Json.tagged "type" tags nested document = some (tag, .object [("length", field)]))
    (hlength : lengthOf field = some length) :
    ofJsonWithin (fuel + 1) nested document = some (build length) := by
  have hmembers : Json.members [("length", .required)] (.object [("length", field)]) =
      some [some field] :=
    Json.members_zip [field] rfl (by simp)
  rw [ofJsonWithin, h, Option.bind_eq_bind, Option.bind_some]
  rcases hbuild with ⟨rfl, rfl⟩ | ⟨rfl, rfl⟩
  all_goals
    show (Json.members _ _ >>= _) = _
    rw [hmembers]
    simp [hlength]

/-- A type of arrays is read from the type of their elements. -/
theorem of_json_array {field : Json} {element : ColumnType}
    (h : Json.tagged "type" tags nested document =
      some ("array", .object [("element_type", field)]))
    (helement : ofJsonWithin fuel true field = some element) :
    ofJsonWithin (fuel + 1) nested document = some (.array element) := by
  have hmembers : Json.members [("element_type", .required)]
      (.object [("element_type", field)]) = some [some field] :=
    Json.members_zip [field] rfl (by simp)
  rw [ofJsonWithin, h, Option.bind_eq_bind, Option.bind_some]
  show (Json.members _ _ >>= _) = _
  rw [hmembers]
  simp [helement]

end Reading

/-- A type is that of its document, which may be nested less deeply than there is fuel. -/
theorem of_json_within (t : ColumnType) {fuel : Nat} (hfuel : t.toJson.height < fuel)
    (nested : Bool) : ofJsonWithin fuel nested t.toJson = some t := by
  have hname (t : ColumnType) : t.tag ∈ tags := by cases t <;> simp [tag, tags]
  induction t generalizing fuel nested with
  | array element ih =>
      obtain ⟨fuel, rfl⟩ : ∃ more, fuel = more + 1 := ⟨fuel - 1, by omega⟩
      have helement : element.toJson.height < fuel := by
        simp only [toJson, height, heightOfFields] at hfuel
        omega
      exact of_json_array (Json.tagged_cons (hname (.array element)) (by simp)
        (is_plain_to_json (.array element)).2) (ih helement true)
  | decimal precision scale =>
      obtain ⟨fuel, rfl⟩ : ∃ more, fuel = more + 1 := ⟨fuel - 1, by omega⟩
      exact of_json_decimal (Json.tagged_cons (hname (.decimal precision scale)) (by simp)
        (is_plain_to_json (.decimal precision scale)).2) (byte_of_integer precision)
        (byte_of_integer scale)
  | char length =>
      obtain ⟨fuel, rfl⟩ : ∃ more, fuel = more + 1 := ⟨fuel - 1, by omega⟩
      exact of_json_length (.inl ⟨rfl, rfl⟩) (Json.tagged_cons (hname (.char length)) (by simp)
        (is_plain_to_json (.char length)).2) (length_of_integer length)
  | varChar length =>
      obtain ⟨fuel, rfl⟩ : ∃ more, fuel = more + 1 := ⟨fuel - 1, by omega⟩
      exact of_json_length (.inr ⟨rfl, rfl⟩) (Json.tagged_cons (hname (.varChar length)) (by simp)
        (is_plain_to_json (.varChar length)).2) (length_of_integer length)
  | _ =>
      obtain ⟨fuel, rfl⟩ : ∃ more, fuel = more + 1 := ⟨fuel - 1, by omega⟩
      exact of_json_plain rfl (Json.tagged_cons (hname _) nofun trivial)

/-- A type is read back from its document. -/
theorem of_json_to_json (t : ColumnType) (h : t.toJson.height ≤ Json.depthLimit)
    (nested : Bool) : ofJson? nested t.toJson = some t :=
  t.of_json_within (Nat.lt_succ_of_le h) nested

end ColumnType

namespace Value

/-! ## Values without floating-point numbers -/

mutual

/-- Whether a value holds no floating-point number, be it one of its own or one in a document. A
document is in the form in which documents are kept. -/
def IsExact : Value → Prop
  | .float32 _ | .float64 _ => False
  | .json document | .jsonb document => document.IsPlain ∧ document.canonical? = some document
  | .array elements _ => AreExact elements
  | _ => True

/-- Whether no value holds a floating-point number. -/
def AreExact : List Value → Prop
  | [] => True
  | value :: rest => IsExact value ∧ AreExact rest

end

mutual

/-- A value without floating-point numbers is a plain document. -/
theorem is_plain_to_json : (value : Value) → value.IsExact → value.toJson.IsPlain
  | .int16 n, _ => by
    have hn : Json.IsWhole n.toInt :=
      Json.is_whole_of_bounds (by have := n.le_toInt; omega) (by have := n.toInt_lt; omega)
    simp [toJson, kindWith, IsPlain, AreFieldsPlain, hn]
  | .int32 n, _ => by
    have hn : Json.IsWhole n.toInt :=
      Json.is_whole_of_bounds (by have := n.le_toInt; omega) (by have := n.toInt_lt; omega)
    simp [toJson, kindWith, IsPlain, AreFieldsPlain, hn]
  | .int64 n, _ => by
    have hn : Json.IsWhole n.toInt :=
      Json.is_whole_of_bounds (by have := n.le_toInt; omega) (by have := n.toInt_lt; omega)
    simp [toJson, kindWith, IsPlain, AreFieldsPlain, hn]
  | .decimal _ precision scale, _ => by
    have hprecision := Json.is_whole_of_lt (precision.toNat_lt.trans (by decide))
    have hscale := Json.is_whole_of_lt (scale.toNat_lt.trans (by decide))
    simp [toJson, kindWith, IsPlain, AreFieldsPlain, hprecision, hscale]
  | .char _ length, _ | .varChar _ length, _ => by
    have hlength := Json.is_whole_of_lt (length.toNat_lt.trans (by decide))
    simp [toJson, kindWith, IsPlain, AreFieldsPlain, hlength]
  | .bytes content, _ => by
    have hbytes : ArePlain (content.map fun byte => .integer byte.toNat) := by
      refine Json.are_plain_of_forall fun item hitem => ?_
      obtain ⟨byte, -, rfl⟩ := List.mem_map.mp hitem
      exact Json.is_whole_of_lt (byte.toNat_lt.trans (by decide))
    simpa [toJson, kindWith, IsPlain, AreFieldsPlain] using hbytes
  | .json document, h | .jsonb document, h => by
    have hplain := h.1
    simp [toJson, kindWith, IsPlain, AreFieldsPlain, hplain]
  | .array elements element, h => by
    have helements := are_plain_to_json elements h
    have helement := element.is_plain_to_json
    simp [toJson, kindWith, IsPlain, AreFieldsPlain, helements, helement]
  | .null, _ | .bool _, _ | .text _, _ | .date _, _ | .time _, _ | .localDateTime _, _
  | .zonedDateTime _, _ | .uuid _, _ | .unchanged, _ => by
    simp [toJson, kindWith, bareKind, IsPlain, AreFieldsPlain]

/-- Values without floating-point numbers are plain documents. -/
theorem are_plain_to_json :
    (values : List Value) → AreExact values → ArePlain (toJsonList values)
  | [], _ => trivial
  | value :: rest, h => ⟨is_plain_to_json value h.1, are_plain_to_json rest h.2⟩

end

/-! ## The contents of the kinds -/

/-- An integer within bounds is read. -/
theorem integer_of_bounds {lowest highest n : Int} (hlow : lowest ≤ n) (hhigh : n ≤ highest) :
    (Json.integer n).toInteger? lowest highest = some n :=
  if_pos ⟨hlow, hhigh⟩

/-- A text that is read further is read back. -/
theorem textual_of_read {α : Type} {read : List Char → Option α} {text : String} {value : α}
    (h : read text.toList = some value) : textual read (.text text) = some value :=
  h

section Reading

variable {document content : Json} {nested : Bool} {fuel : Nat} {kind : String}

/-- A kind without content is read from its name. -/
theorem of_json_bare {value : Value}
    (h : (kind = "null" ∧ value = .null) ∨ (kind = "unchanged" ∧ value = .unchanged)) :
    ofJsonWithin (fuel + 1) nested (bareKind kind) = some value := by
  rcases h with ⟨rfl, rfl⟩ | ⟨rfl, rfl⟩
  all_goals
    rw [ofJsonWithin, bareKind, Json.labelled_bare (by simp [kinds]) (by simp)]
    rfl

/-- A kind with content is read from that content. -/
theorem of_json_kind_with (hkind : kind ∈ kinds) (hbare : kind ≠ "null" ∧ kind ≠ "unchanged") :
    ofJsonWithin (fuel + 1) nested (kindWith kind content) =
      ofContent (ofJsonWithin fuel nested) kind nested content := by
  rw [ofJsonWithin, kindWith, Json.labelled_with hkind (by simp)]
  simp [hbare]

variable {element : Json → Option Value} {field field' : Json}

/-- The content of an integer of sixteen bits. -/
theorem content_int16 (n : Int16) :
    ofContent element "int16" nested (.integer n.toInt) = some (.int16 n) := by
  show (Json.toInteger? (-2 ^ 15) (2 ^ 15 - 1) (.integer n.toInt)).map _ = _
  rw [integer_of_bounds n.le_toInt (Int.le_sub_one_of_lt n.toInt_lt), Option.map_some,
    Int16.ofInt_toInt]

/-- The content of an integer of 32 bits. -/
theorem content_int32 (n : Int32) :
    ofContent element "int32" nested (.integer n.toInt) = some (.int32 n) := by
  show (Json.toInteger? (-2 ^ 31) (2 ^ 31 - 1) (.integer n.toInt)).map _ = _
  rw [integer_of_bounds n.le_toInt (Int.le_sub_one_of_lt n.toInt_lt), Option.map_some,
    Int32.ofInt_toInt]

/-- The content of an integer of 64 bits. -/
theorem content_int64 (n : Int64) :
    ofContent element "int64" nested (.integer n.toInt) = some (.int64 n) := by
  show (Json.toInteger? (-2 ^ 63) (2 ^ 63 - 1) (.integer n.toInt)).map _ = _
  rw [integer_of_bounds n.le_toInt (Int.le_sub_one_of_lt n.toInt_lt), Option.map_some,
    Int64.ofInt_toInt]

/-- The content of bytes. -/
theorem content_bytes (bytes : List UInt8) :
    ofContent element "bytes" nested (.list (bytes.map fun byte => .integer byte.toNat)) =
      some (.bytes bytes) := by
  show (Json.toListOf? ColumnType.byteOf (.list _)).map Value.bytes = _
  rw [Json.list_of_map fun byte _ => ColumnType.byte_of_integer byte]
  rfl

/-- The content of a date. -/
theorem content_date (d : Calendar.Date) :
    ofContent element "date" nested (.text d.write) = some (.date d) := by
  show (textual Calendar.readStoredDate (.text d.write)).map Value.date = _
  rw [textual_of_read (Calendar.read_stored_date_write d)]
  rfl

/-- The content of a time of day. -/
theorem content_time (t : Calendar.TimeOfDay) :
    ofContent element "time" nested (.text t.write) = some (.time t) := by
  show (textual Calendar.readStoredTime (.text t.write)).map Value.time = _
  rw [textual_of_read (Calendar.read_stored_time_write t)]
  rfl

/-- The content of a local date-time. -/
theorem content_local_date_time (l : Calendar.LocalDateTime) :
    ofContent element "local_date_time" nested (.text l.write) = some (.localDateTime l) := by
  show (textual Calendar.readStoredDateTime (.text l.write)).map Value.localDateTime = _
  rw [textual_of_read (Calendar.read_stored_date_time_write l)]
  rfl

/-- The content of a moment. -/
theorem content_zoned_date_time (i : Calendar.Instant) :
    ofContent element "zoned_date_time" nested (.text i.write) = some (.zonedDateTime i) := by
  show (textual Calendar.readStoredInstant (.text i.write)).map Value.zonedDateTime = _
  rw [textual_of_read (Calendar.read_stored_instant_write i)]
  rfl

/-- The content of an identifier. -/
theorem content_uuid (u : Uuid) :
    ofContent element "uuid" nested (.text u.write) = some (.uuid u) := by
  show (textual Uuid.read (.text u.write)).map Value.uuid = _
  rw [textual_of_read u.read_write]
  rfl

/-- The content of a document of either kind. -/
theorem content_json (h : content.canonical? = some content) :
    ofContent element "json" nested content = some (.json content) ∧
      ofContent element "jsonb" nested content = some (.jsonb content) := by
  constructor <;> (show content.canonical?.map _ = _; rw [h]; rfl)

/-- The members of a content that has all its fields in order, and no others. -/
theorem content_members_zip {names : List String} (values : List Json)
    (hlength : names.length = values.length) (hnodup : names.Nodup) :
    contentMembers names (.object (names.zip values)) = some (values.map some) := by
  have hshape : (names.map fun name => (name, Json.Presence.required)).map Prod.fst = names := by
    rw [List.map_map]
    exact List.map_id names
  have hmembers := Json.members_zip values (by simpa using hlength) (hshape.symm ▸ hnodup)
  rwa [hshape] at hmembers

/-- The content of a decimal number. -/
theorem content_decimal {value : String} {precision scale : UInt8}
    (hprecision : ColumnType.byteOf field = some precision)
    (hscale : ColumnType.byteOf field' = some scale) :
    ofContent element "decimal" nested
      (.object [("value", .text value), ("precision", field), ("scale", field')]) =
        some (.decimal value precision scale) := by
  have hmembers : contentMembers ["value", "precision", "scale"]
      (.object [("value", .text value), ("precision", field), ("scale", field')]) =
        some [some (.text value), some field, some field'] :=
    content_members_zip [.text value, field, field'] rfl (by decide)
  show (contentMembers _ _ >>= _) = _
  rw [hmembers]
  simp [Json.toText?, hprecision, hscale]

/-- The content of a text of or up to some length. -/
theorem content_length {tag : String} {build : String → UInt16 → Value} {value : String}
    {length : UInt16}
    (hbuild : tag = "char" ∧ build = .char ∨ tag = "var_char" ∧ build = .varChar)
    (hlength : ColumnType.lengthOf field = some length) :
    ofContent element tag nested (.object [("value", .text value), ("length", field)]) =
      some (build value length) := by
  have hmembers : contentMembers ["value", "length"]
      (.object [("value", .text value), ("length", field)]) =
        some [some (.text value), some field] :=
    content_members_zip [.text value, field] rfl (by decide)
  rcases hbuild with ⟨rfl, rfl⟩ | ⟨rfl, rfl⟩
  all_goals
    show (contentMembers _ _ >>= _) = _
    rw [hmembers]
    simp [Json.toText?, hlength]

/-- The content of an array. -/
theorem content_array {elements : List Value} {elementType : ColumnType}
    (helements : field.toListOf? element = some elements)
    (htype : ColumnType.ofJson? nested field' = some elementType) :
    ofContent element "array" nested
      (.object [("elements", field), ("element_type", field')]) =
        some (.array elements elementType) := by
  have hmembers : contentMembers ["elements", "element_type"]
      (.object [("elements", field), ("element_type", field')]) =
        some [some field, some field'] :=
    content_members_zip [field, field'] rfl (by decide)
  show (contentMembers _ _ >>= _) = _
  rw [hmembers]
  simp [helements, htype]

end Reading

/-! ## Values read back -/

/-- A value without elements is that of its document. -/
theorem of_json_leaf {value : Value} (h : value.IsExact)
    (hleaf : ∀ elements element, value ≠ .array elements element) (fuel : Nat) (nested : Bool) :
    ofJsonWithin (fuel + 1) nested value.toJson = some value := by
  have hread {kind : String} {content : Json} (htext : value.toJson = kindWith kind content)
      (hkind : kind ∈ kinds.filter fun kind => kind ≠ "null" ∧ kind ≠ "unchanged")
      (hcontent : ofContent (ofJsonWithin fuel nested) kind nested content = some value) :
      ofJsonWithin (fuel + 1) nested value.toJson = some value := by
    obtain ⟨hkind, hbare⟩ := List.mem_filter.mp hkind
    rw [htext, of_json_kind_with hkind (by simpa using hbare), hcontent]
  cases value with
  | null => exact of_json_bare (.inl ⟨rfl, rfl⟩)
  | unchanged => exact of_json_bare (.inr ⟨rfl, rfl⟩)
  | bool value => exact hread rfl (by simp [kinds]) rfl
  | int16 n => exact hread rfl (by simp [kinds]) (content_int16 n)
  | int32 n => exact hread rfl (by simp [kinds]) (content_int32 n)
  | int64 n => exact hread rfl (by simp [kinds]) (content_int64 n)
  | float32 | float64 => exact absurd h id
  | decimal value precision scale =>
      exact hread rfl (by simp [kinds]) (content_decimal (ColumnType.byte_of_integer precision)
        (ColumnType.byte_of_integer scale))
  | char value length =>
      exact hread rfl (by simp [kinds])
        (content_length (.inl ⟨rfl, rfl⟩) (ColumnType.length_of_integer length))
  | varChar value length =>
      exact hread rfl (by simp [kinds])
        (content_length (.inr ⟨rfl, rfl⟩) (ColumnType.length_of_integer length))
  | text value => exact hread rfl (by simp [kinds]) rfl
  | bytes value => exact hread rfl (by simp [kinds]) (content_bytes value)
  | date value => exact hread rfl (by simp [kinds]) (content_date value)
  | time value => exact hread rfl (by simp [kinds]) (content_time value)
  | localDateTime value => exact hread rfl (by simp [kinds]) (content_local_date_time value)
  | zonedDateTime value => exact hread rfl (by simp [kinds]) (content_zoned_date_time value)
  | uuid value => exact hread rfl (by simp [kinds]) (content_uuid value)
  | json document => exact hread rfl (by simp [kinds]) (content_json h.2).1
  | jsonb document => exact hread rfl (by simp [kinds]) (content_json h.2).2
  | array elements element => exact absurd rfl (hleaf elements element)

mutual

/-- A value is that of its document, which may be nested less deeply than there is fuel. -/
theorem of_json_within : (value : Value) → value.IsExact → (fuel : Nat) → (nested : Bool) →
    value.toJson.height < fuel ∧ fuel ≤ Json.depthLimit + 1 →
    ofJsonWithin fuel nested value.toJson = some value
  | .array elements element, h, fuel + 1, nested, hfuel => by
    simp only [toJson, kindWith, height, heightOfFields] at hfuel
    have helements := of_json_within_all elements h fuel nested (by omega)
    have helement := element.of_json_to_json (by omega) nested
    rw [toJson, of_json_kind_with (by simp [kinds]) (by simp)]
    exact content_array helements helement
  | .null, h, fuel + 1, nested, _ | .unchanged, h, fuel + 1, nested, _
  | .bool _, h, fuel + 1, nested, _ | .int16 _, h, fuel + 1, nested, _
  | .int32 _, h, fuel + 1, nested, _ | .int64 _, h, fuel + 1, nested, _
  | .decimal .., h, fuel + 1, nested, _ | .char .., h, fuel + 1, nested, _
  | .varChar .., h, fuel + 1, nested, _ | .text _, h, fuel + 1, nested, _
  | .bytes _, h, fuel + 1, nested, _ | .date _, h, fuel + 1, nested, _
  | .time _, h, fuel + 1, nested, _ | .localDateTime _, h, fuel + 1, nested, _
  | .zonedDateTime _, h, fuel + 1, nested, _ | .uuid _, h, fuel + 1, nested, _
  | .json _, h, fuel + 1, nested, _ | .jsonb _, h, fuel + 1, nested, _ =>
    of_json_leaf h nofun fuel nested

/-- Values are those of their documents. -/
theorem of_json_within_all : (values : List Value) → AreExact values → (fuel : Nat) →
    (nested : Bool) → heightOfItems (toJsonList values) < fuel ∧ fuel ≤ Json.depthLimit + 1 →
    (Json.list (toJsonList values)).toListOf? (ofJsonWithin fuel nested) = some values
  | [], _, _, _, _ => rfl
  | value :: rest, h, fuel, nested, hfuel => by
    rw [toJsonList, heightOfItems] at hfuel
    have hvalue := of_json_within value h.1 fuel nested (by omega)
    have hrest := of_json_within_all rest h.2 fuel nested (by omega)
    rw [Json.toListOf?] at hrest
    simp [Json.toListOf?, toJsonList, hvalue, hrest]

end

/-- A value without floating-point numbers is read back from its document. -/
theorem of_json_to_json {value : Value} (h : value.IsExact)
    (hheight : value.toJson.height ≤ Json.depthLimit) (nested : Bool) :
    ofJson? nested value.toJson = some value :=
  of_json_within value h _ nested ⟨Nat.lt_succ_of_le hheight, le_refl _⟩

end Value

end ChangeFeed
