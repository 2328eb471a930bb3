import ChangeFeed.Proofs.Except
import ChangeFeed.Value.Read

/-!
# Types of values

`Value.HasType` is what it means for a value to be of a column type, `Value.has_type_of_literal`
that a literal is read as a value of the type that is asked for.
-/

namespace ChangeFeed

namespace Value

open Number (Binary Format)

/-- A value is of a type. Elements of an array may be missing; all others are of the type of the
elements. Neither the missing value nor the one that was not sent is of any type, so no element is
one that was not sent. Texts and numbers are not measured against the length or the precision of
their type: the database that sends them has done so. -/
inductive HasType : Value → ColumnType → Prop
  | bool (value : Bool) : HasType (.bool value) .bool
  | int16 (value : Int16) : HasType (.int16 value) .int16
  | int32 (value : Int32) : HasType (.int32 value) .int32
  | int64 (value : Int64) : HasType (.int64 value) .int64
  | float32 (value : Binary Format.single) : HasType (.float32 value) .float32
  | float64 (value : Binary Format.double) : HasType (.float64 value) .float64
  /-- The text that is kept is a number. -/
  | decimal {text : String} {number : Binary Format.double} (precision scale : UInt8)
      (hnumber : floatOf text = .ok number) :
      HasType (.decimal text precision scale) (.decimal precision scale)
  | char (text : String) (length : UInt16) : HasType (.char text length) (.char length)
  | varChar (text : String) (length : UInt16) : HasType (.varChar text length) (.varChar length)
  | text (text : String) : HasType (.text text) .text
  | bytes (octets : List UInt8) : HasType (.bytes octets) .bytes
  | date (value : Calendar.Date) : HasType (.date value) .date
  | time (value : Calendar.TimeOfDay) : HasType (.time value) .time
  | localDateTime (value : Calendar.LocalDateTime) : HasType (.localDateTime value) .localDateTime
  | zonedDateTime (value : Calendar.Instant) : HasType (.zonedDateTime value) .zonedDateTime
  | uuid (value : Uuid) : HasType (.uuid value) .uuid
  | json (document : Json) : HasType (.json document) .json
  | jsonb (document : Json) : HasType (.jsonb document) .jsonb
  | array {elements : List Value} {element : ColumnType}
      (h : ∀ v ∈ elements, v ≠ .null → HasType v element) :
      HasType (.array elements element) (.array element)

variable {t element : ColumnType} {literal : String} {value : Value}

/-- A literal of a type without elements is read as a value of the type. -/
theorem has_type_of_scalar (h : scalarOf t literal = .ok value) : value.HasType t := by
  cases t with
  | bool | int16 | int32 | int64 | float32 | float64 | bytes | date | time | localDateTime
  | zonedDateTime | uuid | json | jsonb =>
      obtain ⟨content, -, rfl⟩ := Except.map_eq_ok.mp h
      constructor
  | char | varChar | text =>
      obtain rfl := Except.ok.inj h
      constructor
  | decimal precision scale =>
      rw [scalarOf] at h
      split at h
      · rename_i number hnumber
        exact Except.ok.inj h ▸ .decimal precision scale hnumber
      · exact absurd h (by simp)
  | array element => exact absurd h (by simp [scalarOf])

/-- A literal of a type without elements is read by itself, and a fault names it. -/
theorem of_literal_scalar (type : ColumnType) (htype : ∀ element, type ≠ .array element)
    (literal : String) :
    ofLiteral type literal =
      (scalarOf type literal).mapError fun fault => ⟨literal, type, fault⟩ := by
  rw [ofLiteral]
  exact htype

/-- A literal of an array is read part by part. -/
theorem of_literal_array (h : ofLiteral (.array element) literal = .ok value) :
    ∃ elements, value = .array elements element ∧
      ∀ v ∈ elements, v = .null ∨ ∃ part, ofLiteral element part = .ok v := by
  rw [ofLiteral] at h
  cases hparts : ArrayLiteral.read literal with
  | error fault => exact absurd (hparts ▸ h) (by simp)
  | ok parts =>
      rw [hparts] at h
      obtain ⟨elements, helements, h⟩ := Except.bind_eq_ok.mp h
      refine ⟨elements, (Except.pure_eq_ok.mp h).symm, fun v hv => ?_⟩
      obtain ⟨part, -, hread⟩ := (Except.map_m_eq_ok_iff.mp helements).exists_of_mem_right hv
      cases part with
      | none => exact .inl (Except.ok.inj hread).symm
      | some text => exact .inr ⟨text, hread⟩

/-- A literal is read as a value of the type that is asked for. -/
theorem has_type_of_literal (h : ofLiteral t literal = .ok value) : value.HasType t := by
  induction t generalizing literal value with
  | array element ih =>
      obtain ⟨elements, rfl, helements⟩ := of_literal_array h
      refine .array fun v hv hnull => ?_
      rcases helements v hv with rfl | ⟨part, hread⟩
      · exact absurd rfl hnull
      · exact ih hread
  | _ =>
      rw [ofLiteral, Except.map_error_eq_ok] at h
      · exact has_type_of_scalar h
      · exact nofun

/-! ## Floating-point literals -/

/-- A floating-point number is what is read with 64 bits. -/
theorem float_of_eq_ok {x : Binary Format.double} :
    floatOf literal = .ok x ↔ Number.readBinary Format.double literal.toList = .ok x :=
  Except.map_error_eq_ok

/-- A literal of 32 bits is read with 64 bits and then converted. -/
theorem of_literal_single :
    ofLiteral .float32 literal = .ok value ↔
      ∃ x, Number.readBinary Format.double literal.toList = .ok x ∧
        value = .float32 (x.convert Format.single) := by
  rw [of_literal_scalar .float32 nofun, scalarOf, Except.map_error_eq_ok, Except.map_eq_ok]
  exact exists_congr fun x => and_congr float_of_eq_ok eq_comm

/-- A literal of 64 bits is read as it is. -/
theorem of_literal_real :
    ofLiteral .float64 literal = .ok value ↔
      ∃ x, Number.readBinary Format.double literal.toList = .ok x ∧ value = .float64 x := by
  rw [of_literal_scalar .float64 nofun, scalarOf, Except.map_error_eq_ok, Except.map_eq_ok]
  exact exists_congr fun x => and_congr float_of_eq_ok eq_comm

end Value

end ChangeFeed
