import ChangeFeed.Proofs.Number.Hex
import ChangeFeed.Proofs.Text.Cut
import ChangeFeed.Proofs.Uuid
import ChangeFeed.Proofs.Value.Typing

/-!
# Integers, bytes and identifiers as literals

The literals of these types are read exactly, with nothing wrapped or cut off: a text is accepted
exactly if it spells a value of the type, and that is the value that it is read as. Read
`exact_literals` first.
-/

namespace ChangeFeed

namespace Value

open Number (SpellsInteger SpellsBytes)

/-- A literal of a type is accepted exactly if it spells something, and is read as that. -/
def ReadsExactly {α : Type} (t : ColumnType) (spells : List Char → α → Prop) (value : α → Value) :
    Prop :=
  ∀ (literal : String) (v : Value), ofLiteral t literal = .ok v ↔
    ∃ x, spells literal.toList x ∧ v = value x

/-- The texts of bytes: two hexadecimal digits for each of them, behind a mark. -/
def SpellsMarkedBytes (cs : List Char) (bytes : List UInt8) : Prop :=
  ∃ ds, cs = '\\' :: 'x' :: ds ∧ SpellsBytes ds bytes

variable {literal : String} {v : Value}

/-! ## Integers -/

/-- An integer within bounds is read exactly from its texts. -/
theorem integer_of_iff {lowest highest : Nat} {n : Int} :
    integerOf lowest highest literal = .ok n ↔
      SpellsInteger literal.toList n ∧ -(lowest : Int) ≤ n ∧ n ≤ highest := by
  rw [integerOf, Except.map_error_eq_ok, Number.read_int_iff]

/-- An integer of a width is read exactly if the bounds are those of the width. -/
theorem integer_value_iff {α : Type} {lowest highest : Nat} {ofInt : Int → α} {toInt : α → Int}
    {value : α → Value}
    (hbounds : ∀ x, -(lowest : Int) ≤ toInt x ∧ toInt x ≤ highest)
    (hback : ∀ x, ofInt (toInt x) = x)
    (hfits : ∀ n, -(lowest : Int) ≤ n → n ≤ highest → toInt (ofInt n) = n) :
    ((integerOf lowest highest literal).map fun n => value (ofInt n)) = .ok v ↔
      ∃ x, SpellsInteger literal.toList (toInt x) ∧ v = value x := by
  simp only [Except.map_eq_ok, integer_of_iff]
  constructor
  · rintro ⟨n, ⟨hspells, hlow, hhigh⟩, rfl⟩
    exact ⟨ofInt n, (hfits n hlow hhigh).symm ▸ hspells, rfl⟩
  · rintro ⟨x, hspells, rfl⟩
    exact ⟨toInt x, ⟨hspells, hbounds x⟩, by rw [hback]⟩

/-- Integers of sixteen bits are read exactly. -/
theorem reads_int16 :
    ReadsExactly .int16 (fun cs (n : Int16) => SpellsInteger cs n.toInt) .int16 := by
  intro literal v
  rw [of_literal_scalar .int16 nofun, scalarOf, Except.map_error_eq_ok]
  exact integer_value_iff (fun n => ⟨n.le_toInt, Int.le_sub_one_of_lt n.toInt_lt⟩)
    Int16.ofInt_toInt fun _ hlow hhigh => Int16.toInt_ofInt_of_le hlow (Int.lt_of_le_sub_one hhigh)

/-- Integers of thirty-two bits are read exactly. -/
theorem reads_int32 :
    ReadsExactly .int32 (fun cs (n : Int32) => SpellsInteger cs n.toInt) .int32 := by
  intro literal v
  rw [of_literal_scalar .int32 nofun, scalarOf, Except.map_error_eq_ok]
  exact integer_value_iff (fun n => ⟨n.le_toInt, Int.le_sub_one_of_lt n.toInt_lt⟩)
    Int32.ofInt_toInt fun _ hlow hhigh => Int32.toInt_ofInt_of_le hlow (Int.lt_of_le_sub_one hhigh)

/-- Integers of sixty-four bits are read exactly. -/
theorem reads_int64 :
    ReadsExactly .int64 (fun cs (n : Int64) => SpellsInteger cs n.toInt) .int64 := by
  intro literal v
  rw [of_literal_scalar .int64 nofun, scalarOf, Except.map_error_eq_ok]
  exact integer_value_iff (fun n => ⟨n.le_toInt, Int.le_sub_one_of_lt n.toInt_lt⟩)
    Int64.ofInt_toInt fun _ hlow hhigh => Int64.toInt_ofInt_of_le hlow (Int.lt_of_le_sub_one hhigh)

/-! ## Bytes and identifiers -/

/-- Bytes are read exactly from pairs of digits behind the mark. -/
theorem bytes_of_iff {bytes : List UInt8} :
    bytesOf literal = .ok bytes ↔ SpellsMarkedBytes literal.toList bytes := by
  rw [bytesOf, SpellsMarkedBytes]
  cases hmark : Text.stripStart ['\\', 'x'] literal.toList with
  | none =>
      refine iff_of_false (by simp) ?_
      rintro ⟨ds, hcs, -⟩
      exact absurd (hmark.symm.trans (Text.strip_start_eq_some_iff.mpr hcs)) (by simp)
  | some digits =>
      have hcs : literal.toList = '\\' :: 'x' :: digits := Text.strip_start_eq_some_iff.mp hmark
      simp only [Except.map_error_eq_ok, Number.read_hex_iff, hcs, List.cons.injEq, true_and,
        exists_eq_left']

/-- Bytes are read exactly. -/
theorem reads_bytes : ReadsExactly .bytes SpellsMarkedBytes .bytes := by
  intro literal v
  rw [of_literal_scalar .bytes nofun, scalarOf, Except.map_error_eq_ok, Except.map_eq_ok]
  exact exists_congr fun bytes => and_congr bytes_of_iff eq_comm

/-- Identifiers are read exactly. -/
theorem reads_uuid : ReadsExactly .uuid Uuid.Spells .uuid := by
  intro literal v
  have hfound {u : Uuid} :
      found .uuid (Uuid.read literal.toList) = .ok u ↔ Uuid.Spells literal.toList u := by
    rw [← Uuid.read_iff]
    cases Uuid.read literal.toList <;> simp [found]
  rw [of_literal_scalar .uuid nofun, scalarOf, Except.map_error_eq_ok, Except.map_eq_ok]
  exact exists_congr fun u => and_congr hfound eq_comm

/-! ## Printed values -/

/-- What is printed for bytes spells them behind the mark. -/
theorem spells_marked_bytes (bytes : List UInt8) :
    SpellsMarkedBytes ("\\x" ++ String.ofList (Number.writeHex bytes)).toList bytes :=
  ⟨Number.writeHex bytes, by simp, Number.spells_write_hex bytes⟩

/-- A literal of an integer, of bytes or of an identifier is accepted exactly if it spells a value
of the type, and is read as that value: an integer within the bounds of its width, which an optional
sign and decimal digits are worth; bytes, with two hexadecimal digits for each behind the mark; an
identifier. What is printed for a value is among its literals, so it is read back. -/
theorem exact_literals :
    (ReadsExactly .int16 (fun cs (n : Int16) => SpellsInteger cs n.toInt) .int16 ∧
      ReadsExactly .int32 (fun cs (n : Int32) => SpellsInteger cs n.toInt) .int32 ∧
      ReadsExactly .int64 (fun cs (n : Int64) => SpellsInteger cs n.toInt) .int64 ∧
      ReadsExactly .bytes SpellsMarkedBytes .bytes ∧
      ReadsExactly .uuid Uuid.Spells .uuid) ∧
    (∀ n : Int16, ofLiteral .int16 (Number.decimalInt n.toInt) = .ok (.int16 n)) ∧
    (∀ n : Int32, ofLiteral .int32 (Number.decimalInt n.toInt) = .ok (.int32 n)) ∧
    (∀ n : Int64, ofLiteral .int64 (Number.decimalInt n.toInt) = .ok (.int64 n)) ∧
    (∀ bytes, ofLiteral .bytes ("\\x" ++ String.ofList (Number.writeHex bytes)) =
      .ok (.bytes bytes)) ∧
    ∀ u : Uuid, ofLiteral .uuid u.write = .ok (.uuid u) :=
  ⟨⟨reads_int16, reads_int32, reads_int64, reads_bytes, reads_uuid⟩,
    fun n => (reads_int16 _ _).mpr ⟨n, Number.spells_decimal_int _, rfl⟩,
    fun n => (reads_int32 _ _).mpr ⟨n, Number.spells_decimal_int _, rfl⟩,
    fun n => (reads_int64 _ _).mpr ⟨n, Number.spells_decimal_int _, rfl⟩,
    fun bytes => (reads_bytes _ _).mpr ⟨bytes, spells_marked_bytes bytes, rfl⟩,
    fun u => (reads_uuid _ _).mpr ⟨u, u.spells_write, rfl⟩⟩

end Value

end ChangeFeed
