import ChangeFeed.Proofs.Json.RoundTrip

/-!
# Documents on one line

What is written for a plain document without spaces stands on one line: no control character, and so
no line break, is among its characters (`Json.is_line_render`). The texts of a document may hold any
characters; the control characters among them are escaped.
-/

namespace ChangeFeed.Json

/-- A text without control characters. -/
def IsLine (cs : List Char) : Prop :=
  ∀ c ∈ cs, 0x20 ≤ c.toNat

/-- Two lines make up a line. -/
theorem is_line_append {cs ds : List Char} (hcs : IsLine cs) (hds : IsLine ds) :
    IsLine (cs ++ ds) := by
  intro c hc
  rcases List.mem_append.mp hc with hc | hc
  · exact hcs c hc
  · exact hds c hc

/-- Lines with a separator between them make up a line. -/
theorem is_line_separated {separator : List Char} (hseparator : IsLine separator)
    {parts : List (List Char)} (h : ∀ part ∈ parts, IsLine part) :
    IsLine (separated separator parts) := by
  induction parts with
  | nil => exact nofun
  | cons part rest ih =>
      obtain ⟨hpart, hrest⟩ := List.forall_mem_cons.mp h
      cases rest with
      | nil => exact hpart
      | cons next rest =>
          rw [separated_cons_cons]
          exact is_line_append hpart (is_line_append hseparator (ih hrest))

/-- A written character holds no control character, even if it is one. -/
theorem is_line_escaped (c : Char) : IsLine (escaped c) := by
  unfold escaped
  split
  all_goals try (simp [IsLine]; done)
  split
  · rename_i hcontrol
    have hdigits : ∀ n < 0x20, 0x20 ≤ (Number.digitChar (n / 16)).toNat ∧
        0x20 ≤ (Number.digitChar (n % 16)).toNat := by decide
    simp [IsLine, hdigits c.toNat hcontrol]
  · rename_i hcontrol
    simpa [IsLine] using hcontrol

/-- A text between quotes stands on one line. -/
theorem is_line_quoted (text : String) : IsLine (quotedText text) := by
  refine is_line_append (List.forall_mem_cons.mpr ⟨by decide, fun c hc => ?_⟩) (by simp [IsLine])
  obtain ⟨d, -, hd⟩ := List.mem_flatMap.mp hc
  exact is_line_escaped d c hd

/-- An integer stands on one line. -/
theorem is_line_integer (value : Int) : IsLine (Number.decimalInt value).toList := by
  have hdigits (n : Nat) : IsLine (Number.digits 10 n) := by
    intro c hc
    obtain ⟨digit, hdigit, rfl⟩ := Number.mem_digits (by omega) hc
    have hdigits : ∀ digit < 10, 0x20 ≤ (Number.digitChar digit).toNat := by decide
    exact hdigits digit hdigit
  cases value with
  | ofNat n => simpa [Number.decimalInt, Number.decimal] using hdigits n
  | negSucc n =>
      rw [Number.decimalInt, String.toList_append]
      exact is_line_append (by simp [IsLine])
        (by simpa [Number.decimal] using hdigits (n + 1))

/-- A plain value without parts stands on one line. -/
theorem is_line_leaf {value : Json} (h : value.IsPlain) : IsLine (renderLeaf value) := by
  cases value with
  | bool value => cases value <;> simp [renderLeaf, IsLine]
  | integer value => exact is_line_integer value
  | text value => exact is_line_quoted value
  | real | single => exact absurd h id
  | _ => simp [renderLeaf, IsLine]

/-- Parts on one line in brackets stand on one line. -/
theorem is_line_brackets {opening closing : Char} (hopening : 0x20 ≤ opening.toNat)
    (hclosing : 0x20 ≤ closing.toNat) {parts : List (List Char)} (h : ∀ part ∈ parts, IsLine part) :
    IsLine (opening :: separated [','] parts ++ [closing]) :=
  is_line_append (List.forall_mem_cons.mpr ⟨hopening, is_line_separated (by simp [IsLine]) h⟩)
    (by simpa [IsLine] using hclosing)

mutual

/-- A plain document stands on one line. -/
theorem is_line_render : (value : Json) → value.IsPlain → IsLine (renderChars value)
  | .list items, h => is_line_brackets (by decide) (by decide) (is_line_items items h)
  | .object fields, h => is_line_brackets (by decide) (by decide) (is_line_fields fields h)
  | .null, h => is_line_leaf h
  | .bool _, h => is_line_leaf h
  | .integer _, h => is_line_leaf h
  | .text _, h => is_line_leaf h

/-- Plain items stand on one line each. -/
theorem is_line_items :
    (items : List Json) → ArePlain items → ∀ part ∈ renderItems items, IsLine part
  | [], _ => nofun
  | item :: rest, h =>
    List.forall_mem_cons.mpr ⟨is_line_render item h.1, is_line_items rest h.2⟩

/-- Plain fields stand on one line each. -/
theorem is_line_fields :
    (fields : List (String × Json)) → AreFieldsPlain fields →
      ∀ part ∈ renderFields fields, IsLine part
  | [], _ => nofun
  | (name, value) :: rest, h =>
    List.forall_mem_cons.mpr
      ⟨is_line_append (is_line_quoted name)
        (List.forall_mem_cons.mpr ⟨by decide, is_line_render value h.1⟩), is_line_fields rest h.2⟩

end

end ChangeFeed.Json
