import ChangeFeed.Proofs.Json.Real
import ChangeFeed.Proofs.Json.RoundTrip
import ChangeFeed.Proofs.Value.Document
import ChangeFeed.Proofs.Value.Typing

/-!
# Floating-point values in documents

Different finite numbers are written as different documents, and each document is read as a number
of the same kind. What is no finite number is written as a number that is missing: infinities and
what is not a number are all written alike, and the document is not read as a value.
`Value.apart_and_read_iff` says both for any two literals of a kind of floating-point numbers.
-/

namespace ChangeFeed.Value

open Json (Spells renderChars)
open Number (Binary Format)

/-- A floating-point number, if the value is one, is finite. -/
def IsFinite : Value → Prop
  | .float32 x => x.isFinite = true
  | .float64 x => x.isFinite = true
  | _ => True

variable {kind : String} {content value : Json}

/-! ## Documents of a kind -/

/-- The document of a kind is the text of its content between two texts that depend on the kind
only. -/
theorem render_kind_with (kind : String) :
    ∃ front, ∀ content, (kindWith kind content).render =
      String.ofList (front ++ (renderChars content ++ ['\x7d'])) := by
  refine ⟨'\x7b' :: (Json.quotedText "kind" ++ ':' :: Json.quotedText kind ++ ',' ::
    (Json.quotedText "value" ++ [':'])), fun content => ?_⟩
  simp [Json.render, kindWith, Json.renderChars, Json.renderFields, Json.separated, Json.renderLeaf]

/-- Two documents of a kind are written alike if and only if their contents are. -/
theorem render_kind_with_eq_iff (kind : String) (content content' : Json) :
    (kindWith kind content).render = (kindWith kind content').render ↔
      renderChars content = renderChars content' := by
  obtain ⟨front, hfront⟩ := render_kind_with kind
  rw [hfront, hfront, String.ofList_inj, List.append_cancel_left_eq, List.append_cancel_right_eq]

/-- A document of a kind is read with what its content spells. -/
theorem read_kind_with (h : Spells 1 value (renderChars content)) :
    Json.read (kindWith kind content).render = some (kindWith kind value) := by
  apply Json.read_of_spells
  have hkind := Json.spells_pair "kind" Json.gap_nil (Json.spells_quoted_text 1 kind)
  have hvalue := Json.spells_pair "value" Json.gap_nil h
  exact Json.spells_object Json.gap_nil Json.gap_nil Json.gap_nil (by decide)
    (.cons hkind (.cons hvalue .nil)) (by simp)

/-- A document of a kind with content is read as a value of its content. -/
theorem read_back_kind_with (content : Json) {nested : Bool} (hkind : kind ∈ kinds)
    (hbare : kind ≠ "null" ∧ kind ≠ "unchanged") (h : Spells 1 value (renderChars content)) :
    (Json.read (kindWith kind content).render).bind (ofJson? nested) =
      ofContent (ofJsonWithin Json.depthLimit nested) kind nested value := by
  rw [read_kind_with h, Option.bind_some, ofJson?, of_json_kind_with hkind hbare]

/-! ## Numbers of 64 bits -/

/-- Numbers of 64 bits are written alike only if they are the same, or if neither is finite. -/
theorem render_real_eq_iff (x y : Binary Format.double) :
    (toJson (.float64 x)).render = (toJson (.float64 y)).render ↔
      x = y ∨ x.isFinite = false ∧ y.isFinite = false :=
  (render_kind_with_eq_iff "float64" (.real x) (.real y)).trans
    (Json.written_eq_iff Json.doubleLayout (by decide) Format.double_in_range (by decide) x y)

/-- A document of a number of 64 bits is read as one if and only if the number is finite. -/
theorem read_back_real_iff (x : Binary Format.double) (nested : Bool) :
    (∃ z, (Json.read (toJson (.float64 x)).render).bind (ofJson? nested) = some z ∧
      z.HasType .float64) ↔ x.isFinite = true := by
  obtain ⟨content, hspells, hcontent⟩ := Json.spells_real_or_null Json.doubleLayout (by decide)
    Format.double_in_range (by decide) (fun _ h => Json.written_value_double_le h) x 1
  have hread : (Json.read (toJson (.float64 x)).render).bind (ofJson? nested) =
      content.toReal?.map .float64 :=
    read_back_kind_with (.real x) (by simp [kinds]) (by simp) hspells
  rw [hread]
  rcases hcontent with ⟨hfinite, y, rfl⟩ | ⟨hinfinite, rfl⟩
  · exact iff_of_true ⟨.float64 y, rfl, .float64 y⟩ hfinite
  · simp [hinfinite, Json.toReal?]

/-! ## Numbers of 32 bits -/

/-- Numbers of 32 bits are written alike only if they are the same, or if neither is finite. -/
theorem render_single_eq_iff (x y : Binary Format.single) :
    (toJson (.float32 x)).render = (toJson (.float32 y)).render ↔
      x = y ∨ x.isFinite = false ∧ y.isFinite = false :=
  (render_kind_with_eq_iff "float32" (.single x) (.single y)).trans
    (Json.written_eq_iff Json.singleLayout (by decide) Format.single_in_range (by decide) x y)

/-- A document of a number of 32 bits is read as one if and only if the number is finite. -/
theorem read_back_single_iff (x : Binary Format.single) (nested : Bool) :
    (∃ z, (Json.read (toJson (.float32 x)).render).bind (ofJson? nested) = some z ∧
      z.HasType .float32) ↔ x.isFinite = true := by
  obtain ⟨content, hspells, hcontent⟩ := Json.spells_real_or_null Json.singleLayout (by decide)
    Format.single_in_range (by decide) (fun _ h => Json.written_value_single_le h) x 1
  have hread : (Json.read (toJson (.float32 x)).render).bind (ofJson? nested) =
      (singleOf content).map .float32 :=
    read_back_kind_with (.single x) (by simp [kinds]) (by simp) hspells
  rw [hread]
  rcases hcontent with ⟨hfinite, y, rfl⟩ | ⟨hinfinite, rfl⟩
  · exact iff_of_true ⟨.float32 (y.convert Format.single), rfl, .float32 _⟩ hfinite
  · simp [hinfinite, singleOf]

/-! ## Literals -/

variable {t : ColumnType} {literal other : String} {x y : Value}

/-- Two literals of a kind of floating-point numbers are written as different documents exactly if
their values are different and not both infinite or no numbers. A document is read as a value of the
kind exactly if the value is finite. -/
theorem apart_and_read_iff (ht : t = .float32 ∨ t = .float64) (hx : ofLiteral t literal = .ok x)
    (hy : ofLiteral t other = .ok y) (nested : Bool) :
    (x.toJson.render ≠ y.toJson.render ↔ x ≠ y ∧ (x.IsFinite ∨ y.IsFinite)) ∧
      ((∃ z, (Json.read x.toJson.render).bind (ofJson? nested) = some z ∧ z.HasType t) ↔
        x.IsFinite) := by
  rcases ht with rfl | rfl
  · obtain ⟨x, -, rfl⟩ := of_literal_single.mp hx
    obtain ⟨y, -, rfl⟩ := of_literal_single.mp hy
    refine ⟨?_, read_back_single_iff _ nested⟩
    rw [ne_eq, render_single_eq_iff, not_or, not_and_or]
    simp [IsFinite]
  · obtain ⟨x, -, rfl⟩ := of_literal_real.mp hx
    obtain ⟨y, -, rfl⟩ := of_literal_real.mp hy
    refine ⟨?_, read_back_real_iff _ nested⟩
    rw [ne_eq, render_real_eq_iff, not_or, not_and_or]
    simp [IsFinite]

/-- The digits of two neighbours among the numbers of 64 bits are written differently. -/
theorem apart_and_read_iff_neighbours :
    ofLiteral .float64 "1e23" = .ok (.float64 (.signed false 0x44B52D02C7E14AF6 (by decide))) ∧
    ofLiteral .float64 "1.0000000000000001e23" =
      .ok (.float64 (.signed false 0x44B52D02C7E14AF7 (by decide))) ∧
    (toJson (.float64 (.signed false 0x44B52D02C7E14AF6 (by decide)))).render ≠
      (toJson (.float64 (.signed false 0x44B52D02C7E14AF7 (by decide)))).render ∧
    ∃ z, (Json.read (toJson
        (.float64 (.signed false 0x44B52D02C7E14AF6 (by decide)))).render).bind (ofJson? false) =
          some z ∧ z.HasType .float64 := by
  have hfirst : ofLiteral .float64 "1e23" =
      .ok (.float64 (.signed false 0x44B52D02C7E14AF6 (by decide))) :=
    of_literal_real.mpr ⟨_, by decide +kernel, rfl⟩
  have hsecond : ofLiteral .float64 "1.0000000000000001e23" =
      .ok (.float64 (.signed false 0x44B52D02C7E14AF7 (by decide))) :=
    of_literal_real.mpr ⟨_, by decide +kernel, rfl⟩
  obtain ⟨hapart, hread⟩ := apart_and_read_iff (.inr rfl) hfirst hsecond false
  exact ⟨hfirst, hsecond, hapart.mpr ⟨by simp, .inl rfl⟩, hread.mpr rfl⟩

/-- Three different values are written alike, and what is written is read as no value. -/
theorem infinities_written_alike :
    ofLiteral .float64 "Infinity" = .ok (.float64 (Binary.infinite Format.double false)) ∧
    ofLiteral .float64 "-Infinity" = .ok (.float64 (Binary.infinite Format.double true)) ∧
    ofLiteral .float64 "NaN" = .ok (.float64 .nan) ∧
    [Binary.infinite Format.double false, Binary.infinite Format.double true, .nan].Nodup ∧
    (∀ x ∈ [Binary.infinite Format.double false, Binary.infinite Format.double true, .nan],
      (toJson (.float64 x)).render =
        "\x7b\"kind\":\"float64\",\"value\":null\x7d") ∧
    (Json.read "\x7b\"kind\":\"float64\",\"value\":null\x7d").bind (ofJson? false) = none := by
  have hall : ∀ x ∈ [Binary.infinite Format.double false, Binary.infinite Format.double true, .nan],
      (toJson (.float64 x)).render =
        "\x7b\"kind\":\"float64\",\"value\":null\x7d" := by
    decide +kernel
  refine ⟨of_literal_real.mpr ⟨_, by decide +kernel, rfl⟩,
    of_literal_real.mpr ⟨_, by decide +kernel, rfl⟩,
    of_literal_real.mpr ⟨_, by decide +kernel, rfl⟩, by decide, hall, ?_⟩
  rw [← hall .nan (by simp)]
  have hspells : Spells 1 .null (renderChars (.real .nan)) := .null
  exact read_back_kind_with (.real .nan) (by simp [kinds]) (by simp) hspells

end ChangeFeed.Value
