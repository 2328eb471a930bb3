import ChangeFeed.Proofs.Record.Typing
import ChangeFeed.Proofs.Schema.Lookup

/-!
# Tables that are followed

A job gives one list of tables to its converter and to the look-up of its schema. Read
`Converter.AgreesOn` first: when the list means the same to both. `Converter.tracks_loaded` says
that a row is followed exactly if its table was asked for where the two agree, that its definition
is then known, and that it is missing where they do not.
-/

namespace ChangeFeed

/-- The name of a table in a schema that has a name. -/
theorem Row.qualified_name_eq {row : Row} (h : row.schema ≠ "") :
    row.qualifiedName = row.schema ++ "." ++ row.table := by
  have hne : row.schema.isEmpty = false := by
    rw [← Bool.not_eq_true, String.isEmpty_iff]
    exact h
  simp [Row.qualifiedName, ChangeFeed.qualifiedName, hne]

namespace Converter

variable {c : Converter} {row : Row} {schema : String} {tables : List String}

/-- A row is followed by no name at all, by the name of its table, or by the qualified one. -/
theorem is_tracked_iff :
    c.isTracked row = true ↔
      c.tables = [] ∨ row.table ∈ c.tables ∨ row.qualifiedName ∈ c.tables := by
  simp [isTracked, or_assoc]

/-- A row whose table has a definition fails for its columns only. -/
theorem convert_row_of_defined {definition : TableDefinition}
    (hdefinition : c.definition? row = some definition) (table : String) :
    c.convertRow row ≠ .error (.metadataUnavailable table none) := by
  intro h
  have hdefines := definition_eq_some_iff.mp hdefinition
  obtain ⟨front, raw, back, -, -, hfails⟩ := (convert_row_fails_iff hdefines).mp h
  cases hfails

/-- Whether a list of tables means the same to a converter and to a look-up in `schema`. The
converter does not know that schema, so a row of another one must not be named, neither by no name
at all nor by the bare name of its table. In a schema with a point in its name, tables have to be
named without it. -/
def AgreesOn (schema : String) (tables : List String) (row : Row) : Prop :=
  if row.schema = schema then
    '.' ∈ schema.toList → row.qualifiedName ∈ tables → row.table ∈ tables
  else tables ≠ [] ∧ row.table ∉ tables ∧ row.qualifiedName ∉ tables

/-- Converter and look-up take the same rows exactly where the list means the same to both. -/
theorem agrees_on_iff (hschema : row.schema ≠ "") (htables : c.tables = tables) :
    (c.isTracked row = true ↔ row.schema = schema ∧
      Schema.isWanted tables schema row.table = true) ↔ AgreesOn schema tables row := by
  rw [is_tracked_iff, htables, Schema.is_wanted_iff, AgreesOn]
  by_cases heq : row.schema = schema
  · rw [if_pos heq, ← heq, ← Row.qualified_name_eq hschema]
    by_cases hpoint : '.' ∈ row.schema.toList
    · by_cases hnamed : row.qualifiedName ∈ tables
      · have hne : tables ≠ [] := List.ne_nil_of_mem hnamed
        simp [hpoint, hnamed, hne]
      · simp [hpoint, hnamed]
    · simp [hpoint]
  · rw [if_neg heq]
    simp [heq, not_or]

variable {σ : Type} {server : Server σ} {world : σ} {loaded : Schema}

/-- A table that is listed and asked for has a definition. -/
theorem defined_of_listed (hload : (Schema.load server schema tables world).1 = .ok loaded)
    (hschema : row.schema ≠ "") (heq : row.schema = schema)
    (hlisted : Schema.Lists server world schema row.table)
    (hwanted : Schema.isWanted tables schema row.table = true) :
    ∃ definition, (⟨loaded, tables⟩ : Converter).definition? row = some definition := by
  have hmem : row.qualifiedName ∈ loaded.tableNames := by
    rw [Schema.mem_table_names_of_load hload, Row.qualified_name_eq hschema, heq]
    exact ⟨row.table, rfl, hlisted, hwanted⟩
  obtain ⟨definition, hdefinition⟩ :=
    Option.isSome_iff_exists.mp (Schema.table_isSome_iff.mpr hmem)
  exact ⟨definition, by simp [definition?, hdefinition]⟩

/-- A table of another schema has no definition, unless points in names make it look like one of
the schema that was looked up. -/
theorem undefined_of_other_schema
    (hload : (Schema.load server schema tables world).1 = .ok loaded)
    (hschema : row.schema ≠ "") (hne : row.schema ≠ schema)
    (hpoint : '.' ∉ row.schema.toList) (htable : '.' ∉ row.table.toList) :
    (⟨loaded, tables⟩ : Converter).definition? row = none := by
  have hnone (name : String) (h : ∀ t, name ≠ schema ++ "." ++ t) : loaded.table? name = none := by
    rw [← Option.not_isSome_iff_eq_none, Schema.table_isSome_iff,
      Schema.mem_table_names_of_load hload]
    rintro ⟨t, heq, -⟩
    exact h t heq
  have hqualified : ∀ t, row.qualifiedName ≠ schema ++ "." ++ t := by
    intro t heq
    have hchars := congrArg String.toList heq
    rw [Row.qualified_name_eq hschema, to_list_qualified, to_list_qualified] at hchars
    -- One point on the left leaves none for the name of the schema.
    have hcount := congrArg (List.count '.') hchars
    have hother : '.' ∉ schema.toList := by
      rw [← List.count_eq_zero] at hpoint htable ⊢
      simp only [List.count_append, List.count_cons_self, hpoint, htable] at hcount
      omega
    have hrow := Text.cut_at_eq_some_iff.mpr ⟨hchars, hother⟩
    rw [Text.cut_at_eq_some_iff.mpr ⟨rfl, hpoint⟩] at hrow
    exact hne (String.toList_inj.mp (Prod.mk.inj (Option.some.inj hrow)).1)
  have hbare : ∀ t, row.table ≠ schema ++ "." ++ t := by
    intro t heq
    rw [heq, to_list_qualified] at htable
    exact htable (by simp)
  simp [definition?, hnone _ hqualified, hnone _ hbare]

/-- One list of tables, for a converter and for the look-up in a schema that a server answered.
Rows are followed exactly if their table was asked for where the list means the same to both. There,
no row of a listed table fails for the lack of its definition; elsewhere, every row does whose
schema and table have no points in their names. -/
theorem tracks_loaded {σ : Type} (server : Server σ) (world : σ) (schema : String)
    (tables : List String) (loaded : Schema) (row : Row)
    (hload : (Schema.load server schema tables world).1 = .ok loaded) (hschema : row.schema ≠ "") :
    (((⟨loaded, tables⟩ : Converter).isTracked row = true ↔
      row.schema = schema ∧ Schema.isWanted tables schema row.table = true) ↔
        AgreesOn schema tables row) ∧
    (AgreesOn schema tables row →
      (row.schema = schema → Schema.Lists server world schema row.table) →
      ∀ table, (⟨loaded, tables⟩ : Converter).convert (.row row) ≠
        .error (.metadataUnavailable table none)) ∧
    (¬ AgreesOn schema tables row → '.' ∉ row.schema.toList → '.' ∉ row.table.toList →
      (⟨loaded, tables⟩ : Converter).convert (.row row) =
        .error (.metadataUnavailable row.qualifiedName none)) := by
  have hagrees : ((⟨loaded, tables⟩ : Converter).isTracked row = true ↔
      row.schema = schema ∧ Schema.isWanted tables schema row.table = true) ↔
        AgreesOn schema tables row := agrees_on_iff hschema rfl
  refine ⟨hagrees, ?_, ?_⟩
  · intro hagree hlisted table
    rw [convert]
    split
    · rename_i htracked
      obtain ⟨heq, hwanted⟩ := (hagrees.mpr hagree).mp htracked
      obtain ⟨definition, hdefinition⟩ :=
        defined_of_listed hload hschema heq (hlisted heq) hwanted
      have hrow := convert_row_of_defined hdefinition table
      cases hconvert : (⟨loaded, tables⟩ : Converter).convertRow row with
      | ok record => simp [Except.map]
      | error fault => simpa [Except.map, hconvert] using hrow
    · simp
  · intro hdiffer hpoint htable
    have hother : row.schema ≠ schema := by
      intro heq
      rw [AgreesOn, if_pos heq] at hdiffer
      exact hdiffer fun hmem => absurd (heq ▸ hmem) hpoint
    have htracked : (⟨loaded, tables⟩ : Converter).isTracked row = true := by
      by_contra hnot
      exact hdiffer (hagrees.mp ⟨fun h => absurd h hnot, fun h => absurd h.1 hother⟩)
    rw [convert, if_pos htracked, convertRow,
      undefined_of_other_schema hload hschema hother hpoint htable]
    rfl

/-! ### Orders -/

/-- A server that lists one table of orders, in the schema `public`. -/
def orderServer : Server Unit := fun statement world =>
  match statement with
  | .listColumns "public" =>
    (.rows [[.text "t_order", .text "id", .text "integer", .text "int4", .text "NO", .null, .null,
      .null]], world)
  | _ => (.rows [], world)

/-- What is looked up on that server. -/
def orderSchema : Schema :=
  ⟨[⟨"public.t_order", [⟨"id", ColumnType.ofName "integer", false⟩], []⟩]⟩

/-- An order that is put into a table of a schema. -/
def orderIn (schema : String) : Row :=
  ⟨⟨66⟩, .insert, schema, "t_order", [⟨"id", "integer", .text "1"⟩], [], none, none⟩

/-- The look-up of orders. -/
theorem load_orders : (Schema.load orderServer "public" ["t_order"] ()).1 = .ok orderSchema :=
  rfl

/-- An order of the schema that was looked up is followed, and its table is defined. -/
theorem tracks_loaded_order :
    (Schema.load orderServer "public" ["t_order"] ()).1 = .ok orderSchema ∧
      (orderIn "public").schema ≠ "" ∧
      (⟨orderSchema, ["t_order"]⟩ : Converter).isTracked (orderIn "public") = true ∧
      ∀ table, (⟨orderSchema, ["t_order"]⟩ : Converter).convert (.row (orderIn "public")) ≠
        .error (.metadataUnavailable table none) := by
  have hagree : AgreesOn "public" ["t_order"] (orderIn "public") := by
    simp [AgreesOn, orderIn]
  have hlisted : Schema.Lists orderServer () "public" "t_order" :=
    ⟨_, rfl, _, List.mem_singleton_self _, rfl⟩
  obtain ⟨htracked, hdefined, -⟩ := tracks_loaded orderServer () "public" ["t_order"] orderSchema
    (orderIn "public") load_orders (by decide)
  exact ⟨load_orders, by decide, (htracked.mpr hagree).mpr ⟨rfl, by decide⟩,
    hdefined hagree fun _ => hlisted⟩

/-- An order of another schema is followed, although its table was not looked up, and ends the
feed. -/
theorem follows_other_schema :
    (Schema.load orderServer "public" ["t_order"] ()).1 = .ok orderSchema ∧
      (orderIn "sales").schema ≠ "public" ∧
      (⟨orderSchema, ["t_order"]⟩ : Converter).isTracked (orderIn "sales") = true ∧
      (⟨orderSchema, ["t_order"]⟩ : Converter).convert (.row (orderIn "sales")) =
        .error (.metadataUnavailable "sales.t_order" none) :=
  ⟨load_orders, by decide, by decide, rfl⟩

end Converter

end ChangeFeed
