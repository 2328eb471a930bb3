import ChangeFeed.Proofs.Except
import ChangeFeed.Proofs.Text.Cut
import ChangeFeed.Schema.Lookup

/-!
# Tables that are looked up

Which tables a look-up asks for (`is_wanted_iff`), and the names of the tables that it gives
(`mem_table_names_of_load`): those of the tables that the server lists and that are asked for.
-/

namespace ChangeFeed

/-- The characters of a name that is made of a schema and a table. -/
theorem to_list_qualified (schema table : String) :
    (schema ++ "." ++ table).toList = schema.toList ++ '.' :: table.toList := by
  simp

namespace Schema

variable {schema table : String} {tables : List String}

/-! ## Names that are asked for -/

/-- A name is cut into a schema and a table exactly if it is made of them and there is no point in
the schema. -/
theorem cut_name_iff {name : String} :
    Text.cutAt '.' name.toList = some (schema.toList, table.toList) ↔
      name = schema ++ "." ++ table ∧ '.' ∉ schema.toList := by
  rw [Text.cut_at_eq_some_iff, ← to_list_qualified, String.toList_inj]

/-- A table is asked for by no name at all, by its own, or by its own behind that of a schema
without points. -/
theorem is_wanted_iff :
    isWanted tables schema table = true ↔
      tables = [] ∨ table ∈ tables ∨ ('.' ∉ schema.toList ∧ schema ++ "." ++ table ∈ tables) := by
  simp only [isWanted, Bool.or_eq_true, List.isEmpty_iff, List.any_eq_true, beq_iff_eq]
  refine or_congr_right ?_
  constructor
  · rintro ⟨name, hmem, rfl | hcut⟩
    · exact .inl hmem
    · split at hcut
      · rename_i s t hparts
        obtain ⟨rfl, rfl⟩ : String.ofList s = schema ∧ String.ofList t = table := by
          simpa using hcut
        rw [← String.toList_ofList (l := s), ← String.toList_ofList (l := t)] at hparts
        obtain ⟨rfl, hpoint⟩ := cut_name_iff.mp hparts
        exact .inr ⟨hpoint, hmem⟩
      · exact absurd hcut (by simp)
  · rintro (hmem | ⟨hpoint, hmem⟩)
    · exact ⟨table, hmem, .inl rfl⟩
    · refine ⟨_, hmem, .inr ?_⟩
      rw [cut_name_iff.mpr ⟨rfl, hpoint⟩]
      simp

/-! ## Tables that are given -/

/-- The names in a group are those of its pairs. -/
theorem mem_grouped {α : Type} {pairs : List (String × α)} {name : String} :
    name ∈ (grouped pairs).map Prod.fst ↔ name ∈ pairs.map Prod.fst := by
  have hadd (n : String) (value : α) (groups : List (String × List α)) :
      name ∈ (addUnder n value groups).map Prod.fst ↔
        name = n ∨ name ∈ groups.map Prod.fst := by
    induction groups with
    | nil => simp [addUnder]
    | cons group groups ih =>
        obtain ⟨m, values⟩ := group
        rw [addUnder]
        split
        · simp
        · split
          · rename_i heq
            simp [heq]
          · simp only [List.map_cons, List.mem_cons, ih]
            exact or_left_comm
  have hfold (groups : List (String × List α)) :
      name ∈ (pairs.foldl (fun groups pair => addUnder pair.1 pair.2 groups) groups).map Prod.fst ↔
        name ∈ pairs.map Prod.fst ∨ name ∈ groups.map Prod.fst := by
    induction pairs generalizing groups with
    | nil => simp
    | cons pair pairs ih =>
        rw [List.foldl_cons, ih, hadd, List.map_cons, List.mem_cons, or_left_comm, or_assoc]
  exact (hfold []).trans (by simp)

/-- A table is defined under a name exactly if the name is among those of the tables. -/
theorem table_isSome_iff {s : Schema} {name : String} :
    (s.table? name).isSome = true ↔ name ∈ s.tableNames := by
  simp [table?, tableNames, List.find?_isSome]

/-- A row about a column is taken exactly if its table is asked for. -/
theorem column_of_row_table {row : List Cell} {column : Option (String × ColumnDefinition)}
    (h : columnOfRow schema tables row = .ok column) :
    ∃ t, textAt row 0 = .ok t ∧
      column.map Prod.fst = if isWanted tables schema t then some t else none := by
  unfold columnOfRow at h
  obtain ⟨t, ht, h⟩ := Except.bind_eq_ok.mp h
  refine ⟨t, ht, ?_⟩
  cases hwanted : isWanted tables schema t with
  | false =>
      obtain rfl : none = column := by simpa [hwanted] using h
      simp
  | true =>
      simp only [hwanted, Bool.not_true, Bool.false_eq_true, if_false] at h
      obtain ⟨name, -, h⟩ := Except.bind_eq_ok.mp h
      obtain ⟨dataType, -, h⟩ := Except.bind_eq_ok.mp h
      obtain ⟨userType, -, h⟩ := Except.bind_eq_ok.mp h
      obtain ⟨length, -, h⟩ := Except.bind_eq_ok.mp h
      obtain ⟨precision, -, h⟩ := Except.bind_eq_ok.mp h
      obtain ⟨scale, -, h⟩ := Except.bind_eq_ok.mp h
      obtain ⟨nullable, -, h⟩ := Except.bind_eq_ok.mp h
      exact Except.pure_eq_ok.mp h ▸ rfl

/-- The tables of the columns that were read are those that the rows name and that are asked
for. -/
theorem mem_columns_of_rows {rows : List (List Cell)}
    {columns : List (Option (String × ColumnDefinition))}
    (h : readRows (columnOfRow schema tables) rows = .ok columns) :
    table ∈ (columns.filterMap id).map Prod.fst ↔
      (∃ row ∈ rows, textAt row 0 = .ok table) ∧ isWanted tables schema table = true := by
  rw [readRows, Except.map_error_eq_ok, Except.map_m_eq_ok_iff] at h
  constructor
  · intro hmem
    obtain ⟨pair, hpair, rfl⟩ := List.mem_map.mp hmem
    obtain ⟨column, hcolumn, rfl⟩ := List.mem_filterMap.mp hpair
    obtain ⟨row, hrow, hread⟩ := h.exists_of_mem_right hcolumn
    obtain ⟨t, ht, hfirst⟩ := column_of_row_table hread
    obtain ⟨hwanted, rfl⟩ : isWanted tables schema t = true ∧ pair.1 = t := by simpa using hfirst
    exact ⟨⟨row, hrow, ht⟩, hwanted⟩
  · rintro ⟨⟨row, hrow, htext⟩, hwanted⟩
    obtain ⟨column, hcolumn, hread⟩ := h.exists_of_mem_left hrow
    obtain ⟨t, ht, hfirst⟩ := column_of_row_table hread
    obtain rfl := Except.ok.inj (htext.symm.trans ht)
    rw [if_pos hwanted] at hfirst
    obtain ⟨pair, rfl, rfl⟩ := Option.map_eq_some_iff.mp hfirst
    exact List.mem_map_of_mem (List.mem_filterMap.mpr ⟨_, hcolumn, rfl⟩)

variable {σ : Type}

/-- What a server tells about columns names a table of a schema. -/
def Lists (server : Server σ) (world : σ) (schema table : String) : Prop :=
  ∃ rows, (server (.listColumns schema) world).1 = .rows rows ∧
    ∃ row ∈ rows, textAt row 0 = .ok table

/-- A look-up gives the tables that the server lists and that are asked for. -/
theorem mem_table_names_of_load {server : Server σ} {world : σ} {loaded : Schema} {name : String}
    (h : (load server schema tables world).1 = .ok loaded) :
    name ∈ loaded.tableNames ↔
      ∃ t, name = schema ++ "." ++ t ∧ Lists server world schema t ∧
        isWanted tables schema t = true := by
  unfold load at h
  unfold Lists
  generalize server (.listColumns schema) world = reply at h ⊢
  obtain ⟨reply, after⟩ := reply
  dsimp only at h
  cases reply with
  | refused code message => exact absurd h (by simp [rowsOf])
  | lost => exact absurd h (by simp [rowsOf])
  | rows rows =>
      simp only [rowsOf] at h
      generalize server (.listPrimaryKeys schema) after = answer at h
      obtain ⟨answer, final⟩ := answer
      dsimp only at h
      cases answer with
      | refused code message => exact absurd h (by simp)
      | lost => exact absurd h (by simp)
      | rows keyRows =>
          obtain ⟨columns, hcolumns, h⟩ := Except.bind_eq_ok.mp h
          obtain ⟨keys, -, h⟩ := Except.bind_eq_ok.mp h
          obtain rfl := Except.pure_eq_ok.mp h
          have hnames : (ofColumns schema (columns.filterMap id) keys).tableNames =
              ((grouped (columns.filterMap id)).map Prod.fst).map (schema ++ "." ++ ·) := by
            simp [ofColumns, tableNames, Function.comp_def]
          rw [hnames, List.mem_map]
          simp only [mem_grouped, mem_columns_of_rows hcolumns, Reply.rows.injEq,
            exists_eq_left']
          constructor
          · rintro ⟨t, hlisted, rfl⟩
            exact ⟨t, rfl, hlisted⟩
          · rintro ⟨t, rfl, hlisted⟩
            exact ⟨t, hlisted, rfl⟩

end Schema

end ChangeFeed
