import ChangeFeed.Proofs.Except
import ChangeFeed.Proofs.Schema.Document
import Mathlib.Data.List.Nodup

/-!
# Look-ups in a schema that is edited

Whatever definitions are added to a schema, and however often it is saved and loaded in between, the
definition under a name is the one that was given last: `Schema.look_up_latest`. The same holds for
a `Catalogue`, which keeps the place of each name beside the tables, as long as the places are those
where the names stand last (`Catalogue.Consistent`).
-/

namespace ChangeFeed

variable {given tables : List TableDefinition} {t u : TableDefinition} {name : String}

/-- A definition is the last one under a name. -/
def IsLatest (given : List TableDefinition) (name : String) (t : TableDefinition) : Prop :=
  ∃ before after, given = before ++ t :: after ∧ t.name = name ∧ ∀ u ∈ after, u.name ≠ name

/-- A change of a schema: a definition is added, or the schema is saved and loaded again. -/
inductive Edit where
  | add (table : TableDefinition)
  | reload

/-- The definitions that edits add, in order. -/
def added (edits : List Edit) : List TableDefinition :=
  edits.filterMap fun
    | .add table => some table
    | .reload => none

/-- Names with that of a definition behind them, unless it is among them. -/
def withName (names : List String) (t : TableDefinition) : List String :=
  if t.name ∈ names then names else names ++ [t.name]

namespace Schema

/-! ## Look-ups and additions -/

variable {s : Schema}

/-- A definition is looked up exactly if it is the last one under its name. -/
theorem table_eq_some_iff : s.table? name = some t ↔ IsLatest s.tables name t := by
  rw [table?, List.find?_eq_some_iff_append]
  constructor
  · rintro ⟨hname, behind, front, hreverse, hbehind⟩
    refine ⟨front.reverse, behind.reverse, ?_, by simpa using hname, ?_⟩
    · rw [← List.reverse_reverse s.tables, hreverse]
      simp
    · intro u hu
      simpa using hbehind u (List.mem_reverse.mp hu)
  · rintro ⟨before, after, htables, rfl, hafter⟩
    refine ⟨by simp, after.reverse, before.reverse, by simp [htables], fun u hu => ?_⟩
    simpa using hafter u (List.mem_reverse.mp hu)

/-- No definition is looked up exactly if there is none under the name. -/
theorem table_eq_none_iff : s.table? name = none ↔ ∀ t ∈ s.tables, t.name ≠ name := by
  simp [table?]

/-- The first definition of a name is replaced, if there is one. -/
theorem replace_first_cases (t : TableDefinition) (tables : List TableDefinition) :
    (∃ before old after, tables = before ++ old :: after ∧ old.name = t.name ∧
      (∀ u ∈ before, u.name ≠ t.name) ∧ replaceFirst t tables = some (before ++ t :: after)) ∨
    (∀ u ∈ tables, u.name ≠ t.name) ∧ replaceFirst t tables = none := by
  induction tables with
  | nil => exact .inr ⟨nofun, rfl⟩
  | cons u rest ih =>
      by_cases hu : u.name = t.name
      · exact .inl ⟨[], u, rest, rfl, hu, nofun, by simp [replaceFirst, hu]⟩
      · obtain ⟨before, old, after, rfl, hold, hbefore, hreplace⟩ | ⟨hnone, hreplace⟩ := ih
        · exact .inl ⟨u :: before, old, after, rfl, hold, List.forall_mem_cons.mpr ⟨hu, hbefore⟩,
            by simp [replaceFirst, hu, hreplace]⟩
        · exact .inr ⟨List.forall_mem_cons.mpr ⟨hu, hnone⟩, by simp [replaceFirst, hu, hreplace]⟩

/-- A definition that is added takes the place of the last one of its name, or stands at the end if
the name is new. -/
theorem add_cases (s : Schema) (t : TableDefinition) :
    (∃ before old after, s.tables = before ++ old :: after ∧ old.name = t.name ∧
      (∀ u ∈ after, u.name ≠ t.name) ∧ s.add t = ⟨before ++ t :: after⟩) ∨
    (∀ u ∈ s.tables, u.name ≠ t.name) ∧ s.add t = ⟨s.tables ++ [t]⟩ := by
  obtain ⟨behind, old, front, hreverse, hold, hbehind, hreplace⟩ | ⟨hnone, hreplace⟩ :=
    replace_first_cases t s.tables.reverse
  · refine .inl ⟨front.reverse, old, behind.reverse, ?_, hold, ?_, ?_⟩
    · rw [← List.reverse_reverse s.tables, hreverse]
      simp
    · exact fun u hu => hbehind u (List.mem_reverse.mp hu)
    · rw [add, hreplace]
      simp
  · exact .inr ⟨fun u hu => hnone u (List.mem_reverse.mpr hu), by rw [add, hreplace]⟩

/-- An addition changes the look-up of its own name and of no other. -/
theorem table_add (s : Schema) (t : TableDefinition) (name : String) :
    (s.add t).table? name = if t.name = name then some t else s.table? name := by
  obtain ⟨before, old, after, htables, hold, hafter, hadd⟩ | ⟨-, hadd⟩ := s.add_cases t
  · have hnone : t.name = name → after.reverse.find? (·.name == name) = none := by
      rintro rfl
      simpa using hafter
    by_cases hname : t.name = name
    · simp [table?, hadd, List.find?_append, hname, hnone hname]
    · simp [table?, hadd, htables, List.find?_append, hname, hold]
  · by_cases hname : t.name = name <;> simp [table?, hadd, hname]

/-- An addition leaves the names as they are, in their order, and puts a new one at their end. -/
theorem table_names_add (s : Schema) (t : TableDefinition) :
    (s.add t).tableNames = withName s.tableNames t := by
  rw [withName]
  obtain ⟨before, old, after, htables, hold, -, hadd⟩ | ⟨hnew, hadd⟩ := s.add_cases t
  · simp [tableNames, hadd, htables, hold]
  · have hname : t.name ∉ s.tableNames := by simpa [tableNames] using hnew
    rw [if_neg hname, hadd]
    simp [tableNames]

/-- All definitions of a schema after an addition were there before or are the one added. -/
theorem fits_add (hs : s.Fits) (ht : t.Fits) : (s.add t).Fits := by
  obtain ⟨before, old, after, htables, -, -, hadd⟩ | ⟨-, hadd⟩ := s.add_cases t
  · rw [Fits, htables, List.forall_mem_append, List.forall_mem_cons] at hs
    rw [Fits, hadd]
    exact List.forall_mem_append.mpr ⟨hs.1, List.forall_mem_cons.mpr ⟨ht, hs.2.2⟩⟩
  · rw [Fits, hadd]
    exact List.forall_mem_append.mpr ⟨hs, List.forall_mem_singleton.mpr ht⟩

/-- The schema after an edit; what cannot be loaded again is a fault. -/
def edit (s : Schema) : Edit → Except SchemaFileFault Schema
  | .add table => .ok (s.add table)
  | .reload => ofFile (.ok s.toJson.render)

end Schema

/-! ## Places of names -/

/-- Definitions of tables with the place of each name among them. -/
structure Catalogue where
  tables : List TableDefinition
  places : Std.HashMap String Nat

namespace Catalogue

/-- The place of each name; of several under one name that is the last place. -/
def placesOf (tables : List TableDefinition) : Std.HashMap String Nat :=
  tables.zipIdx.foldl (fun places (t, place) => places.insert t.name place) ∅

/-- The catalogue of some definitions. -/
def ofTables (tables : List TableDefinition) : Catalogue :=
  ⟨tables, placesOf tables⟩

/-- The definition in the place of a name. -/
def table? (c : Catalogue) (name : String) : Option TableDefinition :=
  c.places[name]?.bind (c.tables[·]?)

/-- Puts a definition in the place of its name, or in a new place at the end. -/
def add (c : Catalogue) (t : TableDefinition) : Catalogue :=
  match c.places[t.name]? with
  | some place => ⟨c.tables.set place t, c.places⟩
  | none => ⟨c.tables ++ [t], c.places.insert t.name c.tables.length⟩

/-- The catalogue after an edit. The places are not saved: they are found anew when the tables are
loaded. -/
def edit (c : Catalogue) : Edit → Except SchemaFileFault Catalogue
  | .add table => .ok (c.add table)
  | .reload => (Schema.ofFile (.ok (Schema.mk c.tables).toJson.render)).map fun s =>
      ofTables s.tables

/-- A name stands last in some place. -/
def IsLastPlace (names : List String) (name : String) (place : Nat) : Prop :=
  ∃ before after, names = before ++ name :: after ∧ before.length = place ∧ name ∉ after

/-- The places are those where the names stand last. -/
def Consistent (c : Catalogue) : Prop :=
  ∀ name place, c.places[name]? = some place ↔ IsLastPlace (c.tables.map (·.name)) name place

variable {c : Catalogue} {names : List String} {other : String} {place : Nat}

/-- A name at the end stands last there. -/
theorem last_place_append_self :
    IsLastPlace (names ++ [name]) name place ↔ names.length = place := by
  constructor
  · rintro ⟨before, after, hsplit, rfl, hafter⟩
    obtain rfl | ⟨front, last, rfl⟩ := after.eq_nil_or_concat'
    · rw [(List.append_inj' hsplit rfl).1]
    · rw [← List.cons_append, ← List.append_assoc] at hsplit
      obtain rfl : name = last := by simpa using (List.append_inj' hsplit rfl).2
      exact absurd (by simp) hafter
  · rintro rfl
    exact ⟨names, [], rfl, rfl, List.not_mem_nil⟩

/-- A name at the end does not change where others stand last. -/
theorem last_place_append_other (h : other ≠ name) :
    IsLastPlace (names ++ [other]) name place ↔ IsLastPlace names name place := by
  constructor
  · rintro ⟨before, after, hsplit, hplace, hafter⟩
    obtain rfl | ⟨front, last, rfl⟩ := after.eq_nil_or_concat'
    · exact absurd (by simpa using (List.append_inj' hsplit rfl).2) h
    · rw [← List.cons_append, ← List.append_assoc] at hsplit
      exact ⟨before, front, (List.append_inj' hsplit rfl).1, hplace,
        fun hmem => hafter (List.mem_append_left _ hmem)⟩
  · rintro ⟨before, after, rfl, hplace, hafter⟩
    refine ⟨before, after ++ [other], by simp, hplace, fun hmem => ?_⟩
    rcases List.mem_append.mp hmem with hmem | hmem
    · exact hafter hmem
    · exact h (List.mem_singleton.mp hmem).symm

/-- Places stay consistent when a definition is put behind the others, under whatever name. -/
theorem consistent_append {places : Std.HashMap String Nat} (h : Consistent ⟨tables, places⟩)
    (t : TableDefinition) :
    Consistent ⟨tables ++ [t], places.insert t.name tables.length⟩ := by
  intro name place
  simp only [Std.HashMap.getElem?_insert, List.map_append, List.map_singleton]
  by_cases hname : t.name = name
  · rw [hname, last_place_append_self]
    simp
  · rw [last_place_append_other hname, ← h name place]
    simp [hname]

/-- The places that are found are consistent. -/
theorem consistent_of_tables (tables : List TableDefinition) : (ofTables tables).Consistent := by
  induction tables using List.reverseRecOn with
  | nil =>
      intro name place
      simp [ofTables, placesOf, IsLastPlace]
  | append_singleton tables t ih =>
      have hplaces : placesOf (tables ++ [t]) = (placesOf tables).insert t.name tables.length := by
        simp [placesOf, List.zipIdx_append]
      rw [ofTables, hplaces]
      exact consistent_append ih t

/-- The place of a name is that of the last definition under it. -/
theorem place_of_last (h : c.Consistent) {before after : List TableDefinition}
    (htables : c.tables = before ++ t :: after) (hname : t.name = name)
    (hafter : ∀ u ∈ after, u.name ≠ name) : c.places[name]? = some before.length := by
  refine (h name _).mpr
    ⟨before.map (·.name), after.map (·.name), ?_, by simp, by simpa using hafter⟩
  rw [htables, List.map_append, List.map_cons, hname]

/-- A name without a definition has no place. -/
theorem place_eq_none (h : c.Consistent) (hnone : ∀ u ∈ c.tables, u.name ≠ name) :
    c.places[name]? = none := by
  refine Option.eq_none_iff_forall_ne_some.mpr fun place hplace => ?_
  obtain ⟨before, after, hnames, -, -⟩ := (h name place).mp hplace
  have hmem : name ∈ c.tables.map (·.name) := by simp [hnames]
  obtain ⟨u, hu, hname⟩ := List.mem_map.mp hmem
  exact hnone u hu hname

/-- The definition in the place of a name is the last one under it. -/
theorem table_eq (h : c.Consistent) (name : String) :
    c.table? name = (Schema.mk c.tables).table? name := by
  cases hlatest : (Schema.mk c.tables).table? name with
  | none =>
      rw [table?, place_eq_none h (Schema.table_eq_none_iff.mp hlatest), Option.bind_none]
  | some t =>
      obtain ⟨before, after, htables, hname, hafter⟩ := Schema.table_eq_some_iff.mp hlatest
      have htables : c.tables = before ++ t :: after := htables
      rw [table?, place_of_last h htables hname hafter, Option.bind_some, htables]
      simp

/-- An addition changes the tables as it does without places, and the places stay consistent. -/
theorem add_consistent (h : c.Consistent) (t : TableDefinition) :
    (c.add t).tables = ((Schema.mk c.tables).add t).tables ∧ (c.add t).Consistent := by
  obtain ⟨before, old, after, htables, hold, hafter, hadd⟩ | ⟨hnew, hadd⟩ :=
    (Schema.mk c.tables).add_cases t
  · have htables : c.tables = before ++ old :: after := htables
    have hset : c.tables.set before.length t = before ++ t :: after := by simp [htables]
    have hcatalogue : c.add t = ⟨before ++ t :: after, c.places⟩ := by
      rw [add, place_of_last h htables hold hafter, ← hset]
    refine ⟨by rw [hcatalogue, hadd], fun name place => ?_⟩
    -- The names are the same as before, each in its place.
    have hnames : (before ++ t :: after).map (·.name) = c.tables.map (·.name) := by
      simp [htables, hold]
    rw [hcatalogue, h name place, hnames]
  · have hcatalogue : c.add t = ⟨c.tables ++ [t], c.places.insert t.name c.tables.length⟩ := by
      rw [add, place_eq_none h hnew]
    exact ⟨by rw [hcatalogue, hadd], hcatalogue ▸ consistent_append h t⟩

end Catalogue

namespace Schema

/-! ## Runs of edits -/

variable {initial more : List TableDefinition} {s : Schema} {c : Catalogue}

/-- What holds after edits of an initial list to which `more` definitions were added. -/
structure Tracks (initial more : List TableDefinition) (s : Schema) (c : Catalogue) : Prop where
  tables : c.tables = s.tables
  places : c.Consistent
  latest : ∀ name, s.table? name = (Schema.mk (initial ++ more)).table? name
  names : s.tableNames = more.foldl withName (initial.map (·.name))
  fits : s.Fits

/-- What holds is kept by an addition, also in a catalogue. -/
theorem tracks_add (h : Tracks initial more s c) (ht : t.Fits) :
    Tracks initial (more ++ [t]) (s.add t) (c.add t) := by
  obtain ⟨htables, hplaces⟩ := Catalogue.add_consistent h.places t
  refine ⟨?_, hplaces, fun name => ?_, ?_, fits_add h.fits ht⟩
  · rw [htables, h.tables]
  · have hgiven : (Schema.mk (initial ++ (more ++ [t]))).table? name =
        if t.name = name then some t else (Schema.mk (initial ++ more)).table? name := by
      by_cases hname : t.name = name <;> simp [table?, hname]
    rw [table_add, h.latest, hgiven]
  · rw [table_names_add, h.names, List.foldl_append, List.foldl_cons, List.foldl_nil]

/-- What holds is kept when the schema is saved and loaded again. -/
theorem tracks_reload (h : Tracks initial more s c) :
    s.edit .reload = .ok s ∧ c.edit .reload = .ok (.ofTables s.tables) ∧
      Tracks initial more s (.ofTables s.tables) := by
  have hload : s.edit .reload = .ok s := by rw [edit, of_file_saved, if_pos h.fits]
  refine ⟨hload, ?_, rfl, Catalogue.consistent_of_tables s.tables, h.latest, h.names, h.fits⟩
  rw [Catalogue.edit, h.tables]
  exact Except.map_eq_ok.mpr ⟨s, hload, rfl⟩

/-- What holds is kept by edits whose definitions can be loaded again. -/
theorem tracks_edits (edits : List Edit) (h : Tracks initial more s c)
    (hfits : ∀ t ∈ added edits, t.Fits) :
    ∃ s' c', edits.foldlM edit s = .ok s' ∧ edits.foldlM Catalogue.edit c = .ok c' ∧
      Tracks initial (more ++ added edits) s' c' := by
  -- What was added so far is part of what holds, and grows with each edit.
  induction edits generalizing more s c with
  | nil => exact ⟨s, c, rfl, rfl, by simpa [added] using h⟩
  | cons e edits ih =>
      cases e with
      | add t =>
          have hadded : added (.add t :: edits) = t :: added edits := rfl
          rw [hadded] at hfits
          obtain ⟨ht, hrest⟩ := List.forall_mem_cons.mp hfits
          obtain ⟨s', c', hs, hc, htracks⟩ := ih (tracks_add h ht) hrest
          exact ⟨s', c', hs, hc, by simpa [hadded] using htracks⟩
      | reload =>
          obtain ⟨hload, hload', hkept⟩ := tracks_reload h
          obtain ⟨s', c', hs, hc, htracks⟩ := ih hkept hfits
          refine ⟨s', c', ?_, ?_, htracks⟩
          · rw [List.foldlM_cons, hload]
            exact hs
          · rw [List.foldlM_cons, hload']
            exact hc

/-- Distinct names stay distinct when others are added. -/
theorem nodup_with_names {names : List String} (more : List TableDefinition) (h : names.Nodup) :
    (more.foldl withName names).Nodup := by
  induction more generalizing names with
  | nil => exact h
  | cons t more ih =>
      refine ih ?_
      rw [withName]
      split
      · exact h
      · rename_i hname
        simpa using h.concat hname

/-- Whatever edits are made, the definition under a name is the last one that was given under it, in
the initial list or by an addition, and there is none if none was given. The names are those of the
initial list, with new ones behind them in the order in which they came, so that distinct names stay
distinct. A catalogue with places gives the same. One more addition changes no other look-up. A
schema is loaded as it was saved exactly if its types fit in the depth that the reader takes. -/
theorem look_up_latest (initial : List TableDefinition) (edits : List Edit)
    (hfits : ∀ t ∈ initial ++ added edits, t.Fits) :
    (∀ s : Schema, s.edit .reload = if s.Fits then .ok s else .error .document) ∧
    ∃ s c, edits.foldlM edit ⟨initial⟩ = .ok s ∧
      edits.foldlM Catalogue.edit (.ofTables initial) = .ok c ∧
      (c.tables = s.tables ∧ ∀ name, c.table? name = s.table? name) ∧
      (∀ name t, s.table? name = some t ↔ IsLatest (initial ++ added edits) name t) ∧
      (∀ name, s.table? name = none ↔ ∀ t ∈ initial ++ added edits, t.name ≠ name) ∧
      s.tableNames = (added edits).foldl withName (initial.map (·.name)) ∧
      ((initial.map (·.name)).Nodup → s.tableNames.Nodup) ∧
      ∀ t, (∀ name, t.name ≠ name → (s.add t).table? name = s.table? name) ∧
        (s.add t).tableNames = withName s.tableNames t := by
  obtain ⟨hinitial, hadded⟩ := List.forall_mem_append.mp hfits
  have hstart : Tracks initial [] ⟨initial⟩ (.ofTables initial) :=
    ⟨rfl, Catalogue.consistent_of_tables initial, fun name => by rw [List.append_nil], rfl,
      hinitial⟩
  obtain ⟨s, c, hs, hc, htracks⟩ := tracks_edits edits hstart hadded
  rw [List.nil_append] at htracks
  refine ⟨of_file_saved, s, c, hs, hc, ⟨htracks.tables, fun name => ?_⟩, fun name t => ?_,
    fun name => ?_, htracks.names, fun hdistinct => ?_,
    fun t => ⟨fun name hname => ?_, s.table_names_add t⟩⟩
  · rw [Catalogue.table_eq htracks.places, htracks.tables]
  · rw [htracks.latest, table_eq_some_iff]
  · rw [htracks.latest, table_eq_none_iff]
  · rw [htracks.names]
    exact nodup_with_names (added edits) hdistinct
  · rw [table_add, if_neg hname]

/-- A table that gets a column of arrays, in a schema that is saved and loaded again before another
table is added. -/
theorem look_up_latest_replaced :
    ∃ s, [Edit.add ⟨"orders", [⟨"tags", .array .text, true⟩], ["id"]⟩, .reload,
        .add ⟨"items", [], []⟩].foldlM edit ⟨[⟨"orders", [], ["id"]⟩]⟩ = .ok s ∧
      s.table? "orders" = some ⟨"orders", [⟨"tags", .array .text, true⟩], ["id"]⟩ ∧
      s.tableNames = ["orders", "items"] := by
  obtain ⟨-, s, -, hs, -, -, hlatest, -, hnames, -⟩ := look_up_latest [⟨"orders", [], ["id"]⟩]
    [.add ⟨"orders", [⟨"tags", .array .text, true⟩], ["id"]⟩, .reload, .add ⟨"items", [], []⟩]
    (by decide)
  refine ⟨s, hs, (hlatest _ _).mpr ?_, hnames.trans (by decide)⟩
  exact ⟨[⟨"orders", [], ["id"]⟩], [⟨"items", [], []⟩], rfl, rfl, by simp⟩

end Schema

end ChangeFeed
