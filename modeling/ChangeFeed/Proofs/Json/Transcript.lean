import ChangeFeed.Json.Canonical
import ChangeFeed.Proofs.Json.Soundness

/-!
# Documents with their numbers as spelled

A transcript is what a text says before its numbers get values: each number is kept with its digits.
Every text that is read as a document without unusable parts has a transcript
(`exists_transcript_of_read`), and the document is what is kept of any transcript of the text
(`kept_of_read`). At each place of the document stands what is kept of what stands there in the
transcript (`at_kept`).
-/

namespace ChangeFeed.Json

/-- A document whose numbers are spelled out. -/
inductive Transcript where
  | null
  | bool (value : Bool)
  | number (n : Numeral)
  | text (value : String)
  | list (items : List Transcript)
  | object (fields : List (String × Transcript))

mutual

/-- The texts that say what a transcript says. -/
inductive Shows : Transcript → List Char → Prop where
  | null : Shows .null ['n', 'u', 'l', 'l']
  | yes : Shows (.bool true) ['t', 'r', 'u', 'e']
  | no : Shows (.bool false) ['f', 'a', 'l', 's', 'e']
  | number {n : Numeral} {cs : List Char} (h : SpellsNumeral n cs) : Shows (.number n) cs
  | text {value cs : List Char} (h : SpellsText (some value) cs) :
      Shows (.text (String.ofList value)) ('"' :: (cs ++ ['"']))
  | emptyList {gap : List Char} (hgap : IsGap gap) : Shows (.list []) ('[' :: (gap ++ [']']))
  | list {items : List Transcript} {cs : List Char} (h : ShowsItems items cs) :
      Shows (.list items) ('[' :: (cs ++ [']']))
  | emptyObject {gap : List Char} (hgap : IsGap gap) :
      Shows (.object []) ('{' :: (gap ++ ['}']))
  | object {fields : List (String × Transcript)} {cs : List Char} (h : ShowsFields fields cs) :
      Shows (.object fields) ('{' :: (cs ++ ['}']))

/-- The texts of items. -/
inductive ShowsItems : List Transcript → List Char → Prop where
  | last {item : Transcript} {front cs back : List Char} (hfront : IsGap front)
      (hback : IsGap back) (h : Shows item cs) : ShowsItems [item] (front ++ (cs ++ back))
  | more {item : Transcript} {items : List Transcript} {front cs back rest : List Char}
      (hfront : IsGap front) (hback : IsGap back) (h : Shows item cs)
      (hrest : ShowsItems items rest) :
      ShowsItems (item :: items) (front ++ (cs ++ (back ++ ',' :: rest)))

/-- The texts of fields. -/
inductive ShowsFields : List (String × Transcript) → List Char → Prop where
  | last {field : String × Transcript} {cs back : List Char} (hback : IsGap back)
      (h : ShowsField field cs) : ShowsFields [field] (cs ++ back)
  | more {field : String × Transcript} {fields : List (String × Transcript)}
      {cs back rest : List Char} (hback : IsGap back) (h : ShowsField field cs)
      (hrest : ShowsFields fields rest) :
      ShowsFields (field :: fields) (cs ++ (back ++ ',' :: rest))

/-- The texts of a field. -/
inductive ShowsField : String × Transcript → List Char → Prop where
  | mk {name : List Char} {value : Transcript} {front chars colon gap cs : List Char}
      (hfront : IsGap front) (hname : SpellsText (some name) chars) (hcolon : IsGap colon)
      (hgap : IsGap gap) (h : Shows value cs) :
      ShowsField (String.ofList name, value)
        (front ++ '"' :: (chars ++ '"' :: (colon ++ ':' :: (gap ++ cs))))

end

namespace Transcript

mutual

/-- The document of a transcript inside some lists and objects. -/
def documentAt : Nat → Transcript → Json
  | _, .null => .null
  | _, .bool value => .bool value
  | _, .number n => n.value
  | _, .text value => .text value
  | depth, .list items => listAt depth (itemsAt (depth + 1) items)
  | depth, .object fields => objectAt depth (some (fieldsAt (depth + 1) fields))

/-- The documents of items. -/
def itemsAt : Nat → List Transcript → List Json
  | _, [] => []
  | depth, item :: rest => documentAt depth item :: itemsAt depth rest

/-- The documents of fields. -/
def fieldsAt : Nat → List (String × Transcript) → List (String × Json)
  | _, [] => []
  | depth, (name, value) :: rest => (name, documentAt depth value) :: fieldsAt depth rest

end

mutual

/-- The canonical document of a transcript, all parts of which have values. -/
def kept : Transcript → Json
  | .null => .null
  | .bool value => .bool value
  | .number n => n.value
  | .text value => .text value
  | .list items => .list (keptItems items)
  | .object fields => .object (sortedFields (keptFields fields))

/-- The canonical documents of items. -/
def keptItems : List Transcript → List Json
  | [] => []
  | item :: rest => kept item :: keptItems rest

/-- The canonical documents of fields. -/
def keptFields : List (String × Transcript) → List (String × Json)
  | [] => []
  | (name, value) :: rest => (name, kept value) :: keptFields rest

end

end Transcript

open Transcript (documentAt itemsAt fieldsAt kept keptItems keptFields)

/-! ## Transcripts of documents -/

mutual

/-- The text of a transcript spells its document. -/
theorem Shows.spells {t : Transcript} {cs : List Char} (h : Shows t cs) (depth : Nat) :
    Spells depth (documentAt depth t) cs := by
  cases h with
  | null => exact .null
  | yes => exact .yes
  | no => exact .no
  | number h => exact .numeral h
  | text h => exact .text h
  | emptyList hgap => exact .emptyList hgap
  | list h => exact .list (h.spells depth)
  | emptyObject hgap => exact .emptyObject hgap
  | object h => exact .object (h.spells depth)

/-- The text of items spells their documents. -/
theorem ShowsItems.spells {items : List Transcript} {cs : List Char} (h : ShowsItems items cs)
    (depth : Nat) : SpellsItems depth (itemsAt (depth + 1) items) cs := by
  cases h with
  | last hfront hback h => exact .last hfront hback (h.spells (depth + 1))
  | more hfront hback h hrest =>
      exact .more hfront hback (h.spells (depth + 1)) (hrest.spells depth)

/-- The text of fields spells their documents. -/
theorem ShowsFields.spells {fields : List (String × Transcript)} {cs : List Char}
    (h : ShowsFields fields cs) (depth : Nat) :
    SpellsFields depth (some (fieldsAt (depth + 1) fields)) cs := by
  cases h with
  | @last field _ _ hback h => exact .last hback (h.spells depth)
  | more hback h hrest => exact .more hback (h.spells depth) (hrest.spells depth)

/-- The text of a field spells its document. -/
theorem ShowsField.spells {field : String × Transcript} {cs : List Char} (h : ShowsField field cs)
    (depth : Nat) :
    SpellsField depth (some (field.1, documentAt (depth + 1) field.2)) cs := by
  cases h with
  | mk hfront hname hcolon hgap h => exact .mk hfront hname hcolon hgap (h.spells (depth + 1))

end

/-- A list with a canonical form has canonical items. -/
theorem canonical_list_at {depth : Nat} {items : List Json} {doc : Json}
    (h : canonical? (listAt depth items) = some doc) :
    ∃ docs, canonicalItems? items = some docs ∧ doc = .list docs := by
  rw [listAt] at h
  split at h
  · rw [canonical?, Option.map_eq_some_iff] at h
    obtain ⟨docs, hdocs, rfl⟩ := h
    exact ⟨docs, hdocs, rfl⟩
  · cases h

/-- An object with a canonical form has names and canonical values. -/
theorem canonical_object_at {depth : Nat} {fields : Option (List (String × Json))} {doc : Json}
    (h : canonical? (objectAt depth fields) = some doc) :
    ∃ found docs, fields = some found ∧ canonicalFields? found = some docs ∧
      doc = .object (sortedFields docs) := by
  cases fields with
  | none => cases h
  | some found =>
      simp only [objectAt] at h
      split at h
      · rw [canonical?, Option.map_eq_some_iff] at h
        obtain ⟨docs, hdocs, rfl⟩ := h
        exact ⟨found, docs, rfl, hdocs, rfl⟩
      · cases h

/-- Items have canonical forms when the first of them has one and so have the others. -/
theorem canonical_items_cons {item : Json} {rest docs : List Json}
    (h : canonicalItems? (item :: rest) = some docs) :
    ∃ doc others, canonical? item = some doc ∧ canonicalItems? rest = some others ∧
      docs = doc :: others := by
  obtain ⟨doc, hdoc, h⟩ := Option.bind_eq_some_iff.mp h
  obtain ⟨others, hothers, h⟩ := Option.bind_eq_some_iff.mp h
  exact ⟨doc, others, hdoc, hothers, (Option.some.inj h).symm⟩

/-- Fields have canonical values when the first of them has one and so have the others. -/
theorem canonical_fields_cons {name : String} {value : Json} {rest docs : List (String × Json)}
    (h : canonicalFields? ((name, value) :: rest) = some docs) :
    ∃ doc others, canonical? value = some doc ∧ canonicalFields? rest = some others ∧
      docs = (name, doc) :: others := by
  obtain ⟨doc, hdoc, h⟩ := Option.bind_eq_some_iff.mp h
  obtain ⟨others, hothers, h⟩ := Option.bind_eq_some_iff.mp h
  exact ⟨doc, others, hdoc, hothers, (Option.some.inj h).symm⟩

mutual

/-- A text of a document with a canonical form has a transcript. -/
theorem Spells.exists_transcript {depth : Nat} {value doc : Json} {cs : List Char}
    (hdoc : canonical? value = some doc) :
    Spells depth value cs → ∃ t, Shows t cs ∧ value = documentAt depth t
  | .null => ⟨_, .null, rfl⟩
  | .yes => ⟨_, .yes, rfl⟩
  | .no => ⟨_, .no, rfl⟩
  | .numeral h => ⟨_, .number h, rfl⟩
  | @Spells.text _ (some _) _ h => ⟨_, .text h, rfl⟩
  | @Spells.text _ none _ _ => by cases hdoc
  | .emptyList hgap => ⟨_, .emptyList hgap, rfl⟩
  | .list h => by
    obtain ⟨docs, hdocs, -⟩ := canonical_list_at hdoc
    obtain ⟨ts, hts, rfl⟩ := h.exists_transcript hdocs
    exact ⟨_, .list hts, rfl⟩
  | .emptyObject hgap => ⟨_, .emptyObject hgap, rfl⟩
  | .object h => by
    obtain ⟨found, docs, hfound, hdocs, -⟩ := canonical_object_at hdoc
    obtain ⟨ts, hts, rfl⟩ := h.exists_transcript hfound hdocs
    exact ⟨_, .object hts, congrArg (objectAt depth) hfound⟩

/-- A text of items with canonical forms has transcripts. -/
theorem SpellsItems.exists_transcript {depth : Nat} {items docs : List Json} {cs : List Char}
    (hdocs : canonicalItems? items = some docs) :
    SpellsItems depth items cs → ∃ ts, ShowsItems ts cs ∧ items = itemsAt (depth + 1) ts
  | .last hfront hback h => by
    obtain ⟨doc, -, hdoc, -, -⟩ := canonical_items_cons hdocs
    obtain ⟨t, ht, rfl⟩ := h.exists_transcript hdoc
    exact ⟨[t], .last hfront hback ht, rfl⟩
  | .more hfront hback h hrest => by
    obtain ⟨doc, left, hdoc, hleft, -⟩ := canonical_items_cons hdocs
    obtain ⟨t, ht, rfl⟩ := h.exists_transcript hdoc
    obtain ⟨ts, hts, rfl⟩ := hrest.exists_transcript hleft
    exact ⟨t :: ts, .more hfront hback ht hts, rfl⟩

/-- A text of fields with canonical values has transcripts. -/
theorem SpellsFields.exists_transcript {depth : Nat} {fields : Option (List (String × Json))}
    {found docs : List (String × Json)} {cs : List Char} (hfound : fields = some found)
    (hdocs : canonicalFields? found = some docs) :
    SpellsFields depth fields cs → ∃ ts, ShowsFields ts cs ∧ found = fieldsAt (depth + 1) ts
  | .last hback h => by
    obtain ⟨⟨name, value⟩, hfield, rfl⟩ := Option.map_eq_some_iff.mp hfound
    obtain ⟨doc, -, hdoc, -, -⟩ := canonical_fields_cons hdocs
    obtain ⟨t, ht, rfl⟩ := h.exists_transcript hfield hdoc
    exact ⟨[(name, t)], .last hback ht, rfl⟩
  | .more hback h hrest => by
    obtain ⟨⟨name, value⟩, hfield, hfound⟩ := Option.bind_eq_some_iff.mp hfound
    obtain ⟨others, hothers, rfl⟩ := Option.map_eq_some_iff.mp hfound
    obtain ⟨doc, left, hdoc, hleft, -⟩ := canonical_fields_cons hdocs
    obtain ⟨t, ht, rfl⟩ := h.exists_transcript hfield hdoc
    obtain ⟨ts, hts, rfl⟩ := hrest.exists_transcript hothers hleft
    exact ⟨(name, t) :: ts, .more hback ht hts, rfl⟩

/-- A text of a field with a canonical value has a transcript. -/
theorem SpellsField.exists_transcript {depth : Nat} {field : Option (String × Json)}
    {name : String} {value doc : Json} {cs : List Char} (hfield : field = some (name, value))
    (hdoc : canonical? value = some doc) :
    SpellsField depth field cs → ∃ t, ShowsField (name, t) cs ∧ value = documentAt (depth + 1) t
  | .mk hfront hname hcolon hgap h => by
    obtain ⟨chars, rfl, heq⟩ := Option.map_eq_some_iff.mp hfield
    obtain ⟨rfl, rfl⟩ := Prod.mk.inj heq
    obtain ⟨t, ht, rfl⟩ := h.exists_transcript hdoc
    exact ⟨t, .mk hfront hname hcolon hgap ht, rfl⟩

end

/-! ## Canonical documents of transcripts -/

/-- A number with a canonical form has a value, and is its own canonical form. -/
theorem canonical_value {n : Numeral} {doc : Json} (h : canonical? n.value = some doc) :
    doc = n.value ∧ n.value ≠ .unusable := by
  have hleaf : canonical? n.value = some n.value ∧ n.value ≠ .unusable ∨
      canonical? n.value = none := by
    simp only [Numeral.value]
    repeat' split
    all_goals simp [canonical?]
  rcases hleaf with ⟨hsame, husable⟩ | hnone
  · exact ⟨Option.some.inj (h.symm.trans hsame), husable⟩
  · exact absurd (h.symm.trans hnone) (Option.some_ne_none doc)

mutual

/-- The canonical form of a transcript's document is what is kept of the transcript. -/
theorem kept_of_canonical {depth : Nat} {doc : Json} :
    (t : Transcript) → canonical? (documentAt depth t) = some doc → doc = kept t
  | .null, h | .bool _, h | .text _, h => (Option.some.inj h).symm
  | .number _, h => (canonical_value h).1
  | .list items, h => by
    rw [documentAt] at h
    obtain ⟨docs, hdocs, rfl⟩ := canonical_list_at h
    rw [kept, kept_items_of_canonical items hdocs]
  | .object fields, h => by
    rw [documentAt] at h
    obtain ⟨found, docs, hfound, hdocs, rfl⟩ := canonical_object_at h
    obtain rfl := Option.some.inj hfound
    rw [kept, kept_fields_of_canonical fields hdocs]

/-- The canonical forms of items are what is kept of them. -/
theorem kept_items_of_canonical {depth : Nat} {docs : List Json} :
    (items : List Transcript) → canonicalItems? (itemsAt depth items) = some docs →
      docs = keptItems items
  | [], h => (Option.some.inj h).symm
  | item :: rest, h => by
    obtain ⟨doc, others, hdoc, hothers, rfl⟩ := canonical_items_cons h
    rw [keptItems, kept_of_canonical item hdoc, kept_items_of_canonical rest hothers]

/-- The canonical values of fields are what is kept of them. -/
theorem kept_fields_of_canonical {depth : Nat} {docs : List (String × Json)} :
    (fields : List (String × Transcript)) → canonicalFields? (fieldsAt depth fields) = some docs →
      docs = keptFields fields
  | [], h => (Option.some.inj h).symm
  | (name, value) :: rest, h => by
    obtain ⟨doc, others, hdoc, hothers, rfl⟩ := canonical_fields_cons h
    rw [keptFields, kept_of_canonical value hdoc, kept_fields_of_canonical rest hothers]

end

/-! ## Places -/

/-- One step into a document. -/
inductive Step where
  | item (index : Nat)
  | field (name : String)

/-- What a step into a document leads to. -/
def child? : Json → Step → Option Json
  | .list items, .item index => items[index]?
  | .object fields, .field name => fields.lookup name
  | _, _ => none

/-- What stands at a place in a document. -/
def at? (doc : Json) (path : List Step) : Option Json :=
  path.foldlM child? doc

/-- What a step into a transcript leads to. Of several fields with one name the last one counts. -/
def Transcript.child? : Transcript → Step → Option Transcript
  | .list items, .item index => items[index]?
  | .object fields, .field name => fields.reverse.lookup name
  | _, _ => none

/-- What stands at a place in a transcript. -/
def Transcript.at? (t : Transcript) (path : List Step) : Option Transcript :=
  path.foldlM Transcript.child? t

variable {α β : Type}

/-- The first of some fields is found under its name. -/
theorem lookup_cons_eq (other name : String) (value : α) (fields : List (String × α)) :
    ((name, value) :: fields).lookup other =
      if other = name then some value else fields.lookup other := by
  by_cases hsame : other = name
  · simp [hsame]
  · rw [List.lookup_cons, beq_eq_false_iff_ne.mpr hsame, if_neg hsame]

/-- Where a value is put it is found, and everything else where it was. -/
theorem lookup_insert_field (name other : String) (value : α) (fields : List (String × α)) :
    (insertField name value fields).lookup other =
      if other = name then some value else fields.lookup other := by
  induction fields with
  | nil => exact lookup_cons_eq other name value []
  | cons field rest ih =>
      obtain ⟨n, v⟩ := field
      rw [insertField]
      by_cases hless : name < n
      · rw [if_pos hless, lookup_cons_eq other name]
      · by_cases hsame : name = n
        · rw [if_neg hless, if_pos hsame, lookup_cons_eq, lookup_cons_eq, hsame]
          split_ifs <;> rfl
        · rw [if_neg hless, if_neg hsame, lookup_cons_eq, lookup_cons_eq, ih]
          split_ifs with hfirst hother
          · exact absurd (hother.symm.trans hfirst) hsame
          all_goals rfl

/-- Sorted fields are found like the last ones of their names. -/
theorem lookup_sorted_fields (name : String) (fields : List (String × α)) :
    (sortedFields fields).lookup name = fields.reverse.lookup name := by
  have hbefore (sorted : List (String × α)) :
      (fields.foldl (fun sorted field => insertField field.1 field.2 sorted) sorted).lookup
        name = (fields.reverse ++ sorted).lookup name := by
    induction fields generalizing sorted with
    | nil => rfl
    | cons field rest ih =>
        rw [List.foldl_cons, ih, List.reverse_cons, List.append_assoc, List.lookup_append,
          List.lookup_append, lookup_insert_field, List.singleton_append, lookup_cons_eq]
  exact (hbefore []).trans (by rw [List.append_nil])

/-- What is found is the same as before the values were changed. -/
theorem lookup_map (f : α → β) (name : String) (fields : List (String × α)) :
    (fields.map fun field => (field.1, f field.2)).lookup name = (fields.lookup name).map f := by
  induction fields with
  | nil => rfl
  | cons field rest ih =>
      rw [List.map_cons, List.lookup_cons, List.lookup_cons, ih]
      split <;> rfl

/-- What is kept of items is kept of each of them. -/
theorem kept_items_eq (items : List Transcript) : keptItems items = items.map kept := by
  induction items with
  | nil => rfl
  | cons item rest ih => rw [keptItems, ih, List.map_cons]

/-- What is kept of fields is kept of each of them. -/
theorem kept_fields_eq (fields : List (String × Transcript)) :
    keptFields fields = fields.map fun field => (field.1, kept field.2) := by
  induction fields with
  | nil => rfl
  | cons field rest ih => rw [keptFields, ih, List.map_cons]

/-- No step leads into a number. -/
theorem Numeral.value_child (n : Numeral) (step : Step) : n.value.child? step = none := by
  simp only [Numeral.value]
  repeat' split
  all_goals cases step <;> rfl

/-- A step into what is kept of a transcript leads to what is kept of where it leads there. -/
theorem child_kept (t : Transcript) (step : Step) :
    (kept t).child? step = (t.child? step).map kept := by
  cases t with
  | null | bool | text => cases step <;> rfl
  | number n => exact n.value_child step
  | list items =>
      cases step with
      | item index => simp [kept, child?, Transcript.child?, kept_items_eq]
      | field name => rfl
  | object fields =>
      cases step with
      | item index => rfl
      | field name =>
          simp only [kept, child?, Transcript.child?, lookup_sorted_fields, kept_fields_eq,
            ← List.map_reverse, lookup_map]

/-- At each place stands what is kept of what stands there in the transcript. -/
theorem at_kept (t : Transcript) (path : List Step) :
    (kept t).at? path = (t.at? path).map kept := by
  induction path generalizing t with
  | nil => rfl
  | cons step rest ih =>
      have hchild := child_kept t step
      simp only [at?, Transcript.at?, List.foldlM_cons, hchild] at ih ⊢
      cases t.child? step with
      | none => rfl
      | some child => exact ih child

/-! ## Parts of transcripts -/

/-- Some text shows the transcript, and its document has a canonical form. -/
def Transcript.IsUsable (t : Transcript) : Prop :=
  (∃ cs, Shows t cs) ∧ ∃ depth doc, canonical? (documentAt depth t) = some doc

/-- Each of some items has a text. -/
theorem ShowsItems.shows_of_mem {items : List Transcript} {item : Transcript} {cs : List Char} :
    ShowsItems items cs → item ∈ items → ∃ ds, Shows item ds
  | .last _ _ h, hmem => ⟨_, List.mem_singleton.mp hmem ▸ h⟩
  | .more _ _ h hrest, hmem => by
    rcases List.mem_cons.mp hmem with rfl | hmem
    · exact ⟨_, h⟩
    · exact hrest.shows_of_mem hmem

/-- Each of some fields has a text. -/
theorem ShowsFields.shows_of_mem {fields : List (String × Transcript)}
    {field : String × Transcript} {cs : List Char} :
    ShowsFields fields cs → field ∈ fields → ∃ ds, Shows field.2 ds
  | .last _ (.mk _ _ _ _ h), hmem => by
    obtain rfl := List.mem_singleton.mp hmem
    exact ⟨_, h⟩
  | .more _ (.mk _ _ _ _ h) hrest, hmem => by
    rcases List.mem_cons.mp hmem with rfl | hmem
    · exact ⟨_, h⟩
    · exact hrest.shows_of_mem hmem

/-- Each of some items has a canonical form. -/
theorem canonical_of_mem_items {depth : Nat} {items : List Transcript} {docs : List Json}
    (h : canonicalItems? (itemsAt depth items) = some docs) {item : Transcript}
    (hmem : item ∈ items) : ∃ doc, canonical? (documentAt depth item) = some doc := by
  induction items generalizing docs with
  | nil => exact absurd hmem List.not_mem_nil
  | cons other rest ih =>
      obtain ⟨doc, others, hdoc, hothers, -⟩ := canonical_items_cons h
      rcases List.mem_cons.mp hmem with rfl | hmem
      · exact ⟨doc, hdoc⟩
      · exact ih hothers hmem

/-- Each of some fields has a canonical value. -/
theorem canonical_of_mem_fields {depth : Nat} {fields : List (String × Transcript)}
    {docs : List (String × Json)} (h : canonicalFields? (fieldsAt depth fields) = some docs)
    {field : String × Transcript} (hmem : field ∈ fields) :
    ∃ doc, canonical? (documentAt depth field.2) = some doc := by
  induction fields generalizing docs with
  | nil => exact absurd hmem List.not_mem_nil
  | cons other rest ih =>
      obtain ⟨doc, others, hdoc, hothers, -⟩ := canonical_fields_cons h
      rcases List.mem_cons.mp hmem with rfl | hmem
      · exact ⟨doc, hdoc⟩
      · exact ih hothers hmem

/-- Steps into a usable transcript lead to usable ones. -/
theorem Transcript.IsUsable.child {t u : Transcript} (h : t.IsUsable) {step : Step}
    (hchild : t.child? step = some u) : u.IsUsable := by
  obtain ⟨⟨cs, hshows⟩, depth, doc, hdoc⟩ := h
  cases t with
  | null | bool | number | text => cases step <;> cases hchild
  | list items =>
      cases step with
      | field => cases hchild
      | item index =>
          have hmem : u ∈ items := List.mem_of_getElem? hchild
          rw [documentAt] at hdoc
          obtain ⟨docs, hdocs, -⟩ := canonical_list_at hdoc
          refine ⟨?_, depth + 1, canonical_of_mem_items hdocs hmem⟩
          cases hshows with
          | emptyList => exact absurd hmem List.not_mem_nil
          | list h => exact h.shows_of_mem hmem
  | object fields =>
      cases step with
      | item => cases hchild
      | field name =>
          have hmem : (name, u) ∈ fields := by
            obtain ⟨front, back, heq, -⟩ := List.lookup_eq_some_iff.mp hchild
            exact List.mem_reverse.mp (by simp [heq])
          rw [documentAt] at hdoc
          obtain ⟨found, docs, hfound, hdocs, -⟩ := canonical_object_at hdoc
          obtain rfl := Option.some.inj hfound
          refine ⟨?_, depth + 1, canonical_of_mem_fields hdocs hmem⟩
          cases hshows with
          | emptyObject => exact absurd hmem List.not_mem_nil
          | object h => exact h.shows_of_mem hmem

/-- What stands at a place in a usable transcript is usable. -/
theorem Transcript.IsUsable.at {t u : Transcript} (h : t.IsUsable) {path : List Step}
    (hat : t.at? path = some u) : u.IsUsable := by
  induction path generalizing t with
  | nil => exact Option.some.inj hat ▸ h
  | cons step rest ih =>
      rw [Transcript.at?, List.foldlM_cons] at hat
      obtain ⟨child, hchild, hrest⟩ := Option.bind_eq_some_iff.mp hat
      exact ih (h.child hchild) hrest

/-! ## Texts that are read -/

/-- A text shows a transcript, with spaces around it. -/
def Transcript.IsOf (t : Transcript) (cs : List Char) : Prop :=
  ∃ front body back, IsGap front ∧ IsGap back ∧ cs = front ++ (body ++ back) ∧ Shows t body

/-- A text that is read as a usable document has a transcript. -/
theorem exists_transcript_of_read {cs : List Char} {doc : Json}
    (h : (readChars cs).bind canonical? = some doc) : ∃ t : Transcript, t.IsOf cs := by
  obtain ⟨value, hread, hdoc⟩ := Option.bind_eq_some_iff.mp h
  obtain ⟨front, body, back, hfront, hback, rfl, hspells⟩ := read_chars_iff.mp hread
  obtain ⟨t, ht, -⟩ := hspells.exists_transcript hdoc
  exact ⟨t, front, body, back, hfront, hback, rfl, ht⟩

/-- The document that a text is read as is what is kept of any transcript of the text. -/
theorem kept_of_read {cs : List Char} {doc : Json} (h : (readChars cs).bind canonical? = some doc)
    {t : Transcript} (ht : t.IsOf cs) : doc = t.kept ∧ t.IsUsable := by
  obtain ⟨front, body, back, hfront, hback, rfl, hshows⟩ := ht
  rw [read_chars_spelled (hshows.spells 0) hfront hback, Option.bind_some] at h
  exact ⟨kept_of_canonical t h, ⟨body, hshows⟩, 0, doc, h⟩

end ChangeFeed.Json
