import ChangeFeed.Plugin.Basic
import ChangeFeed.Proofs.Except
import ChangeFeed.Proofs.Plugin.Spelling
import ChangeFeed.Proofs.Text.Utf8

/-!
# Lines of changed rows

How `test_decoding` writes a changed row, and that decoding the bytes of the line gives that row
again (`RowLine.decode_text`). Read `RowLine.text` first. Columns are read one after another
(`LineForm.columns_within_spelled`), up to the end or the mark of the new row, which no column looks
like (`SpelledColumn.no_mark`).
-/

namespace ChangeFeed.Plugin

/-- The name of a type as it stands between brackets: nothing in it looks like their end. -/
structure TypeName where
  text : String
  unended : ¬ [']', ':'] <:+: text.toList

/-- A column as a line spells it. -/
structure SpelledColumn where
  name : String
  typeName : TypeName
  value : SpelledValue

namespace SpelledColumn

/-- A column with its name, its type in brackets and its literal. -/
def text (column : SpelledColumn) : List Char :=
  spelledName column.name ++
    '[' :: (column.typeName.text.toList ++ [']', ':'] ++ column.value.literal)

/-- The column that is spelled. -/
def column (column : SpelledColumn) : RawColumn :=
  ⟨column.name, column.typeName.text, column.value.value⟩

end SpelledColumn

/-- Columns as a line spells them, each behind a space. -/
def spelledColumns (columns : List SpelledColumn) : List Char :=
  columns.flatMap fun column => ' ' :: column.text

/-- A row as a line spells it; it may be left out. -/
def spelledTuple : Option (List SpelledColumn) → List Char
  | none => " (no-tuple-data)".toList
  | some columns => spelledColumns columns

@[simp]
theorem spelled_tuple_some (columns : List SpelledColumn) :
    spelledTuple (some columns) = spelledColumns columns :=
  rfl

/-- The columns of a row; one that is left out has none. -/
def columnsOf (tuple : Option (List SpelledColumn)) : List RawColumn :=
  (tuple.getD []).map SpelledColumn.column

/-- What a line says about a row. An update shows the old key if the key has changed. -/
inductive RowChange where
  | insert (new : Option (List SpelledColumn))
  | update (oldKey : Option (List SpelledColumn)) (new : Option (List SpelledColumn))
  | delete (old : Option (List SpelledColumn))

namespace RowChange

/-- What was done to the row. -/
def kind : RowChange → RowKind
  | .insert _ => .insert
  | .update _ _ => .update
  | .delete _ => .delete

/-- The part of the line behind the operation. -/
def text : RowChange → List Char
  | .insert new => spelledTuple new
  | .update none new => spelledTuple new
  | .update (some oldKey) new =>
    " old-key:".toList ++
      (spelledColumns oldKey ++ ' ' :: (LineForm.newTupleMark ++ spelledTuple new))
  | .delete old => spelledTuple old

@[simp]
theorem text_insert (new : Option (List SpelledColumn)) : (insert new).text = spelledTuple new :=
  rfl

@[simp]
theorem text_update_none (new : Option (List SpelledColumn)) :
    (update none new).text = spelledTuple new :=
  rfl

@[simp]
theorem text_update_some (oldKey : List SpelledColumn) (new : Option (List SpelledColumn)) :
    (update (some oldKey) new).text = ' ' :: ("old-key:".toList ++
      (spelledColumns oldKey ++ ' ' :: (LineForm.newTupleMark ++ spelledTuple new))) :=
  rfl

@[simp]
theorem text_delete (old : Option (List SpelledColumn)) : (delete old).text = spelledTuple old :=
  rfl

/-- The row, the old one of a deletion. -/
def columns : RowChange → List RawColumn
  | .insert new => columnsOf new
  | .update _ new => columnsOf new
  | .delete old => columnsOf old

/-- The old key. -/
def oldKeys : RowChange → List RawColumn
  | .update oldKey _ => columnsOf oldKey
  | _ => []

end RowChange

/-- A changed row of a table. -/
structure RowLine where
  schema : String
  table : String
  change : RowChange

namespace RowLine

/-- The line of a row. -/
def text (line : RowLine) : List Char :=
  "table ".toList ++ (spelledName line.schema ++ '.' :: (spelledName line.table ++
    ':' :: ' ' :: (line.change.kind.name.toList ++ ':' :: line.change.text)))

/-- The row of a line, at the position of its message. -/
def row (line : RowLine) (position : Position) : Row :=
  ⟨position, line.change.kind, line.schema, line.table, line.change.columns, line.change.oldKeys,
    none, none⟩

end RowLine

/-! ## One column -/

theorem not_blank_of_name_char {c : Char} (h : isNameChar c = true) : Text.isBlank c = false := by
  have hrange : 48 ≤ c.toNat ∧ c.toNat ≤ 122 := by
    simp only [isNameChar, isNameStart, Bool.or_eq_true, Bool.and_eq_true, decide_eq_true_eq,
      beq_iff_eq, Char.le_def, UInt32.le_iff_toNat_le] at h
    rcases h with (⟨hlow, hhigh⟩ | rfl) | ⟨hlow, hhigh⟩
    · exact ⟨Nat.le_trans (by decide) hlow, hhigh⟩
    · decide
    · exact ⟨hlow, Nat.le_trans hhigh (by decide)⟩
  simp [Text.isBlank]
  omega

/-- A spelled name starts with no blank. -/
theorem spelled_name_starts (name : String) :
    ∃ c more, spelledName name = c :: more ∧ Text.isBlank c = false := by
  unfold spelledName
  by_cases hplain : isPlainName name.toList = true
  · rw [if_pos hplain]
    have hchars := is_name_char_of_plain hplain
    cases hname : name.toList with
    | nil =>
        rw [hname] at hplain
        exact absurd hplain (by decide)
    | cons c cs => exact ⟨c, cs, rfl, not_blank_of_name_char (hchars c (by simp [hname]))⟩
  · rw [if_neg hplain]
    exact ⟨'"', _, rfl, rfl⟩

namespace SpelledColumn

/-- A column starts with no blank. -/
theorem text_starts (column : SpelledColumn) :
    ∃ c more, column.text = c :: more ∧ Text.isBlank c = false := by
  obtain ⟨c, more, hname, hblank⟩ := spelled_name_starts column.name
  exact ⟨c, _, by rw [text, hname]; rfl, hblank⟩

/-- A column ends in no blank. -/
theorem text_ends (column : SpelledColumn) :
    ∃ front last, column.text = front ++ [last] ∧ Text.isBlank last = false := by
  obtain ⟨front, last, hliteral, hblank⟩ := column.value.literal_ends
  refine ⟨spelledName column.name ++
    '[' :: (column.typeName.text.toList ++ [']', ':'] ++ front), last, ?_, hblank⟩
  rw [text, hliteral]
  simp

/-- A column does not look like a mark with a hyphen in it: in a plain name there is none, and
brackets follow the name. -/
theorem no_mark (mark : List Char) (hquote : '"' ∉ mark.head?) (hhyphen : '-' ∈ mark)
    (hbracket : '[' ∉ mark) (column : SpelledColumn) (rest : List Char) :
    ¬ mark <+: column.text ++ rest := by
  intro hstarts
  -- The mark ends within the name and its bracket, or else it has that bracket in it.
  have hname : column.text ++ rest = (spelledName column.name ++ ['[']) ++
      (column.typeName.text.toList ++ [']', ':'] ++ column.value.literal ++ rest) := by
    simp [text]
  rw [hname] at hstarts
  rcases List.prefix_or_prefix_of_prefix hstarts (List.prefix_append _ _) with hmark | hmark
  · unfold spelledName at hmark
    by_cases hplain : isPlainName column.name.toList = true
    · rw [if_pos hplain] at hmark
      rcases List.mem_append.mp (hmark.subset hhyphen) with hmem | hmem
      · exact absurd (is_name_char_of_plain hplain '-' hmem) (by decide)
      · exact absurd hmem (by decide)
    · rw [if_neg hplain] at hmark
      obtain ⟨c, mark, rfl⟩ := List.exists_cons_of_ne_nil (List.ne_nil_of_mem hhyphen)
      obtain ⟨more, hmore⟩ := hmark
      obtain ⟨rfl, -⟩ := List.cons.inj hmore
      exact hquote rfl
  · exact hbracket (hmark.subset (List.mem_append_right _ List.mem_cons_self))

end SpelledColumn

namespace LineForm

/-- The type of a column ends at the first end of brackets. -/
theorem cut_type (typeName : TypeName) (rest : List Char) :
    Text.cutAtText [']', ':'] (typeName.text.toList ++ [']', ':'] ++ rest) =
      some (typeName.text.toList, rest) := by
  -- A bracket at the end of the type is followed by the closing one and not by a colon.
  refine Text.cut_at_text_append (by simp) fun front back heq hback hstarts => ?_
  obtain ⟨b, back, rfl⟩ := List.exists_cons_of_ne_nil hback
  obtain ⟨more, hmore⟩ := hstarts
  obtain ⟨rfl, htail⟩ := List.cons.inj hmore
  cases back with
  | nil => exact absurd (List.cons.inj htail).1 (by decide)
  | cons c back =>
      obtain ⟨rfl, -⟩ := List.cons.inj htail
      exact typeName.unended ⟨front, back, by simp [heq]⟩

/-- A spelled column is read back at the end or in front of a space. -/
theorem take_column_spelled (column : SpelledColumn) {rest : List Char}
    (hrest : ∀ c ∈ rest.head?, c = ' ') :
    takeColumn (column.text ++ rest) = .ok (column.column, rest) := by
  have hname := take_name_spelled ['['] '[' (by simp) (by simp [isNameChar, isNameStart])
    column.name (column.typeName.text.toList ++ [']', ':'] ++ (column.value.literal ++ rest))
  have htext : column.text ++ rest = spelledName column.name ++
      '[' :: (column.typeName.text.toList ++ [']', ':'] ++ (column.value.literal ++ rest)) := by
    simp [SpelledColumn.text]
  rw [htext, takeColumn, hname]
  simp only [cut_type, take_literal_spelled column.value hrest, literal_value_spelled,
    String.ofList_toList]
  rfl

/-! ## Columns in a row -/

/-- The mark of the new row is in front of no column. -/
theorem column_no_new_tuple (column : SpelledColumn) (rest : List Char) :
    newTupleMark.isPrefixOf (column.text ++ rest) = false := by
  refine Bool.eq_false_iff.mpr fun h => ?_
  exact column.no_mark _ (by decide) (by decide) (by decide) rest (List.isPrefixOf_iff_prefix.mp h)

/-- Without the space in front, columns start with the first one. -/
theorem trim_start_spelled (column : SpelledColumn) (columns : List SpelledColumn)
    (rest : List Char) : Text.trimStart (spelledColumns (column :: columns) ++ rest) =
      column.text ++ (spelledColumns columns ++ rest) := by
  obtain ⟨c, more, htext, hblank⟩ := column.text_starts
  have hcons : spelledColumns (column :: columns) ++ rest =
      ' ' :: (column.text ++ (spelledColumns columns ++ rest)) := by
    simp [spelledColumns]
  rw [hcons, Text.trim_start_cons_blank rfl, htext, List.cons_append, Text.trim_start_cons hblank]

theorem trim_start_columns (column : SpelledColumn) (columns : List SpelledColumn) :
    Text.trimStart (spelledColumns (column :: columns)) =
      column.text ++ spelledColumns columns := by
  simpa using trim_start_spelled column columns []

/-- Columns are read from the first character that is not blank. -/
theorem columns_within_trim_start (fuel : Nat) (cs : List Char) :
    columnsWithin fuel (Text.trimStart cs) = columnsWithin fuel cs := by
  cases fuel with
  | zero => simp only [columnsWithin, Text.trim_start_trim_start]
  | succ fuel => simp only [columnsWithin, Text.trim_start_trim_start]

/-- Spelled columns are read back up to the end or the mark of the new row. -/
theorem columns_within_spelled {columns : List SpelledColumn} {fuel : Nat} (rest : List Char)
    (hfuel : columns.length ≤ fuel) (hspace : ∀ c ∈ rest.head?, c = ' ')
    (hstop : Text.trimStart rest = [] ∨ newTupleMark <+: Text.trimStart rest) :
    columnsWithin fuel (spelledColumns columns ++ rest) =
      .ok (columns.map SpelledColumn.column, Text.trimStart rest) := by
  induction columns generalizing fuel with
  | nil =>
      have hend : ((Text.trimStart rest).isEmpty ||
          newTupleMark.isPrefixOf (Text.trimStart rest)) = true := by
        rcases hstop with hempty | hmark
        · simp [hempty]
        · simp [List.isPrefixOf_iff_prefix.mpr hmark]
      simp only [spelledColumns, List.flatMap_nil, List.nil_append, List.map_nil]
      cases fuel with
      | zero => simp only [columnsWithin, hend, if_true]
      | succ fuel => simp only [columnsWithin, hend, if_true]
  | cons column columns ih =>
      cases fuel with
      | zero => simp at hfuel
      | succ fuel =>
          obtain ⟨c, more, htext, -⟩ := column.text_starts
          -- The literal ends at the space of the next column, or where the columns end.
          have hnext : ∀ c ∈ (spelledColumns columns ++ rest).head?, c = ' ' := by
            cases columns with
            | nil => exact hspace
            | cons column columns => simp [spelledColumns]
          have hstart := trim_start_spelled column columns rest
          have hgoes : ((column.text ++ (spelledColumns columns ++ rest)).isEmpty ||
              newTupleMark.isPrefixOf (column.text ++ (spelledColumns columns ++ rest))) =
                false := by
            rw [column_no_new_tuple, htext]
            rfl
          have hread := ih (Nat.le_of_succ_le_succ hfuel)
          simp only [columnsWithin, hstart, hgoes, Bool.false_eq_true, if_false,
            take_column_spelled column hnext, Except.ok_bind, hread]
          rfl

theorem length_le_spelled (columns : List SpelledColumn) :
    2 * columns.length ≤ (spelledColumns columns).length := by
  induction columns with
  | nil => simp [spelledColumns]
  | cons column columns ih =>
      obtain ⟨c, more, htext, -⟩ := column.text_starts
      have hcons : (spelledColumns (column :: columns)).length =
          1 + (more.length + 1) + (spelledColumns columns).length := by
        simp [spelledColumns, htext]
        omega
      rw [hcons, List.length_cons]
      omega

theorem length_le_trim_start (columns : List SpelledColumn) :
    columns.length ≤ (Text.trimStart (spelledColumns columns)).length := by
  cases columns with
  | nil => exact Nat.zero_le _
  | cons column columns =>
      obtain ⟨c, more, htext, -⟩ := column.text_starts
      have hlength := length_le_spelled columns
      rw [trim_start_columns, htext, List.length_append, List.length_cons, List.length_cons]
      omega

/-- Spelled columns that start a part of a line are read back, with fuel for each character. -/
theorem take_columns_spelled (columns : List SpelledColumn) (rest : List Char)
    (hspace : ∀ c ∈ rest.head?, c = ' ')
    (hstop : Text.trimStart rest = [] ∨ newTupleMark <+: Text.trimStart rest) :
    takeColumns (spelledColumns columns ++ rest) =
      .ok (columns.map SpelledColumn.column, Text.trimStart rest) := by
  refine columns_within_spelled rest ?_ hspace hstop
  have hlength := length_le_spelled columns
  rw [List.length_append]
  omega

/-! ## Rows -/

/-- A row ends in no blank unless it is empty. -/
theorem tuple_ends (tuple : Option (List SpelledColumn)) :
    spelledTuple tuple = [] ∨
      ∃ front last, spelledTuple tuple = front ++ [last] ∧ Text.isBlank last = false := by
  cases tuple with
  | none => exact .inr ⟨" (no-tuple-data".toList, ')', rfl, rfl⟩
  | some columns =>
      rcases List.eq_nil_or_concat columns with rfl | ⟨front, last, rfl⟩
      · exact .inl rfl
      · obtain ⟨more, c, htext, hblank⟩ := last.text_ends
        refine .inr ⟨spelledColumns front ++ ' ' :: more, c, ?_, hblank⟩
        rw [spelled_tuple_some]
        simp [spelledColumns, htext]

/-- A row is read from its first character that is not blank. -/
theorem read_tuple_trim_start (cs : List Char) : readTuple (Text.trimStart cs) = readTuple cs := by
  have htrim : Text.trim (Text.trimStart cs) = Text.trim cs := by
    rw [Text.trim, Text.trim_start_trim_start, Text.trim]
  unfold readTuple
  rw [htrim]

/-- A spelled row is not trimmed at its end. -/
theorem trim_tuple (tuple : Option (List SpelledColumn)) :
    Text.trim (spelledTuple tuple) = Text.trimStart (spelledTuple tuple) := by
  rcases tuple_ends tuple with hempty | ⟨front, last, htext, hblank⟩
  · rw [hempty]
    rfl
  · rw [Text.trim, htext, Text.trim_end_trim_start hblank]

/-- A spelled row does not start like a mark with a hyphen in it. -/
theorem columns_no_mark (mark : List Char) (hquote : '"' ∉ mark.head?) (hhyphen : '-' ∈ mark)
    (hbracket : '[' ∉ mark) (columns : List SpelledColumn) :
    ¬ mark <+: Text.trimStart (spelledColumns columns) := by
  cases columns with
  | nil =>
      intro hstarts
      have hempty : mark = [] := List.prefix_nil.mp hstarts
      rw [hempty] at hhyphen
      exact absurd hhyphen (by decide)
  | cons column columns =>
      rw [trim_start_columns]
      exact column.no_mark mark hquote hhyphen hbracket _

/-- A spelled row is read back. -/
theorem read_tuple_spelled (tuple : Option (List SpelledColumn)) :
    readTuple (spelledTuple tuple) = .ok (columnsOf tuple) := by
  unfold readTuple
  rw [trim_tuple]
  cases tuple with
  | none =>
      rw [if_pos (by decide)]
      rfl
  | some columns =>
      have hshown : String.ofList (Text.trimStart (spelledColumns columns)) ≠
          "(no-tuple-data)" := by
        intro heq
        refine columns_no_mark "(no-tuple-data)".toList (by decide) (by decide) (by decide)
          columns ?_
        rw [← heq, String.toList_ofList]
      have hread : takeColumns (Text.trimStart (spelledColumns columns)) =
          .ok (columns.map SpelledColumn.column, []) := by
        have hwithin := columns_within_spelled [] (length_le_trim_start columns) (by simp)
          (.inl rfl)
        rw [takeColumns, columns_within_trim_start]
        rwa [List.append_nil] at hwithin
      rw [spelled_tuple_some, if_neg hshown, hread]
      rfl

/-! ## Updates -/

/-- An update without an old key is read back. -/
theorem read_update_without_key (new : Option (List SpelledColumn)) :
    readUpdate (Text.trimStart (spelledTuple new)) = .ok (columnsOf new, []) := by
  have hstrip : Text.stripStart "old-key:".toList (Text.trimStart (spelledTuple new)) = none := by
    refine Option.eq_none_iff_forall_ne_some.mpr fun rest h => ?_
    have hstarts : "old-key:".toList <+: Text.trimStart (spelledTuple new) :=
      ⟨rest, (Text.strip_start_eq_some_iff.mp h).symm⟩
    cases new with
    | none =>
        revert hstarts
        decide
    | some columns => exact columns_no_mark _ (by decide) (by decide) (by decide) columns hstarts
  unfold readUpdate
  simp only [hstrip, read_tuple_trim_start, read_tuple_spelled, Except.ok_bind]
  rfl

/-- An update with an old key is read back. -/
theorem read_update_with_key (oldKey : List SpelledColumn) (new : Option (List SpelledColumn)) :
    readUpdate ("old-key:".toList ++
        (spelledColumns oldKey ++ ' ' :: (newTupleMark ++ spelledTuple new))) =
      .ok (columnsOf new, columnsOf (some oldKey)) := by
  have hmark : Text.trimStart (' ' :: (newTupleMark ++ spelledTuple new)) =
      newTupleMark ++ spelledTuple new := by
    rw [Text.trim_start_cons_blank rfl]
    rfl
  have htake := take_columns_spelled oldKey (' ' :: (newTupleMark ++ spelledTuple new)) (by simp)
    (.inr (by rw [hmark]; exact List.prefix_append _ _))
  rw [hmark] at htake
  unfold readUpdate
  simp only [Text.strip_start_append, htake, Except.ok_bind, read_tuple_spelled]
  rfl

/-! ## Lines -/

/-- The name of a table is read back in front of a colon. -/
theorem take_table_name_spelled (schema table : String) (rest : List Char) :
    takeTableName (spelledName schema ++ '.' :: (spelledName table ++ ':' :: rest)) =
      some ((schema, table), ':' :: rest) := by
  have hschema := take_name_spelled ['.', ':'] '.' (by simp) (by simp [isNameChar, isNameStart])
    schema (spelledName table ++ ':' :: rest)
  have htable := take_name_spelled [':'] ':' (by simp) (by simp [isNameChar, isNameStart])
    table rest
  simp only [takeTableName, hschema, htable, Option.bind_eq_bind, Option.bind_some,
    String.ofList_toList]
  rfl

/-- What a line says about a row is read back. -/
theorem read_table_spelled (line : RowLine) (position : Position) :
    readTable position (spelledName line.schema ++ '.' :: (spelledName line.table ++
      ':' :: ' ' :: (line.change.kind.name.toList ++ ':' :: line.change.text))) =
      .ok (.row (line.row position)) := by
  have haction : Text.cutAt ':' (line.change.kind.name.toList ++ ':' :: line.change.text) =
      some (line.change.kind.name.toList, line.change.text) := by
    refine Text.cut_at_eq_some_iff.mpr ⟨rfl, ?_⟩
    cases line.change.kind <;> decide
  have hseparator : Text.stripStart [':', ' '] (':' :: ' ' ::
      (line.change.kind.name.toList ++ ':' :: line.change.text)) =
        some (line.change.kind.name.toList ++ ':' :: line.change.text) :=
    Text.strip_start_append [':', ' '] _
  unfold readTable
  simp only [take_table_name_spelled, hseparator, haction, String.ofList_toList]
  cases hchange : line.change with
  | insert new =>
      have hread : (readTuple (Text.trimStart (spelledTuple new))).mapError
          (DecodeError.malformed position) = .ok (columnsOf new) := by
        rw [read_tuple_trim_start, read_tuple_spelled]
        rfl
      simp only [RowChange.kind, RowKind.name, RowChange.text_insert, hread, Except.ok_bind]
      simp only [RowLine.row, hchange]
      rfl
  | update oldKey new =>
      have hread : (readUpdate (Text.trimStart (RowChange.update oldKey new).text)).mapError
          (DecodeError.malformed position) = .ok (columnsOf new, columnsOf oldKey) := by
        cases oldKey with
        | none =>
            rw [RowChange.text_update_none, read_update_without_key]
            rfl
        | some oldKey =>
            rw [RowChange.text_update_some, Text.trim_start_cons_blank rfl]
            have hstart (rest : List Char) :
                Text.trimStart ("old-key:".toList ++ rest) = "old-key:".toList ++ rest :=
              Text.trim_start_cons rfl
            rw [hstart, read_update_with_key]
            rfl
      simp only [RowChange.kind, RowKind.name, hread, Except.ok_bind]
      simp only [RowLine.row, hchange]
      rfl
  | delete old =>
      have hread : (readTuple (Text.trimStart (spelledTuple old))).mapError
          (DecodeError.malformed position) = .ok (columnsOf old) := by
        rw [read_tuple_trim_start, read_tuple_spelled]
        rfl
      simp only [RowChange.kind, RowKind.name, RowChange.text_delete, hread, Except.ok_bind]
      simp only [RowLine.row, hchange]
      rfl

end LineForm

namespace RowChange

/-- What a line says about a row ends in no blank unless it is empty. -/
theorem text_ends (change : RowChange) :
    change.text = [] ∨
      ∃ front last, change.text = front ++ [last] ∧ Text.isBlank last = false := by
  cases change with
  | insert new => exact LineForm.tuple_ends new
  | update oldKey new =>
      cases oldKey with
      | none => exact LineForm.tuple_ends new
      | some oldKey =>
          refine .inr ?_
          rw [text_update_some]
          rcases LineForm.tuple_ends new with hempty | ⟨front, last, htext, hblank⟩
          · refine ⟨' ' :: ("old-key:".toList ++
              (spelledColumns oldKey ++ ' ' :: "new-tuple".toList)), ':', ?_, rfl⟩
            have hmark : LineForm.newTupleMark = "new-tuple".toList ++ [':'] := rfl
            rw [hempty, List.append_nil, hmark]
            simp
          · refine ⟨' ' :: ("old-key:".toList ++
              (spelledColumns oldKey ++ ' ' :: (LineForm.newTupleMark ++ front))), last, ?_, hblank⟩
            rw [htext]
            simp
  | delete old => exact LineForm.tuple_ends old

end RowChange

namespace RowLine

/-- A line ends in no blank. -/
theorem text_ends (line : RowLine) :
    ∃ front last, line.text = front ++ [last] ∧ Text.isBlank last = false := by
  obtain ⟨front, hfront⟩ : ∃ front, line.text = front ++ ':' :: line.change.text := by
    refine ⟨"table ".toList ++ (spelledName line.schema ++ '.' :: (spelledName line.table ++
      ':' :: ' ' :: line.change.kind.name.toList)), ?_⟩
    simp only [List.append_assoc, List.cons_append]
    rfl
  rcases line.change.text_ends with hempty | ⟨more, last, htext, hblank⟩
  · exact ⟨front, ':', by rw [hfront, hempty], rfl⟩
  · exact ⟨front ++ ':' :: more, last, by rw [hfront, htext]; simp, hblank⟩

/-- Decoding the bytes of a line gives its row, with the names, types and values as they were and
in their order. -/
theorem decode_text (line : RowLine) (position : Position) :
    Plugin.testDecoding.decode position (Text.toUtf8 line.text) =
      .ok (.row (line.row position)) := by
  obtain ⟨front, last, htext, hblank⟩ := line.text_ends
  have htrim : Text.trimEnd line.text = line.text := by
    rw [htext, Text.trim_end_append hblank]
  have hbegin : LineForm.afterKeyword "BEGIN" line.text = none := rfl
  have hcommit : LineForm.afterKeyword "COMMIT" line.text = none := rfl
  have htable : Text.stripStart "table ".toList line.text = some (spelledName line.schema ++
      '.' :: (spelledName line.table ++
        ':' :: ' ' :: (line.change.kind.name.toList ++ ':' :: line.change.text))) :=
    Text.strip_start_append _ _
  unfold decode
  rw [Text.of_utf8_to_utf8]
  unfold LineForm.read
  simp only [htrim, hbegin, hcommit, htable]
  exact LineForm.read_table_spelled line position

-- An array type, a name in quotes and a doubled quote, as the plugin writes them.
example : text ⟨"public", "Order", .update (some [⟨"id", ⟨"bigint", by decide⟩, .quoted "1"⟩])
    (some [⟨"id", ⟨"bigint", by decide⟩, .null⟩,
      ⟨"tags", ⟨"text[]", by decide⟩, .quoted "it's"⟩])⟩ =
    ("table public.\"Order\": UPDATE: old-key: id[bigint]:'1' new-tuple: id[bigint]:null " ++
      "tags[text[]]:'it''s'").toList := by
  decide

end RowLine

end ChangeFeed.Plugin
