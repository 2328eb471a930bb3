import ChangeFeed.Plugin.Basic
import ChangeFeed.Proofs.Plugin.Position
import ChangeFeed.Proofs.Plugin.Spelling
import ChangeFeed.Proofs.Text.Utf8

/-!
# Lines of truncated tables

How `test_decoding` writes that tables were truncated, and when that is taken for a message without
row data. Read `TruncationLine.text` and `TruncationLine.decode_placeholder_iff` first: with several
tables it depends on the spelling of the first name and on the colons in the others. What follows the
first point is read as one name, up to its closing quote or else up to a colon
(`LineForm.read_table_placeholder_iff`).
-/

namespace ChangeFeed.Plugin

/-- The name of a table as a line spells it. -/
structure TableSpelling where
  schema : NameSpelling
  table : NameSpelling

/-- The name of a table behind that of its schema. -/
def TableSpelling.text (t : TableSpelling) : List Char :=
  t.schema.text ++ '.' :: t.table.text

/-- A truncation of one table or of several. -/
structure TruncationLine where
  first : TableSpelling
  others : List TableSpelling
  flags : String

namespace TruncationLine

/-- The part of the line with the tables behind the first. -/
def othersText (line : TruncationLine) : List Char :=
  line.others.flatMap fun t => ',' :: ' ' :: t.text

/-- What stands between the tables and the flags. -/
def mark : List Char := ": TRUNCATE:".toList

@[simp]
theorem mark_eq : mark = [':', ' ', 'T', 'R', 'U', 'N', 'C', 'A', 'T', 'E', ':'] :=
  rfl

/-- The line of a truncation. -/
def text (line : TruncationLine) : List Char :=
  "table ".toList ++ (line.first.text ++ (line.othersText ++ (mark ++ ' ' :: line.flags.toList)))

theorem text_eq (line : TruncationLine) :
    line.text = "table ".toList ++
      (line.first.text ++ (line.othersText ++ (mark ++ ' ' :: line.flags.toList))) :=
  rfl

end TruncationLine

namespace LineForm

open TruncationLine (mark)

variable {position : Position} {cs : List Char}

/-- A message about a table is one without row data exactly if the word for a truncation follows
what is taken for the name of the table. -/
theorem read_table_placeholder_iff :
    readTable position cs = .ok (.placeholder position) ↔
      ∃ names body, takeTableName cs = some (names, mark ++ body) := by
  constructor
  · intro h
    obtain ⟨schema, table, action, body, hname, htells⟩ := tells_of_read_table h
    cases htells with
    | truncation => exact ⟨(schema, table), body, hname⟩
  · rintro ⟨names, body, hname⟩
    have hseparator : Text.stripStart [':', ' '] (mark ++ body) =
        some ("TRUNCATE".toList ++ ':' :: body) := rfl
    have haction : Text.cutAt ':' ("TRUNCATE".toList ++ ':' :: body) =
        some ("TRUNCATE".toList, body) := rfl
    rw [readTable, hname]
    simp only [hseparator, haction]
    rfl

/-- A table is named behind the point of its schema. -/
theorem take_table_name_spelling (schema : NameSpelling) {name rest after : List Char}
    (hname : takeName [':'] rest = some (name, after)) :
    takeTableName (schema.text ++ '.' :: rest) =
      some ((schema.name, String.ofList name), after) := by
  have hends : ∀ c ∈ ['.', ':'], isNameChar c = false ∧ c ≠ '"' := by
    simp [isNameChar, isNameStart]
  have hschema := take_name_spelling List.mem_cons_self hends schema rest
  simp [takeTableName, hschema, hname]

/-- The name of a table in quotes goes up to its closing quote. -/
theorem take_table_name_quoted (schema : NameSpelling) (name : String) {rest : List Char}
    (hrest : '"' ∉ rest.head?) :
    takeTableName (schema.text ++ '.' :: ((NameSpelling.quoted name).text ++ rest)) =
      some ((schema.name, name), rest) := by
  have hname := take_name_quoted [':'] name.toList hrest
  rw [NameSpelling.text, List.cons_append, List.append_assoc, List.singleton_append,
    take_table_name_spelling schema hname, String.ofList_toList]

/-- The name of a table without quotes goes up to the first colon behind it. -/
theorem take_table_name_plain (schema : NameSpelling) {name : String}
    (hplain : isPlainName name.toList = true) {before after : List Char} (hbefore : ':' ∉ before) :
    takeTableName (schema.text ++ '.' :: ((NameSpelling.plain name hplain).text ++
        (before ++ ':' :: after))) =
      some ((schema.name, String.ofList (name.toList ++ before)), ':' :: after) := by
  obtain ⟨hne, hquote⟩ := not_quote_of_plain hplain
  have hname : takeName [':'] (name.toList ++ before ++ ':' :: after) =
      some (name.toList ++ before, ':' :: after) := by
    refine take_name_unquoted (by simp [hne]) ?_ ?_ List.mem_cons_self
    · rwa [List.head?_append_of_ne_nil _ hne]
    · intro c hc
      rw [List.mem_singleton]
      rintro rfl
      rcases List.mem_append.mp hc with hc | hc
      · exact absurd (is_name_char_of_plain hplain _ hc) (by decide)
      · exact hbefore hc
  rw [List.append_assoc] at hname
  rw [NameSpelling.text, take_table_name_spelling schema hname]

end LineForm

namespace TruncationLine

/-- The first colon of a text is one in front of the word for a truncation. -/
def TruncatesFirst (cs : List Char) : Prop :=
  ∃ before body, cs = before ++ (mark ++ body) ∧ ':' ∉ before

/-- In front of the word for a truncation, it does not matter what follows the word. -/
theorem truncates_first_append_iff {cs : List Char} (flags : List Char) :
    TruncatesFirst (cs ++ (mark ++ flags)) ↔ TruncatesFirst (cs ++ mark) := by
  constructor
  · rintro ⟨before, body, heq, hbefore⟩
    rcases List.append_eq_append_iff.mp heq with ⟨more, rfl, hmore⟩ | ⟨more, rfl, hmore⟩
    · -- The first colon is not behind the one in front of the word.
      cases more with
      | nil => exact ⟨cs, [], by simp, by simpa using hbefore⟩
      | cons c more =>
          obtain ⟨rfl, -⟩ := List.cons.inj hmore
          exact absurd (List.mem_append_right cs List.mem_cons_self) hbefore
    · have hword : mark <+: more ++ (mark ++ flags) := ⟨body, hmore⟩
      have hflags : more ++ mark <+: more ++ (mark ++ flags) := ⟨flags, by simp⟩
      obtain ⟨rest, hrest⟩ := List.prefix_of_prefix_length_le hword hflags (by simp)
      exact ⟨before, rest, by rw [List.append_assoc, hrest], hbefore⟩
  · rintro ⟨before, body, heq, hbefore⟩
    exact ⟨before, body ++ flags, by rw [← List.append_assoc, heq]; simp, hbefore⟩

variable {line : TruncationLine} {position : Position} {schema : NameSpelling} {rest : List Char}

/-- Behind a name in quotes, the word for a truncation has to follow at once. -/
theorem read_table_quoted (name : String) (hrest : '"' ∉ rest.head?) :
    LineForm.readTable position
        (schema.text ++ '.' :: ((NameSpelling.quoted name).text ++ rest)) =
      .ok (.placeholder position) ↔ mark <+: rest := by
  rw [LineForm.read_table_placeholder_iff, LineForm.take_table_name_quoted schema name hrest]
  constructor
  · rintro ⟨names, body, heq⟩
    exact ⟨body, (Prod.mk.inj (Option.some.inj heq)).2.symm⟩
  · rintro ⟨body, rfl⟩
    exact ⟨_, body, rfl⟩

/-- Behind a name without quotes, the first colon has to be one in front of the word for a
truncation. -/
theorem read_table_plain {name : String} (hplain : isPlainName name.toList = true)
    (hcolon : ':' ∈ rest) :
    LineForm.readTable position
        (schema.text ++ '.' :: ((NameSpelling.plain name hplain).text ++ rest)) =
      .ok (.placeholder position) ↔ TruncatesFirst rest := by
  obtain ⟨before, after, rfl, hbefore⟩ := List.eq_append_cons_of_mem hcolon
  rw [LineForm.read_table_placeholder_iff, LineForm.take_table_name_plain schema hplain hbefore]
  constructor
  · rintro ⟨names, body, heq⟩
    have hafter : ':' :: after = mark ++ body := (Prod.mk.inj (Option.some.inj heq)).2
    exact ⟨before, body, by rw [hafter], hbefore⟩
  · rintro ⟨other, body, heq, hother⟩
    -- A text has only one first colon.
    have hcut : Text.cutAt ':' (before ++ ':' :: after) = some (before, after) :=
      Text.cut_at_eq_some_iff.mpr ⟨rfl, hbefore⟩
    have hcut' : Text.cutAt ':' (before ++ ':' :: after) =
        some (other, " TRUNCATE:".toList ++ body) :=
      Text.cut_at_eq_some_iff.mpr ⟨heq, hother⟩
    obtain ⟨-, rfl⟩ := Prod.mk.inj (Option.some.inj (hcut.symm.trans hcut'))
    exact ⟨_, body, rfl⟩

/-! ## Lines -/

/-- What is left of the flags when the end of the line is trimmed. -/
def tail (line : TruncationLine) : List Char :=
  Text.trimEnd (' ' :: line.flags.toList)

/-- A truncation is read as a message about a table. -/
theorem decode_eq :
    Plugin.testDecoding.decode position (Text.toUtf8 line.text) =
      LineForm.readTable position
        (line.first.text ++ (line.othersText ++ (mark ++ line.tail))) := by
  have htrim : Text.trimEnd line.text = "table ".toList ++
      (line.first.text ++ (line.othersText ++ (mark ++ line.tail))) := by
    have htext : line.text = ("table ".toList ++ (line.first.text ++ (line.othersText ++
        ": TRUNCATE".toList))) ++ ':' :: (' ' :: line.flags.toList) := by
      simp [text_eq]
    rw [htext, Text.trim_end_append_cons (by decide)]
    simp [tail]
  have hbegin (rest : List Char) :
      LineForm.afterKeyword "BEGIN" ("table ".toList ++ rest) = none := by
    simp [LineForm.afterKeyword, Text.stripStart, List.isPrefixOf?]
  have hcommit (rest : List Char) :
      LineForm.afterKeyword "COMMIT" ("table ".toList ++ rest) = none := by
    simp [LineForm.afterKeyword, Text.stripStart, List.isPrefixOf?]
  unfold decode
  rw [Text.of_utf8_to_utf8]
  unfold LineForm.read
  simp only [htrim, hbegin, hcommit, Text.strip_start_append]

/-- No quote follows the name of the first table. -/
theorem no_quote_behind (line : TruncationLine) :
    '"' ∉ (line.othersText ++ (mark ++ line.tail)).head? := by
  cases hothers : line.others <;> simp [othersText, hothers]

/-- A truncation is a message without row data exactly if one table is truncated, or the name of the
first table stands without quotes and the first colon behind it is the one in front of the operation
or one that cannot be told from it. -/
theorem decode_placeholder_iff (line : TruncationLine) (position : Position) :
    Plugin.testDecoding.decode position (Text.toUtf8 line.text) = .ok (.placeholder position) ↔
      line.others = [] ∨
        line.first.table.isPlain = true ∧ TruncatesFirst (line.othersText ++ mark) := by
  have hcolon : ':' ∈ line.othersText ++ (mark ++ line.tail) := by simp
  -- With one table the word follows its name.
  have hone : mark <+: line.othersText ++ (mark ++ line.tail) ↔ line.others = [] := by
    cases hothers : line.others with
    | nil => simp [othersText, hothers]
    | cons t others => simp [othersText, hothers]
  have hfirst : line.others = [] → TruncatesFirst (line.othersText ++ mark) := by
    intro hothers
    exact ⟨[], [], by simp [othersText, hothers], by simp⟩
  rw [decode_eq, TableSpelling.text, List.append_assoc, List.cons_append]
  cases line.first.table with
  | plain name hplain =>
      rw [read_table_plain hplain hcolon, truncates_first_append_iff]
      simpa [NameSpelling.isPlain] using hfirst
  | quoted name =>
      rw [read_table_quoted name line.no_quote_behind, hone]
      simp [NameSpelling.isPlain]

/-- Behind a name in quotes the comma of the next table is refused. -/
theorem decode_quoted_first {table : String} {next : TableSpelling} {others : List TableSpelling}
    (htable : line.first.table = .quoted table) (hothers : line.others = next :: others) :
    Plugin.testDecoding.decode position (Text.toUtf8 line.text) =
      .error (.malformed position .noSeparatorAfterTable) := by
  have hseparator : Text.stripStart [':', ' '] (line.othersText ++ (mark ++ line.tail)) = none := by
    simp [othersText, hothers, Text.stripStart, List.isPrefixOf?]
  rw [decode_eq, TableSpelling.text, htable, List.append_assoc, List.cons_append,
    LineForm.readTable, LineForm.take_table_name_quoted _ table line.no_quote_behind]
  simp only [hseparator]
  rfl

/-- Two tables of which the first has a capital letter. -/
def orderAndItem : TruncationLine where
  first := ⟨.plain "public" (by decide), .quoted "Order"⟩
  others := [⟨.plain "public" (by decide), .plain "item" (by decide)⟩]
  flags := "(no-flags)"

/-- The truncation of two tables is refused because the name of the first stands in quotes. -/
theorem quoted_first_refused :
    orderAndItem.text = "table public.\"Order\", public.item: TRUNCATE: (no-flags)".toList ∧
      ∀ position, Plugin.testDecoding.decode position (Text.toUtf8 orderAndItem.text) =
        .error (.malformed position .noSeparatorAfterTable) :=
  ⟨by decide, fun _ => decode_quoted_first rfl rfl⟩

end TruncationLine

end ChangeFeed.Plugin
