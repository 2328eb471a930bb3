import ChangeFeed.ColumnType.Basic
import ChangeFeed.Text.Blank
import ChangeFeed.Text.Cut

/-!
# Type names of the database

`ColumnType.ofName` reads both the standard spellings and the short aliases, in any case and with
blanks around them. Parenthesised modifiers may follow the first word or the whole name, and `[]`
behind or `_` in front makes an array. A name that is not known stands for text, so that values of
user-defined types go through as they are.
-/

namespace ChangeFeed.ColumnType

/-- The numbers between parentheses; what is no number of 32 bits does not count. -/
def modifiersOf (cs : List Char) : List Nat :=
  (Text.parts ',' cs).filterMap fun part =>
    (Number.readNat 10 (Nat.pow 2 32 - 1) (Text.trim part)).toOption

/-- A name without its parenthesised modifiers, and the modifiers. -/
def splitModifiers (cs : List Char) : List Char × List Nat :=
  match Text.cutAt '(' cs with
  | none => (cs, [])
  | some (before, rest) =>
    if before.contains ')' then (cs, [])
    else
      match Text.cutAt ')' rest with
      | none => (cs, [])
      | some (inside, after) =>
        (Text.trim (Text.trimEnd before ++ ' ' :: Text.trimStart after), modifiersOf inside)

/-- A modifier cut to eight bits, or a default where there is none. -/
def byteModifier (modifiers : List Nat) (index default : Nat) : UInt8 :=
  UInt8.ofNat (min (modifiers[index]?.getD default) 255)

/-- The first modifier cut to sixteen bits, or a default where there is none. -/
def lengthModifier (modifiers : List Nat) (default : Nat) : UInt16 :=
  UInt16.ofNat (min (modifiers.head?.getD default) 65535)

/-- The type of a name without marks and modifiers, in small letters. -/
def ofBase (base : String) (modifiers : List Nat) : ColumnType :=
  match base with
  | "boolean" | "bool" => .bool
  | "smallint" | "int2" | "smallserial" => .int16
  | "integer" | "int" | "int4" | "serial" => .int32
  | "bigint" | "int8" | "bigserial" | "oid" => .int64
  | "real" | "float4" => .float32
  | "double precision" | "float8" => .float64
  | "numeric" | "decimal" =>
    .decimal (byteModifier modifiers 0 38) (byteModifier modifiers 1 10)
  | "character varying" | "varchar" | "nvarchar2" | "varchar2" =>
    .varChar (lengthModifier modifiers 255)
  | "character" | "char" | "bpchar" => .char (lengthModifier modifiers 1)
  | "text" | "name" | "clob" => .text
  | "bytea" | "blob" | "raw" => .bytes
  | "date" => .date
  | "time" | "time without time zone" => .time
  | "timestamp" | "timestamp without time zone" | "smalldatetime" => .localDateTime
  | "timestamptz" | "timestamp with time zone" => .zonedDateTime
  | "uuid" => .uuid
  | "json" => .json
  | "jsonb" => .jsonb
  | _ => .text

theorem length_dropWhile_le {α : Type} (p : α → Bool) (cs : List α) :
    (cs.dropWhile p).length ≤ cs.length :=
  (List.dropWhile_sublist p).length_le

theorem length_trim_le (cs : List Char) : (Text.trim cs).length ≤ cs.length := by
  unfold Text.trim Text.trimEnd Text.trimStart
  rw [List.length_reverse]
  refine Nat.le_trans (length_dropWhile_le _ _) ?_
  rw [List.length_reverse]
  exact length_dropWhile_le _ _

/-- The element of an array name, by either mark. -/
def elementOf (cs : List Char) : Option (List Char) :=
  (Text.stripEnd ['[', ']'] cs).or (Text.stripStart ['_'] cs)

theorem length_of_stripStart {mark cs rest : List Char}
    (h : Text.stripStart mark cs = some rest) : rest.length + mark.length = cs.length := by
  unfold Text.stripStart at h
  induction mark generalizing cs with
  | nil =>
    obtain rfl := Option.some.inj h
    rfl
  | cons c mark ih =>
    cases cs with
    | nil => exact absurd h nofun
    | cons d cs =>
      change (if c == d then mark.isPrefixOf? cs else none) = some rest at h
      split at h
      · have := ih h
        simp only [List.length_cons]
        omega
      · exact absurd h nofun

theorem length_of_stripEnd {mark cs rest : List Char}
    (h : Text.stripEnd mark cs = some rest) : rest.length + mark.length = cs.length := by
  unfold Text.stripEnd at h
  obtain ⟨r, hr, rfl⟩ := Option.map_eq_some_iff.1 h
  have := length_of_stripStart hr
  simpa using this

theorem length_of_elementOf {cs element : List Char} (h : elementOf cs = some element) :
    element.length < cs.length := by
  unfold elementOf at h
  cases he : Text.stripEnd ['[', ']'] cs with
  | some rest =>
    rw [he, Option.some_or, Option.some.injEq] at h
    have := length_of_stripEnd he
    subst h
    simp at this
    omega
  | none =>
    rw [he, Option.none_or] at h
    have := length_of_stripStart h
    simp at this
    omega

/-- A name in small letters without blanks around it. -/
def normalName (cs : List Char) : List Char :=
  Text.lower (Text.trim cs)

theorem length_normalName_le (cs : List Char) : (normalName cs).length ≤ cs.length := by
  unfold normalName Text.lower
  rw [List.length_map]
  exact length_trim_le cs

/-- The type that a name in the database stands for. -/
def ofNameChars (cs : List Char) : ColumnType :=
  match _h : elementOf (normalName cs) with
  | some element => .array (ofNameChars element)
  | none =>
    let (base, modifiers) := splitModifiers (normalName cs)
    ofBase (String.ofList base) modifiers
termination_by cs.length
decreasing_by exact Nat.lt_of_lt_of_le (length_of_elementOf _h) (length_normalName_le cs)

/-- The type that a name in the database stands for. -/
def ofName (name : String) : ColumnType :=
  ofNameChars name.toList

end ChangeFeed.ColumnType
