/-!
# Cutting texts

Splitting a text at the first or last occurrence of a character or of a shorter text. The parts
and the separator always make up the text that was cut.
-/

namespace ChangeFeed.Text

/-- What stands before and after the first character that satisfies the test. -/
def cutWhere (test : Char → Bool) : List Char → Option (List Char × Char × List Char)
  | [] => none
  | c :: rest =>
    if test c then some ([], c, rest)
    else (cutWhere test rest).map fun (before, found, after) => (c :: before, found, after)

/-- What stands before and after the first occurrence of a character. -/
def cutAt (separator : Char) (cs : List Char) : Option (List Char × List Char) :=
  (cutWhere (· == separator) cs).map fun (before, _, after) => (before, after)

/-- What stands before and after the last occurrence of a character. -/
def cutAtLast (separator : Char) (cs : List Char) : Option (List Char × List Char) :=
  (cutAt separator cs.reverse).map fun (after, before) => (before.reverse, after.reverse)

/-- What follows a given beginning. -/
def stripStart (start cs : List Char) : Option (List Char) :=
  start.isPrefixOf? cs

/-- What precedes a given end. -/
def stripEnd (ending cs : List Char) : Option (List Char) :=
  (ending.reverse.isPrefixOf? cs.reverse).map List.reverse

/-- What stands before and after the first occurrence of a text. -/
def cutAtText (separator : List Char) : List Char → Option (List Char × List Char)
  | [] => if separator.isEmpty then some ([], []) else none
  | c :: rest =>
    match stripStart separator (c :: rest) with
    | some after => some ([], after)
    | none => (cutAtText separator rest).map fun (before, after) => (c :: before, after)

/-- The parts between all occurrences of a character; there is always one part more. -/
def parts (separator : Char) (cs : List Char) : List (List Char) :=
  cs.splitOn separator

/-- The letters `A` to `Z` become small and all else stays. -/
def lower (cs : List Char) : List Char :=
  cs.map Char.toLower

/-- Texts joined with a separator between neighbours. -/
def joined (separator : String) (texts : List String) : String :=
  separator.intercalate texts

end ChangeFeed.Text
