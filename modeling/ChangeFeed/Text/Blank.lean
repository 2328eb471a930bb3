/-!
# Blanks

The white space of texts: which characters count as blank, trimming, and the words between
blanks.
-/

namespace ChangeFeed.Text

/-- The characters with the `White_Space` property. -/
def isBlank (c : Char) : Bool :=
  let n := c.toNat
  (9 ≤ n && n ≤ 13) || n == 0x20 || n == 0x85 || n == 0xA0 || n == 0x1680 ||
    (0x2000 ≤ n && n ≤ 0x200A) || n == 0x2028 || n == 0x2029 || n == 0x202F || n == 0x205F ||
    n == 0x3000

/-- The blanks below `0x80`, without the vertical tab: what separates bytes that are not text. -/
def isAsciiBlank (c : Char) : Bool :=
  c == ' ' || c == '\t' || c == '\n' || c == '\x0c' || c == '\r'

/-- The text from its first character that is not blank. -/
def trimStart (cs : List Char) : List Char :=
  cs.dropWhile isBlank

/-- The text up to its last character that is not blank. -/
def trimEnd (cs : List Char) : List Char :=
  (cs.reverse.dropWhile isBlank).reverse

/-- The text without the blanks at both ends. -/
def trim (cs : List Char) : List Char :=
  trimEnd (trimStart cs)

/-- The longest runs of characters that are not blank, in order. -/
def words (cs : List Char) : List (List Char) :=
  go cs []
where
  /-- The words of `current`, read backwards so far, and the text after it. -/
  go : List Char → List Char → List (List Char)
    | [], [] => []
    | [], current => [current.reverse]
    | c :: rest, current =>
      if isBlank c then
        if current.isEmpty then go rest [] else current.reverse :: go rest []
      else go rest (c :: current)

end ChangeFeed.Text
