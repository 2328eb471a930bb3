import ChangeFeed.Number.Integer
import ChangeFeed.Text.Unshown

/-!
# Quoted texts

The form in which diagnostics show a text or a single character: between quotes, with escapes for
the quote itself, the backslash and whatever has no shape of its own.
-/

namespace ChangeFeed.Text

/-- A character inside a text that stands between `quote`s. -/
def quotedChar (quote c : Char) : List Char :=
  match c with
  | '\t' => ['\\', 't']
  | '\n' => ['\\', 'n']
  | '\r' => ['\\', 'r']
  | '\x00' => ['\\', '0']
  | '\\' => ['\\', '\\']
  | _ =>
    if c = quote then ['\\', c]
    else if isUnshown c then ['\\', 'u', '{'] ++ Number.digits 16 c.toNat ++ ['}']
    else [c]

/-- A text between double quotes. -/
def quoted (text : String) : String :=
  String.ofList ('"' :: text.toList.flatMap (quotedChar '"') ++ ['"'])

/-- A character between single quotes. -/
def quotedSingle (c : Char) : String :=
  String.ofList ('\'' :: quotedChar '\'' c ++ ['\''])

end ChangeFeed.Text
