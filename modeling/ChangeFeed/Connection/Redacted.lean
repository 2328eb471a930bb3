import ChangeFeed.Text.Blank
import ChangeFeed.Text.Cut

/-!
# Connection strings without passwords

How a connection string is shown. In a URL the part of the user information behind its first colon
is hidden; elsewhere the words that set a password are, and blanks shrink to single spaces.
-/

namespace ChangeFeed.Connection

/-- A word that sets a password, with its value hidden. -/
def redactedWord (word : List Char) : String :=
  if "password=".toList.isPrefixOf (Text.lower word) then "password=***"
  else String.ofList word

/-- A URL from behind its scheme on, with the password hidden. -/
def redactedAuthority (rest : List Char) : Option (List Char) := do
  let isEnd := fun c => c == '/' || c == '?'
  let authority := rest.takeWhile fun c => !isEnd c
  let tail := rest.dropWhile fun c => !isEnd c
  let (userInfo, host) ← Text.cutAtLast '@' authority
  let (user, _) ← Text.cutAt ':' userInfo
  return user ++ ":***@".toList ++ host ++ tail

/-- A connection string as it is shown. -/
def redacted (text : String) : String :=
  match Text.cutAtText "://".toList text.toList with
  | some (scheme, rest) =>
    match redactedAuthority rest with
    | some shown => String.ofList (scheme ++ "://".toList ++ shown)
    | none => text
  | none => Text.joined " " ((Text.words text.toList).map redactedWord)

end ChangeFeed.Connection
