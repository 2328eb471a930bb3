import ChangeFeed.Plugin.LineForm
import ChangeFeed.Plugin.RowForm

/-!
# Decoding plugins

A slot is created with one of two output plugins. The plugin settles the options of the slot and
the form of its messages.
-/

namespace ChangeFeed

/-- The output plugin of a slot. -/
inductive Plugin where
  | testDecoding
  | mppdbDecoding
  deriving DecidableEq, Repr

namespace Plugin

/-- The plugin that is taken where none is named. -/
def default : Plugin := .testDecoding

/-- The name of a plugin on the server and in settings. -/
def name : Plugin → String
  | .testDecoding => "test_decoding"
  | .mppdbDecoding => "mppdb_decoding"

/-- The plugin of a name. -/
def ofName? : String → Option Plugin
  | "test_decoding" => some .testDecoding
  | "mppdb_decoding" => some .mppdbDecoding
  | _ => none

/-- What is said about a name of no plugin. -/
def unknownMessage (name : String) : String :=
  "unknown decoding plugin '" ++ name ++ "' (expected test_decoding or mppdb_decoding)"

/-- The options with which changes are read from a slot. -/
def slotOptions : Plugin → List (String × String)
  | .testDecoding => [("include-xids", "1"), ("include-timestamp", "1"), ("skip-empty-xacts", "1")]
  | .mppdbDecoding => [("include-xids", "1"), ("skip-empty-xacts", "1")]

/-- The event of a message that the server reported at a position. -/
def decode (plugin : Plugin) (position : Position) (bytes : List UInt8) :
    Except DecodeError Event :=
  match Text.ofUtf8 bytes with
  | .error fault => .error (.utf8 position fault)
  | .ok cs =>
    match plugin with
    | .testDecoding => LineForm.read position cs
    | .mppdbDecoding => RowForm.read position cs

end Plugin

end ChangeFeed
