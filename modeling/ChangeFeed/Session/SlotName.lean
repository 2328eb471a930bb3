import ChangeFeed.Digest.Sha256
import ChangeFeed.Number.Hex
import ChangeFeed.Text.Utf8

/-!
# Names of replication slots

A job on a database has a slot of its own, named by a digest. The name is short enough for an
identifier of the server and needs no quotes.
-/

namespace ChangeFeed.SlotName

/-- The text whose digest names the slot. -/
def key (database jobId : String) : String :=
  database ++ "_" ++ jobId

/-- The digits of the digest that the name holds. -/
def digits (database jobId : String) : List Char :=
  (Number.writeHex (Digest.Sha256.hash (Text.toUtf8 (key database jobId).toList))).take 32

/-- The slot of a job on a database. -/
def ofJob (database jobId : String) : String :=
  "pipeline_" ++ String.ofList (digits database jobId)

end ChangeFeed.SlotName
