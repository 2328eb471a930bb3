import ChangeFeed.Plugin.Fault
import ChangeFeed.RateLimit
import ChangeFeed.Session.Fault

/-!
# Feed faults

What can end the reading of a slot. Only a session fault is overcome, by a new session.
-/

namespace ChangeFeed

/-- A fault of a feed. -/
inductive FeedFault where
  | session (fault : SessionFault)
  | exhausted (attempts : Nat) (last : SessionFault)
  | decode (error : DecodeError)
  | metadataUnavailable (table : String) (column : Option String)
  | conversion (table column : String) (error : ValueError)
  | unsupportedSource (reason : String)
  | channelClosed
  | rateLimit (fault : RateLimitFault)
  deriving DecidableEq

namespace FeedFault

/-- The wording of a fault. -/
def message : FeedFault → String
  | .session fault => "replication session failed: " ++ fault.message
  | .exhausted attempts last =>
    "giving up after " ++ Number.decimal attempts ++ " consecutive session failures: " ++
      last.message
  | .decode error => error.message
  | .metadataUnavailable table none => "metadata unavailable for table '" ++ table ++ "'"
  | .metadataUnavailable table (some column) =>
    "metadata unavailable for column '" ++ column ++ "' of table '" ++ table ++ "'"
  | .conversion table column error =>
    "cannot convert " ++ table ++ "." ++ column ++ ": " ++ error.message
  | .unsupportedSource reason => "unsupported data source configuration: " ++ reason
  | .channelClosed => "pipeline channel closed by the consumer"
  | .rateLimit fault => fault.message

/-- Whether a new session overcomes the fault. -/
def isTransient : FeedFault → Bool
  | .session _ => true
  | _ => false

/-- A fault as a failure. -/
def failure (fault : FeedFault) : Failure :=
  ⟨.message fault.message :: match fault with
    | .session reason => reason.chain
    | .exhausted _ last => last.chain
    | .decode (.utf8 _ reason) => [.message reason.message]
    | .conversion _ _ error => [.message error.message]
    | _ => []⟩

end FeedFault

end ChangeFeed
