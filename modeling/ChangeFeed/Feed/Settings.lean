/-!
# Settings of a feed

Which slot a feed reads for which job, whether it groups changes by transaction, and how it gets
over failures of its sessions. Times are in milliseconds.
-/

namespace ChangeFeed

/-- How a feed gets over failures of its sessions. -/
structure ReconnectPolicy where
  /-- The failures in a row after which the feed gives up. -/
  maxAttempts : Nat
  /-- The wait between a failure and the next session. -/
  backoff : Nat
  /-- The wait after nothing was pending. -/
  idleBackoff : Nat
  deriving DecidableEq, Repr

/-- The settings of a feed. -/
structure FeedSettings where
  jobId : String
  slot : String
  /-- Whether a transaction is delivered as a whole after its commit. -/
  grouped : Bool
  reconnect : ReconnectPolicy
  deriving DecidableEq, Repr

end ChangeFeed
