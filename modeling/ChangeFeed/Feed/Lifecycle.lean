import ChangeFeed.Number.Integer

/-!
# The life of a feed

The states that an observer of a feed sees. A feed that is asked to stop stays in that state until
it has ended.
-/

namespace ChangeFeed

/-- The state of a feed. -/
inductive Lifecycle where
  | created
  | running
  /-- Waiting for the next session after a number of failures in a row. -/
  | reconnecting (attempt : Nat)
  | stopping
  | stopped
  | failed
  deriving DecidableEq, Repr

namespace Lifecycle

/-- How diagnostics show a state. -/
def shown : Lifecycle → String
  | .created => "Created"
  | .running => "Running"
  | .reconnecting attempt =>
    "Reconnecting \x7b attempt: " ++ Number.decimal attempt ++ " \x7d"
  | .stopping => "Stopping"
  | .stopped => "Stopped"
  | .failed => "Failed"

/-- Whether the feed reads or is about to read again. -/
def isActive : Lifecycle → Bool
  | .running => true
  | .reconnecting _ => true
  | _ => false

/-- The state after the feed wants to change it. -/
def moveTo (next current : Lifecycle) : Lifecycle :=
  if current = .stopping ∧ next.isActive then current else next

/-- The state after somebody asks the feed to stop. -/
def askToStop (current : Lifecycle) : Lifecycle :=
  if current.isActive then .stopping else current

end Lifecycle

end ChangeFeed
