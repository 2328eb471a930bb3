import ChangeFeed.Json.Shape
import ChangeFeed.Number.Integer

/-!
# Rate limits

A limit governs either the rows that are written or the queries, each by a number per second. A
limiter lets every operation pass that its algorithm does not govern; the others it spaces out,
which takes time and changes nothing else.
-/

namespace ChangeFeed

/-- What a record asks of the target. -/
inductive Operation where
  | insert
  | update
  | delete
  | select
  deriving DecidableEq, Repr

namespace Operation

/-- The name of an operation. -/
def name : Operation → String
  | .insert => "INSERT"
  | .update => "UPDATE"
  | .delete => "DELETE"
  | .select => "SELECT"

/-- The operation of a name. -/
def ofName? : String → Option Operation
  | "INSERT" => some .insert
  | "UPDATE" => some .update
  | "DELETE" => some .delete
  | "SELECT" => some .select
  | _ => none

/-- Whether the operation writes. -/
def isWrite : Operation → Bool
  | .select => false
  | _ => true

/-- The operation that a document holds. -/
def ofJson? (json : Json) : Option Operation :=
  (Json.nameOf ["INSERT", "UPDATE", "DELETE", "SELECT"] json).bind ofName?

end Operation

/-- What a limit governs. -/
inductive RateAlgorithm where
  | queries
  | rows
  deriving DecidableEq, Repr

/-- The name of an algorithm. -/
def RateAlgorithm.name : RateAlgorithm → String
  | .queries => "QPS"
  | .rows => "TPS"

/-- A limit as it is set. -/
structure RateLimit where
  algorithm : RateAlgorithm
  perSecond : Int64
  deriving DecidableEq

/-- A limit that is no positive number of 32 bits. -/
structure RateLimitFault where
  limit : RateLimit
  deriving DecidableEq

/-- The wording of a limit fault. -/
def RateLimitFault.message (fault : RateLimitFault) : String :=
  fault.limit.algorithm.name ++ " rate limit must be a positive integer, got " ++
    Number.decimalInt fault.limit.perSecond.toInt

namespace RateLimit

/-- The name of the number in documents. -/
def field (limit : RateLimit) : String :=
  match limit.algorithm with
  | .queries => "qps"
  | .rows => "tps"

/-- A limit as a document. -/
def toJson (limit : RateLimit) : Json :=
  .object [("type", .text limit.algorithm.name),
    (limit.field, .integer limit.perSecond.toInt)]

/-- The limit that a document holds. -/
def ofJson? (json : Json) : Option RateLimit := do
  let (name, body) ← Json.tagged "type" ["QPS", "TPS"] false json
  let algorithm := if name = "QPS" then RateAlgorithm.queries else .rows
  let [some perSecond] ← Json.members [(field ⟨algorithm, 0⟩, .required)] body | none
  let n ← perSecond.toInteger? (-Nat.pow 2 63) (Nat.pow 2 63 - 1)
  return ⟨algorithm, Int64.ofInt n⟩

end RateLimit

/-- A limiter at work. -/
structure RateLimiter where
  algorithm : RateAlgorithm
  perSecond : UInt32
  deriving DecidableEq

namespace RateLimiter

/-- The limiter of a limit. -/
def ofLimit (limit : RateLimit) : Except RateLimitFault RateLimiter :=
  let n := limit.perSecond.toInt
  if 0 < n ∧ n < Nat.pow 2 32 then .ok ⟨limit.algorithm, UInt32.ofNat n.toNat⟩
  else .error ⟨limit⟩

/-- Whether the limiter spaces an operation out. -/
def governs (limiter : RateLimiter) (operation : Operation) : Bool :=
  operation.isWrite == (limiter.algorithm == .rows)

/-- The portions in which a number of operations is admitted, none above one second's worth. -/
def portionsWithin (perSecond : Nat) : Nat → Nat → List Nat
  | 0, _ => []
  | fuel + 1, remaining =>
    if remaining = 0 then []
    else
      let portion := min remaining perSecond
      portion :: portionsWithin perSecond fuel (remaining - portion)

/-- What the limiter asks for before a number of operations may proceed. -/
def portions (limiter : RateLimiter) (operation : Operation) (count : Nat) : List Nat :=
  if limiter.governs operation then portionsWithin limiter.perSecond.toNat count count else []

/-- How diagnostics show a limiter. -/
def shown (limiter : RateLimiter) : String :=
  "JobRateLimiter \x7b algorithm: \"" ++ limiter.algorithm.name ++ "\", per_second: " ++
    Number.decimal limiter.perSecond.toNat ++ " \x7d"

end RateLimiter

end ChangeFeed
