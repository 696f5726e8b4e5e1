import McpGateway.Lib.Keyed
import McpGateway.RateLimit.ConfigStore
import McpGateway.RateLimit.RateBound

/-!
# The limiter

The key a scope has in Redis, what Redis keeps under it, and a call of `consume`
from the scope to the verdict. Redis runs a script at one reading of its clock
and takes a key for gone once its time has passed.
-/

namespace McpGateway.RateLimit

open Js Keyed

structure LimitScope where
  type : ScopeType
  tenantId : JsString
  userId : Option JsString := none
  toolName : Option JsString := none
  deriving DecidableEq, Repr

def bucketKey (scope : LimitScope) : JsString :=
  match scope.type with
  | .tenant => js "rl:\x7b" ++ scope.tenantId ++ js "\x7d:t"
  | .userTool =>
    js "rl:\x7b" ++ scope.tenantId ++ js "\x7d:u:" ++ scope.userId.getD (js "anonymous") ++ js ":" ++
      scope.toolName.getD (js "*")

def scopeLabel (scope : LimitScope) : JsString :=
  match scope.type with
  | .tenant => js "tenant:" ++ scope.tenantId
  | .userTool =>
    js "user:" ++ scope.userId.getD (js "anonymous") ++ js "/tool:" ++
      scope.toolName.getD (js "*")

structure LimitVerdict where
  allowed : Bool
  remaining : ℤ
  limit : ℚ
  retryAfterMs : ℚ
  scope : JsString
  key : JsString
  deriving DecidableEq, Repr

def toVerdict (raw : Reply) (scope key : JsString) : LimitVerdict where
  allowed := raw.allowed == 1
  remaining := raw.remaining
  retryAfterMs := raw.retryAfterMs
  limit := raw.limit
  scope := scope
  key := key

/-- What a caller passes to `consume`, with the reading of the limiter's own clock
when it has one. -/
structure ConsumeCall where
  scope : LimitScope
  config : BucketConfig
  cost : ℚ := 1
  now : Option ℚ := none
  deriving DecidableEq, Repr

def ConsumeCall.key (c : ConsumeCall) : JsString := bucketKey c.scope

def ConsumeCall.argv (c : ConsumeCall) : Argv := consumeArgs c.config c.cost c.now

def ConsumeCall.verdict (c : ConsumeCall) (raw : Reply) : LimitVerdict :=
  toVerdict raw (scopeLabel c.scope) c.key

-- ---------------------------------------------------------------------------
-- Redis
-- ---------------------------------------------------------------------------

abbrev Keyspace := JsString → Option Slot

def live (time : ServerTime) (slot : Option Slot) : Option Bucket :=
  (slot.filter fun s => decide (time.ms ≤ s.expiresAt)).map Slot.bucket

/-- A run of the script on the slot under its key. -/
def runScript (argv : Argv) (time : ServerTime) (slot : Option Slot) : Option Slot × Reply :=
  let (bucket, reply) := tokenBucket argv time (live time slot)
  (some ⟨bucket, time.ms + argv.ttlMs⟩, reply)

-- ---------------------------------------------------------------------------
-- consume
-- ---------------------------------------------------------------------------

/-- A call with the time its script runs at. -/
structure TimedCall extends ConsumeCall where
  time : ServerTime
  deriving DecidableEq, Repr

def TimedCall.act (c : TimedCall) (slot : Option Slot) : Option Slot × LimitVerdict :=
  let (slot, raw) := runScript c.argv c.time slot
  (slot, c.verdict raw)

def TimedCall.bucketKey (c : TimedCall) : JsString := c.key

/-- `consume`, with nothing else going on. -/
def consume (keys : Keyspace) (c : TimedCall) : Keyspace × LimitVerdict :=
  (next TimedCall.bucketKey TimedCall.act keys c, (c.act (keys c.bucketKey)).2)

def verdicts (keys : Keyspace) (calls : List TimedCall) : List (TimedCall × LimitVerdict) :=
  answers TimedCall.bucketKey TimedCall.act keys calls

end McpGateway.RateLimit
