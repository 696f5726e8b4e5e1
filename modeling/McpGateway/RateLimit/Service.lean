import McpGateway.RateLimit.Limiter

/-!
# The two buckets of a call

One bucket for the caller and the tool, one for the tenant. The narrower bucket
is charged first, and the tenant's only when it admits the call.
-/

namespace McpGateway.RateLimit

open Js

structure RateLimitRequest where
  tenantId : JsString
  userId : JsString
  toolName : JsString
  tier : Option JsString := none
  cost : Option ℚ := none
  deriving DecidableEq, Repr

structure RateLimitOutcome where
  allowed : Bool
  /-- The verdict that decided the outcome. -/
  verdict : LimitVerdict
  checked : List LimitVerdict
  deriving DecidableEq, Repr

/-- The clocks one script run reads. -/
structure Reading where
  now : Option ℚ := none
  time : ServerTime
  deriving DecidableEq, Repr

def Reading.clock (r : Reading) : ℚ := RateLimit.clock (r.now.getD 0) r.time

namespace RateLimitRequest

variable (request : RateLimitRequest)

def userScope : LimitScope :=
  ⟨.userTool, request.tenantId, some request.userId, some request.toolName⟩

def tenantScope : LimitScope := { type := .tenant, tenantId := request.tenantId }

def charge (scope : LimitScope) (config : BucketConfig) (reading : Reading) : TimedCall :=
  ⟨⟨scope, config, request.cost.getD 1, reading.now⟩, reading.time⟩

end RateLimitRequest

/-- The body of `check`, for the limits that were resolved. -/
def checkLimits (limits : ResolvedLimits) (request : RateLimitRequest) (userAt tenantAt : Reading)
    (keys : Keyspace) : Keyspace × RateLimitOutcome :=
  let (keys, userVerdict) :=
    consume keys (request.charge request.userScope limits.userTool userAt)
  if !userVerdict.allowed then (keys, ⟨false, userVerdict, [userVerdict]⟩)
  else
    let (keys, tenantVerdict) :=
      consume keys (request.charge request.tenantScope limits.tenant tenantAt)
    (keys, ⟨tenantVerdict.allowed, if tenantVerdict.allowed then userVerdict else tenantVerdict,
      [userVerdict, tenantVerdict]⟩)

/-- `check`, over the rows a replica has installed. -/
def check (index : Index) (fallback : ResolvedLimits) (request : RateLimitRequest)
    (userAt tenantAt : Reading) (keys : Keyspace) : Keyspace × RateLimitOutcome :=
  checkLimits
    (resolve index fallback request.tenantId request.toolName (request.tier.getD (js "default")))
    request userAt tenantAt keys

end McpGateway.RateLimit
