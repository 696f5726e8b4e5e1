import McpGateway.Js.Json
import Mathlib.Algebra.Order.Floor.Ring
import Mathlib.Data.Rat.Floor

/-!
# The error taxonomy

Every deliberate failure is a `GatewayError`: a code, a message, a status and
the details a client may see. Each subclass is the function of its constructor's
arguments.
-/

namespace McpGateway.Shared

open Js

inductive ErrorCode
  | badRequest
  | unauthenticated
  | tokenExpired
  | permissionMirrorFailed
  | policyDenied
  | scopeDenied
  | rateLimited
  | upstreamUnavailable
  | upstreamError
  | auditChainBroken
  | configurationInvalid
  | notFound
  | internal
  deriving DecidableEq

def ErrorCode.text : ErrorCode → JsString
  | .badRequest => js "bad_request"
  | .unauthenticated => js "unauthenticated"
  | .tokenExpired => js "token_expired"
  | .permissionMirrorFailed => js "permission_mirror_failed"
  | .policyDenied => js "policy_denied"
  | .scopeDenied => js "scope_denied"
  | .rateLimited => js "rate_limited"
  | .upstreamUnavailable => js "upstream_unavailable"
  | .upstreamError => js "upstream_error"
  | .auditChainBroken => js "audit_chain_broken"
  | .configurationInvalid => js "configuration_invalid"
  | .notFound => js "not_found"
  | .internal => js "internal_error"

structure GatewayError where
  code : ErrorCode
  message : JsString
  status : Nat := 500
  details : List (JsString × Json) := []
  /-- Seconds a client should wait before retrying. Surfaced as `Retry-After`. -/
  retryAfterSeconds : Option ℤ := none

/-- What a `throw` carries: a deliberate failure, or anything else with the message
it has when it is an `Error`. -/
inductive Thrown
  | gateway (e : GatewayError)
  | other (message : Option JsString)

def badRequestError (message : JsString) (details : List (JsString × Json) := []) : GatewayError :=
  { code := .badRequest, message, status := 400, details }

def unauthenticatedError (message : JsString := js "A valid bearer token is required") :
    GatewayError :=
  { code := .unauthenticated, message, status := 401 }

def permissionMirrorError (message : JsString) (details : List (JsString × Json) := []) :
    GatewayError :=
  { code := .permissionMirrorFailed, message, status := 403, details }

def policyDeniedError (message : JsString) (details : List (JsString × Json) := []) :
    GatewayError :=
  { code := .policyDenied, message, status := 403, details }

def scopeDeniedError (required held : List JsString) : GatewayError :=
  { code := .scopeDenied
    message := js "Missing required scope: " ++ List.intercalate (js ", ") required
    status := 403
    details :=
      [(js "required", .array (required.map .string)), (js "held", .array (held.map .string))] }

def rateLimitedError (retryAfterMs : ℚ) (details : List (JsString × Json) := []) : GatewayError :=
  { code := .rateLimited
    message := js "Rate limit exceeded"
    status := 429
    details := Json.setProp (js "retryAfterMs") (.number (.finite retryAfterMs)) details
    retryAfterSeconds := some (max 1 ⌈retryAfterMs / 1000⌉) }

def upstreamUnavailableError (target : JsString) : GatewayError :=
  { code := .upstreamUnavailable, message := js "Upstream '" ++ target ++ js "' is unavailable"
    status := 503, details := [(js "target", .string target)] }

def upstreamError (target message : JsString) (details : List (JsString × Json) := []) :
    GatewayError :=
  { code := .upstreamError, message, status := 502
    details := details.foldl (fun props p => Json.setProp p.1 p.2 props) [(js "target", .string target)] }

def configurationError (message : JsString) (details : List (JsString × Json) := []) :
    GatewayError :=
  { code := .configurationInvalid, message, status := 500, details }

def notFoundError (what : JsString) : GatewayError :=
  { code := .notFound, message := what ++ js " was not found", status := 404 }

def typeError : Thrown := .other (some (js "Cannot convert object to primitive value"))

def converted {α : Type} : Option α → Except Thrown α
  | some a => .ok a
  | none => .error typeError

/-- Normalise anything thrown into a `GatewayError`. -/
def toGatewayError : Thrown → GatewayError
  | .gateway e => e
  | .other message => { code := .internal, message := message.getD (js "Unexpected error") }

end McpGateway.Shared
