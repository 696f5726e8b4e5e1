import McpGateway.Shared.Canonical

/-!
# The hash chain of the audit log

Each row commits to the row before it: its hash is taken over the previous hash
followed by the canonical text of the row. Chains are per tenant, and the first
`prevHash` of a chain is derived from the tenant's id.
-/

namespace McpGateway.Audit

open Js Shared

/-- Domain separator, so a hash from this chain cannot be replayed elsewhere. -/
def chainDomain : JsString := js "mcpgateway:audit:v1"

inductive Decision
  | allow
  | deny
  deriving DecidableEq

def Decision.text : Decision → JsString
  | .allow => js "allow"
  | .deny => js "deny"

structure AuditRowInput where
  id : JsString
  ts : Date
  tenantId : JsString
  userId : JsString
  actorTokenJti : JsString
  mcpServer : JsString
  toolName : JsString
  argumentsHash : JsString
  decision : Decision
  denyReason : Option JsString
  latencyMs : JsNumber
  traceId : Option JsString
  deriving DecidableEq

def genesisText (tenantId : JsString) : JsString := chainDomain ++ js ":genesis:" ++ tenantId

def genesisHash (tenantId : JsString) : JsString := sha256Hex (genesisText tenantId)

def nullable : Option JsString → CanonicalValue
  | none => .null
  | some s => .string s

structure ChainLink extends AuditRowInput where
  prevHash : JsString
  rowHash : JsString
  seq : Option JsNumber := none
  deriving DecidableEq

inductive BreakReason
  | rowHashMismatch
  | prevHashMismatch
  | orderingViolation
  deriving DecidableEq

structure VerificationBreak where
  seq : Option JsNumber
  id : JsString
  tenantId : JsString
  reason : BreakReason
  expected : JsString
  actual : JsString
  deriving DecidableEq

structure ChainCheck where
  valid : Bool
  checked : Nat
  firstBreak : Option VerificationBreak
  deriving DecidableEq

section
variable (numberText : ℚ → JsString)

def canonicalRow (row : AuditRowInput) : Except JsError JsString := do
  let ts ← toISOString row.ts
  canonicalize numberText <| .object
    [(js "actor_token_jti", .string row.actorTokenJti),
      (js "arguments_hash", .string row.argumentsHash),
      (js "decision", .string row.decision.text),
      (js "deny_reason", nullable row.denyReason),
      (js "id", .string row.id),
      (js "latency_ms", .number row.latencyMs),
      (js "mcp_server", .string row.mcpServer),
      (js "tenant_id", .string row.tenantId),
      (js "tool_name", .string row.toolName),
      (js "trace_id", nullable row.traceId),
      (js "ts", .string ts),
      (js "user_id", .string row.userId)]

def computeRowHash (prevHash : JsString) (row : AuditRowInput) : Except JsError JsString := do
  return sha256Hex (prevHash ++ (← canonicalRow numberText row))

def verifyLink (link : ChainLink) (expectedPrevHash : JsString) :
    Except JsError (Option VerificationBreak) := do
  if link.prevHash ≠ expectedPrevHash then
    return some
      { seq := link.seq, id := link.id, tenantId := link.tenantId, reason := .prevHashMismatch
        expected := expectedPrevHash, actual := link.prevHash }
  let recomputed ← computeRowHash numberText link.prevHash link.toAuditRowInput
  if recomputed ≠ link.rowHash then
    return some
      { seq := link.seq, id := link.id, tenantId := link.tenantId, reason := .rowHashMismatch
        expected := recomputed, actual := link.rowHash }
  return none

def verifyFrom (expected : JsString) (checked : Nat) : List ChainLink → Except JsError ChainCheck
  | [] => .ok { valid := true, checked, firstBreak := none }
  | link :: links => do
    match ← verifyLink numberText link expected with
    | some failure => return { valid := false, checked, firstBreak := some failure }
    | none => verifyFrom link.rowHash (checked + 1) links

def verifyChain (tenantId : JsString) (links : List ChainLink) : Except JsError ChainCheck :=
  verifyFrom numberText (genesisHash tenantId) 0 links

end

end McpGateway.Audit
