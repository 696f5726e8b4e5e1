import McpGateway.Audit.Writer
import McpGateway.Gateway.Catalog
import McpGateway.Gateway.Mints
import McpGateway.Gateway.Upstream
import McpGateway.Lib.Staged
import McpGateway.RateLimit.Service

/-!
# The enforcement path

One tool call, from its token to its audit row. The stages run in a fixed order;
what one of them throws goes to the error handler. The services are what a stage
meets outside: each may answer in any way, given all that happened before.
-/

namespace McpGateway.Gateway

open Js Shared Auth Audit RateLimit Staged

structure TenantRecord where
  id : JsString
  name : JsString
  plan : JsString

structure PolicyDecision where
  decision : Decision
  ruleId : JsString
  reason : JsString
  rateTier : Option JsString

structure RateLimitVerdict where
  allowed : Bool
  remaining : ℤ
  limit : ℚ
  retryAfterMs : ℚ
  scope : JsString

structure InvocationState where
  server : McpTarget
  tool : JsString
  args : List (JsString × Json)
  startedAt : ℚ
  policy : Option PolicyDecision := none
  rateLimit : Option RateLimitVerdict := none
  tokenExchange : Option MirroredToken := none
  decision : Decision := .allow
  denyReason : Option JsString := none
  upstreamLatencyMs : Option ℚ := none
  audited : Bool := false

structure InvocationEvent where
  id : JsString
  ts : JsString
  tenantId : JsString
  tenantName : Option JsString
  userId : JsString
  userName : Option JsString
  server : McpTarget
  tool : JsString
  decision : Decision
  denyReason : Option JsString
  latencyMs : ℤ
  traceId : Option JsString
  tokenExchange : Option MirroredToken
  policy : Option PolicyDecision
  rateLimit : Option RateLimitVerdict

/-- What the gateway does outside itself while it handles a request, with the outcome. -/
inductive Effect
  | clock (now : ℚ)
  | session (id : Option JsString) (outcome : Except Thrown (Option JsString))
  | verified (token : JsString) (outcome : Except Thrown Principal)
  | tenant (id : JsString) (outcome : Except Thrown (Option TenantRecord))
  | checked (request : RateLimitRequest) (outcome : Except Thrown RateLimitOutcome)
  | minted (input : MintInput) (outcome : Except Thrown MirroredToken)
  | called (call : UpstreamToolCall) (outcome : Except Thrown UpstreamToolResult)
  | appended (input : AppendAuditInput) (outcome : Except Thrown Unit)
  | published (event : InvocationEvent) (outcome : Except Thrown Unit)

/-- The services, each with what it answers after a history. -/
structure GatewayServices where
  engine : Engine
  targetUrl : McpTarget → JsString
  performanceNow : List Effect → ℚ
  isoNow : List Effect → JsString
  currentTraceId : List Effect → Option JsString
  /-- The access token behind a session id. -/
  session : List Effect → Option JsString → Except Thrown (Option JsString)
  verifyAccessToken : List Effect → JsString → Except Thrown Principal
  /-- The tenant row the process still holds. -/
  cachedTenant : List Effect → JsString → Option TenantRecord
  selectTenant : List Effect → JsString → Except Thrown (Option TenantRecord)
  checkRateLimit : List Effect → RateLimitRequest → Except Thrown RateLimitOutcome
  mint : List Effect → MintInput → Except Thrown MirroredToken
  callTool : List Effect → UpstreamToolCall → Except Thrown CallToolResult
  append : List Effect → AppendAuditInput → Except Thrown Unit
  /-- `invocationEventSchema.parse` and `stream.publish`. -/
  publish : List Effect → InvocationEvent → Except Thrown Unit

structure ToolRequest where
  requestId : JsString
  authorization : Option JsString
  sessionCookie : Option JsString
  server : JsString
  tool : JsString
  body : Option Json

structure Handling where
  principal : Option Principal := none
  inboundToken : Option JsString := none
  tenant : Option TenantRecord := none
  invocation : Option InvocationState := none
  headers : List (JsString × JsString) := []
  log : List Effect := []

abbrev Stage := Throwing Handling Thrown

/-- Meet a service, and record what came of it. -/
def perform {α : Type} (ask : List Effect → Except Thrown α) (effect : Except Thrown α → Effect) :
    Stage α := do
  let s ← get
  modify fun s => { s with log := s.log ++ [effect (ask s.log)] }
  match ask s.log with
  | .ok a => return a
  | .error e => throw e

def updateInvocation (f : InvocationState → InvocationState) : Stage Unit :=
  modify fun s => { s with invocation := s.invocation.map f }

def header (name value : JsString) : Stage Unit :=
  modify fun s => { s with headers := s.headers ++ [(name, value)] }

section
variable (services : GatewayServices)

/-- `performance.now()`. -/
def performanceNow : Stage ℚ := do
  let s ← get
  let now := services.performanceNow s.log
  modify fun s => { s with log := s.log ++ [.clock now] }
  return now

def callUpstreamTool (call : UpstreamToolCall) : Stage UpstreamToolResult := do
  let startedAt ← performanceNow services
  perform
    (fun log => upstreamOutcome services.engine call (serverId call.server)
      (services.callTool log call) (services.performanceNow log - startedAt))
    (.called call)

-- ---------------------------------------------------------------------------
-- Authentication and the tenant
-- ---------------------------------------------------------------------------

def extractBearer (authorization : Option JsString) : Option JsString :=
  match authorization with
  | none => none
  | some value =>
    let scheme := value.takeWhile (· ≠ blank)
    if toLowerCase scheme ≠ js "bearer" then none
    else
      let token := trim (value.drop (scheme.length + 1))
      if token.length > 0 then some token else none

/-- The token presented: a bearer credential, else the one behind the session. -/
def presentedToken (request : ToolRequest) : Stage (Option JsString) := do
  match extractBearer request.authorization with
  | some token => return some token
  | none =>
    let session ← perform (services.session · request.sessionCookie) (.session request.sessionCookie)
    return session.filter (· ≠ [])

def authenticate (request : ToolRequest) : Stage Unit := do
  match ← presentedToken services request with
  | none =>
    throw (.gateway (unauthenticatedError
      (js "Present an access token as a bearer credential, or sign in to the console.")))
  | some token =>
    let principal ← perform (services.verifyAccessToken · token) (.verified token)
    modify fun s => { s with principal := some principal, inboundToken := some token }

def resolveTenant : Stage Unit := do
  let s ← get
  match s.principal with
  | none =>
    throw (.gateway (unauthenticatedError (js "Tenant context requires an authenticated caller")))
  | some principal =>
    match services.cachedTenant s.log principal.tenantId with
    | some record => modify fun s => { s with tenant := some record }
    | none =>
      match ← perform (services.selectTenant · principal.tenantId) (.tenant principal.tenantId) with
      | none => throw (.gateway (notFoundError (js "Tenant " ++ principal.tenantId)))
      | some record => modify fun s => { s with tenant := some record }

-- ---------------------------------------------------------------------------
-- The invocation
-- ---------------------------------------------------------------------------

/-- `callSchema`: what it does not accept counts as no arguments. -/
def callArguments (body : Option Json) : List (JsString × Json) :=
  match body with
  | some (.object props) =>
    match props.lookup (js "arguments") with
    | some (.object arguments) => arguments
    | _ => []
  | _ => []

def establishInvocation (request : ToolRequest) : Stage Unit := do
  match serverOf request.server with
  | none => throw (.gateway (notFoundError (js "Server or tool")))
  | some server =>
    if request.tool = [] then throw (.gateway (notFoundError (js "Server or tool")))
    else
      match (findTool request.tool).filter fun entry => decide (entry.server = server) with
      | none => throw (.gateway (notFoundError (js "Tool " ++ request.tool)))
      | some entry =>
        let startedAt ← performanceNow services
        modify fun s =>
          { s with
            invocation := some
              { server, tool := request.tool, args := callArguments request.body, startedAt } }
        let s ← get
        let held := (s.principal.map Principal.scopes).getD []
        let missing := missingFrom held entry
        if missing ≠ [] then
          updateInvocation fun i =>
            { i with
              decision := .deny
              denyReason := some (js "scope:" ++ List.intercalate (js ",") missing) }
          throw (.gateway (scopeDeniedError missing held))
        else return ()

-- ---------------------------------------------------------------------------
-- The rate limit
-- ---------------------------------------------------------------------------

def rateLimitRequest (principal : Principal) (invocation : InvocationState) : RateLimitRequest where
  tenantId := principal.tenantId
  userId := principal.subject
  toolName := invocation.tool
  tier := (invocation.policy.bind PolicyDecision.rateTier).filter (· ≠ [])

def verdictOf (outcome : RateLimitOutcome) : RateLimitVerdict where
  allowed := outcome.allowed
  remaining := outcome.verdict.remaining
  limit := outcome.verdict.limit
  retryAfterMs := outcome.verdict.retryAfterMs
  scope := outcome.verdict.scope

def rateLimitStage : Stage Unit := do
  let s ← get
  match s.principal, s.invocation with
  | some principal, some invocation =>
    let request := rateLimitRequest principal invocation
    let outcome ← perform (services.checkRateLimit · request) (.checked request)
    updateInvocation fun i => { i with rateLimit := some (verdictOf outcome) }
    header (js "x-ratelimit-limit") (services.engine.numberText outcome.verdict.limit)
    header (js "x-ratelimit-remaining") (integerText (max 0 outcome.verdict.remaining))
    header (js "x-ratelimit-scope") outcome.verdict.scope
    if outcome.allowed then return ()
    else
      updateInvocation fun i =>
        { i with
          decision := .deny
          denyReason := some (js "rate_limit:" ++ outcome.verdict.scope) }
      throw (.gateway (rateLimitedError outcome.verdict.retryAfterMs
        [(js "scope", .string outcome.verdict.scope),
          (js "limit", .number (.finite outcome.verdict.limit))]))
  | _, _ => return ()

-- ---------------------------------------------------------------------------
-- The policy
-- ---------------------------------------------------------------------------

def evaluationArguments (principal : Principal) (tenant : TenantRecord)
    (invocation : InvocationState) : List (JsString × Json) :=
  [(js "tool", .string invocation.tool),
    (js "server", .string (serverId invocation.server)),
    (js "bundle", .string (js "baseline")),
    (js "principal", .object
      [(js "subject", .string principal.subject),
        (js "tenantId", .string principal.tenantId),
        (js "role", .string principal.role.text),
        (js "scopes", .array (principal.scopes.map .string)),
        (js "territory", .null)]),
    (js "tenant", .object [(js "id", .string tenant.id), (js "plan", .string tenant.plan)]),
    (js "arguments", .object invocation.args)]

def evaluationCall (principal : Principal) (tenant : TenantRecord) (invocation : InvocationState)
    (accessToken : JsString) : UpstreamToolCall where
  url := services.targetUrl .policyEngine
  server := .policyEngine
  toolName := js "policy.evaluate"
  arguments := evaluationArguments principal tenant invocation
  accessToken
  timeoutMs := 5000

/-- `decisionSchema`. -/
def decisionOf : Option Json → Option Decision
  | some (.string text) => [.allow, .deny].find? fun decision => decide (decision.text = text)
  | _ => none

/-- `policyDecisionSchema`, of what the engine returned. -/
def parseDecision (structured : List (JsString × Json)) : Option PolicyDecision := do
  let decision ← decisionOf (structured.lookup (js "decision"))
  let rateTier ← match structured.lookup (js "rateTier") with
    | none | some .null => some none
    | some (.string tier) => some (some tier)
    | _ => none
  match structured.lookup (js "ruleId"), structured.lookup (js "reason") with
  | some (.string ruleId), some (.string reason) => some { decision, ruleId, reason, rateTier }
  | _, _ => none

def readDecision (result : UpstreamToolResult) : Except Thrown PolicyDecision :=
  match if result.isError then none else result.structured with
  | none => .error (.gateway (upstreamError (serverId .policyEngine)
      (js "Policy evaluation did not return a decision")
      [(js "detail", .string (result.text.take 500))]))
  | some structured =>
    match parseDecision structured with
    | none => .error (.gateway (upstreamError (serverId .policyEngine)
        (js "Policy decision failed validation")))
    | some decision => .ok decision

def policyStage : Stage Unit := do
  let s ← get
  match s.principal, s.tenant, s.invocation with
  | some principal, some tenant, some invocation =>
    let input := policyStageMint principal s.inboundToken
    let policyToken ← perform (services.mint · input) (.minted input)
    let result ← callUpstreamTool services
      (evaluationCall services principal tenant invocation policyToken.accessToken)
    match readDecision result with
    | .error e => throw e
    | .ok decision =>
      updateInvocation fun i => { i with policy := some decision }
      match decision.decision with
      | .allow => return ()
      | .deny =>
        updateInvocation fun i =>
          { i with
            decision := .deny
            denyReason := some (js "policy:" ++ decision.ruleId) }
        throw (.gateway (policyDeniedError decision.reason
          [(js "ruleId", .string decision.ruleId), (js "tool", .string invocation.tool)]))
  | _, _, _ => return ()

-- ---------------------------------------------------------------------------
-- The token exchange
-- ---------------------------------------------------------------------------

def tokenExchangeStage : Stage Unit := do
  let s ← get
  match s.principal, s.invocation with
  | some principal, some invocation =>
    let audience := invocation.server.audience
    if requestedScopes principal invocation.server = [] then
      updateInvocation fun i =>
        { i with
          decision := .deny
          denyReason := some (js "permission_mirror:no_scopes_for_" ++ audience) }
      throw (.gateway (permissionMirrorError
        (js "The caller holds no scopes for '" ++ audience ++
          js "', so no downstream token can be minted for them.")
        [(js "audience", .string audience), (js "held", .array (principal.scopes.map .string))]))
    else
      let input := toolMint principal s.inboundToken invocation.server
      try
        let token ← perform (services.mint · input) (.minted input)
        updateInvocation fun i => { i with tokenExchange := some token }
      catch error =>
        updateInvocation fun i =>
          { i with
            decision := .deny
            denyReason := some (js "permission_mirror:exchange_failed") }
        throw error
  | _, _ => return ()

-- ---------------------------------------------------------------------------
-- The call
-- ---------------------------------------------------------------------------

def toolCall (invocation : InvocationState) (token : MirroredToken) : UpstreamToolCall where
  url := services.targetUrl invocation.server
  server := invocation.server
  toolName := invocation.tool
  arguments := invocation.args
  accessToken := token.accessToken
  timeoutMs := 20000

def proxy : Stage UpstreamToolResult := do
  let s ← get
  match s.invocation with
  | none => throw (.gateway (upstreamError (js "gateway") (js "No invocation in flight")))
  | some invocation =>
    match invocation.tokenExchange with
    | none =>
      throw (.gateway (permissionMirrorError (js "No downstream token was minted for this call")
        [(js "server", .string (serverId invocation.server))]))
    | some token =>
      let result ← callUpstreamTool services (toolCall services invocation token)
      updateInvocation fun i => { i with upstreamLatencyMs := some result.latencyMs }
      -- a tool that reports an error is still an allowed call
      if result.isError then updateInvocation fun i => { i with denyReason := none }
      return result

-- ---------------------------------------------------------------------------
-- The audit row
-- ---------------------------------------------------------------------------

def auditInput (principal : Principal) (invocation : InvocationState) (latencyMs : ℤ)
    (traceId : Option JsString) : AppendAuditInput where
  tenantId := principal.tenantId
  userId := principal.subject
  actorTokenJti := principal.tokenId
  mcpServer := serverId invocation.server
  toolName := invocation.tool
  arguments := .object invocation.args
  decision := invocation.decision
  denyReason := invocation.denyReason
  latencyMs := .finite latencyMs
  traceId

def invocationEvent (requestId ts : JsString) (tenant : Option TenantRecord)
    (principal : Principal) (invocation : InvocationState) (latencyMs : ℤ)
    (traceId : Option JsString) : InvocationEvent where
  id := requestId
  ts
  tenantId := principal.tenantId
  tenantName := tenant.map TenantRecord.name
  userId := principal.subject
  userName := principal.name
  server := invocation.server
  tool := invocation.tool
  decision := invocation.decision
  denyReason := invocation.denyReason
  latencyMs
  traceId
  tokenExchange := invocation.tokenExchange
  policy := invocation.policy
  rateLimit := invocation.rateLimit

/-- Writes the audit row unless it is written. A row that cannot be written is logged and
the request goes on. -/
def audit (request : ToolRequest) : Stage Unit := do
  let s ← get
  match s.invocation, s.principal with
  | some invocation, some principal =>
    if invocation.audited then return ()
    else
      updateInvocation fun i => { i with audited := true }
      let now ← performanceNow services
      let latencyMs := (now - invocation.startedAt + 1 / 2).floor
      let traceId := services.currentTraceId s.log
      let input := auditInput principal invocation latencyMs traceId
      try perform (services.append · input) (.appended input)
      catch _ => pure ()
      let s ← get
      let event := invocationEvent request.requestId (services.isoNow s.log) s.tenant principal
        invocation latencyMs traceId
      perform (services.publish · event) (.published event)
  | _, _ => return ()

-- ---------------------------------------------------------------------------
-- The route
-- ---------------------------------------------------------------------------

structure ToolReply where
  ok : Bool
  server : McpTarget
  tool : JsString
  result : Json
  requestId : JsString
  latencyMs : ℤ
  upstreamLatencyMs : ℤ
  policy : Option (JsString × Decision)
  tokenExchange : Option MirroredToken
  rateLimit : Option RateLimitVerdict

def toolReply (request : ToolRequest) (invocation : InvocationState) (result : UpstreamToolResult)
    (now : ℚ) : ToolReply where
  ok := !result.isError
  server := invocation.server
  tool := invocation.tool
  result := .object (result.structured.getD [(js "text", .string result.text)])
  requestId := request.requestId
  latencyMs := (now - invocation.startedAt + 1 / 2).floor
  upstreamLatencyMs := (result.latencyMs + 1 / 2).floor
  policy := invocation.policy.map fun policy => (policy.ruleId, policy.decision)
  tokenExchange := invocation.tokenExchange
  rateLimit := invocation.rateLimit

def handler (request : ToolRequest) : Stage ToolReply := do
  let s ← get
  match s.invocation with
  | none => throw (.gateway (notFoundError (js "Invocation")))
  | some invocation =>
    let result ← proxy services
    audit services request
    let now ← performanceNow services
    let s ← get
    return toolReply request (s.invocation.getD invocation) result now

def toolRoute (request : ToolRequest) : Stage ToolReply := do
  authenticate services request
  resolveTenant services
  establishInvocation services request
  rateLimitStage services
  policyStage services
  tokenExchangeStage services
  handler services request

structure ErrorReply where
  status : Nat
  retryAfterSeconds : Option ℤ
  body : Json

def toResponseBody (e : GatewayError) : Json :=
  .object [(js "error", .object
    ([(js "code", .string e.code.text), (js "message", .string e.message)] ++
      if e.details = [] then [] else [(js "details", .object e.details)]))]

def denied (failure : GatewayError) (i : InvocationState) : InvocationState :=
  { i with
    decision := .deny
    denyReason := i.denyReason.or (some failure.code.text) }

def errorHandler (request : ToolRequest) (error : Thrown) : Stage ErrorReply := do
  let failure := toGatewayError error
  let s ← get
  match s.invocation with
  | some _ =>
    updateInvocation (denied failure)
    audit services request
  | none => pure ()
  return ⟨failure.status, failure.retryAfterSeconds, toResponseBody failure⟩

inductive Reply
  | sent (reply : ToolReply)
  | refused (reply : ErrorReply)
  /-- The error handler threw: the framework answers. -/
  | threw (error : Thrown)

def handle (request : ToolRequest) : Reply × Handling :=
  match (toolRoute services request).run.run {} with
  | (.ok reply, s) => (.sent reply, s)
  | (.error error, s) =>
    match (errorHandler services request error).run.run s with
    | (.ok reply, s') => (.refused reply, s')
    | (.error error', s') => (.threw error', s')

end

end McpGateway.Gateway
