import McpGateway.Gateway.Pipeline

/-!
# Every call is cleared, and recorded once

Whatever the services answer, the tool is called at most once, after the scope
check, the rate limiter, the policy engine and the exchange all let it through,
and the invocation leaves one audit row that says whether the call was answered.
-/

namespace McpGateway.Gateway

open Js Shared Auth Audit RateLimit Staged

-- ---------------------------------------------------------------------------
-- What a log says
-- ---------------------------------------------------------------------------

def Effect.call? : Effect → Option (UpstreamToolCall × Except Thrown UpstreamToolResult)
  | .called call outcome => some (call, outcome)
  | _ => none

def Effect.row? : Effect → Option AppendAuditInput
  | .appended input _ => some input
  | _ => none

def calls (log : List Effect) : List (UpstreamToolCall × Except Thrown UpstreamToolResult) :=
  log.filterMap Effect.call?

def rows (log : List Effect) : List AppendAuditInput := log.filterMap Effect.row?

def UpstreamToolCall.evaluates (call : UpstreamToolCall) : Bool :=
  decide (call.server = .policyEngine) && decide (call.toolName = js "policy.evaluate")

def dispatched (log : List Effect) : List (UpstreamToolCall × Except Thrown UpstreamToolResult) :=
  (calls log).filter fun c => !c.1.evaluates

def evaluations (log : List Effect) : List (UpstreamToolCall × Except Thrown UpstreamToolResult) :=
  (calls log).filter fun c => c.1.evaluates

structure Cleared (services : GatewayServices) (principal : Principal)
    (inboundToken : Option JsString) (before : List Effect) (call : UpstreamToolCall) : Prop where
  scopes : ∃ entry, findTool call.toolName = some entry ∧ entry.server = call.server ∧
    ∀ scope ∈ entry.requiredScopes, hasScope principal.scopes scope = true
  admitted : ∃ request outcome, .checked request (.ok outcome) ∈ before ∧
    outcome.allowed = true ∧ request.tenantId = principal.tenantId ∧
    request.userId = principal.subject ∧ request.toolName = call.toolName
  allowed : ∃ tenant invocation accessToken result decision,
    .called (evaluationCall services principal tenant invocation accessToken) (.ok result) ∈ before ∧
    invocation.server = call.server ∧ invocation.tool = call.toolName ∧
    invocation.args = call.arguments ∧
    readDecision result = .ok decision ∧ decision.decision = .allow
  exchanged : ∃ token,
    .minted (toolMint principal inboundToken call.server) (.ok token) ∈ before ∧
    call.accessToken = token.accessToken

/-- Nothing was called for the caller, or one tool was, on the server of the
invocation, when everything had cleared it. -/
def SentCleared (services : GatewayServices) (s : Handling) : Prop :=
  dispatched s.log = [] ∨ ∃ principal invocation before call outcome after,
    s.principal = some principal ∧ s.invocation = some invocation ∧
    s.log = before ++ .called call outcome :: after ∧
    dispatched s.log = [(call, outcome)] ∧
    call.server = invocation.server ∧ call.toolName = invocation.tool ∧
    Cleared services principal s.inboundToken before call

/-- What holds of a request when it has been answered. -/
structure Enforced (services : GatewayServices) (s : Handling) : Prop where
  dispatch : SentCleared services s
  /-- The policy stage asks the policy engine once. -/
  evaluation : (evaluations s.log).length ≤ 1
  recorded : (rows s.log).length = if s.invocation.isSome then 1 else 0
  decision : ∀ row ∈ rows s.log,
    (row.decision = .allow ↔ ∃ call result, (call, .ok result) ∈ dispatched s.log)
  reason : ∀ row ∈ rows s.log, (row.denyReason = none ↔ row.decision = .allow)

section
variable {l l' : List Effect}

@[simp] theorem calls_append : calls (l ++ l') = calls l ++ calls l' := List.filterMap_append

@[simp] theorem rows_append : rows (l ++ l') = rows l ++ rows l' := List.filterMap_append

@[simp] theorem dispatched_append : dispatched (l ++ l') = dispatched l ++ dispatched l' := by
  simp [dispatched]

@[simp] theorem evaluations_append : evaluations (l ++ l') = evaluations l ++ evaluations l' := by
  simp [evaluations]

theorem dispatched_of_calls (h : calls l = []) : dispatched l = [] := by
  unfold dispatched
  rw [h]
  rfl

theorem evaluations_of_calls (h : calls l = []) : evaluations l = [] := by
  unfold evaluations
  rw [h]
  rfl

end

-- ---------------------------------------------------------------------------
-- Meeting a service
-- ---------------------------------------------------------------------------

def Handling.after (s : Handling) (effects : List Effect) : Handling :=
  { s with log := s.log ++ effects }

def Handling.update (s : Handling) (f : InvocationState → InvocationState) : Handling :=
  { s with invocation := s.invocation.map f }

section
variable {services : GatewayServices} {s : Handling}

@[simp] theorem after_log {effects : List Effect} : (s.after effects).log = s.log ++ effects := rfl

theorem after_after {effects effects' : List Effect} :
    (s.after effects).after effects' = s.after (effects ++ effects') := by
  simp [Handling.after]

theorem update_bind {α : Type} {f : InvocationState → InvocationState} {g : Unit → Stage α}
    {Q : α → Handling → Prop} {E : Thrown → Handling → Prop} (h : Triple (g ()) (s.update f) Q E) :
    Triple (updateInvocation f >>= g) s Q E := h

theorem perform_spec {α : Type} (ask : List Effect → Except Thrown α)
    (effect : Except Thrown α → Effect) (s : Handling) :
    Triple (perform ask effect) s
      (fun a s' => ask s.log = .ok a ∧ s' = s.after [effect (.ok a)])
      (fun e s' => ask s.log = .error e ∧ s' = s.after [effect (.error e)]) := by
  unfold perform
  apply Triple.get_bind
  apply Triple.modify_bind
  cases hask : ask s.log with
  | ok a => exact .pure ⟨rfl, rfl⟩
  | error e => exact .throw ⟨rfl, rfl⟩

theorem performanceNow_spec (services : GatewayServices) (s : Handling) :
    Triple (performanceNow services) s (fun now s' => s' = s.after [.clock now])
      (fun _ _ => False) := by
  unfold performanceNow
  apply Triple.get_bind
  apply Triple.modify_bind
  exact .pure rfl

theorem callUpstreamTool_spec (services : GatewayServices) (call : UpstreamToolCall)
    (s : Handling) :
    Triple (callUpstreamTool services call) s
      (fun result s' => ∃ t, s' = s.after [.clock t, .called call (.ok result)])
      (fun e s' => ∃ t, s' = s.after [.clock t, .called call (.error e)]) := by
  unfold callUpstreamTool
  apply ((performanceNow_spec services s).mono (fun _ _ h => h) (fun _ _ h => h.elim)).bind
  rintro t _ rfl
  refine (perform_spec _ _ _).mono ?_ ?_
  · rintro result _ ⟨-, rfl⟩
    exact ⟨t, by simp [Handling.after]⟩
  · rintro e _ ⟨-, rfl⟩
    exact ⟨t, by simp [Handling.after]⟩

-- ---------------------------------------------------------------------------
-- Before the invocation
-- ---------------------------------------------------------------------------

structure Early (s : Handling) : Prop where
  calls : calls s.log = []
  rows : rows s.log = []
  invocation : s.invocation = none

structure Unsent (s : Handling) : Prop where
  dispatch : dispatched s.log = []
  evaluation : (evaluations s.log).length ≤ 1
  rows : rows s.log = []
  unaudited : ∀ i ∈ s.invocation, i.audited = false ∧ s.principal.isSome = true

theorem Early.unsent (h : Early s) : Unsent s where
  dispatch := dispatched_of_calls h.calls
  evaluation := by simp [evaluations_of_calls h.calls]
  rows := h.rows
  unaudited i hi := by
    rw [h.invocation] at hi
    cases hi

theorem Early.after (h : Early s) {effects : List Effect} (hcalls : Gateway.calls effects = [])
    (hrows : Gateway.rows effects = []) : Early (s.after effects) where
  calls := by simp [Handling.after, h.calls, hcalls]
  rows := by simp [Handling.after, h.rows, hrows]
  invocation := h.invocation

theorem perform_early {α : Type} (ask : List Effect → Except Thrown α)
    {effect : Except Thrown α → Effect} (h : Early s) (hcalls : ∀ x, (effect x).call? = none)
    (hrows : ∀ x, (effect x).row? = none) :
    Triple (perform ask effect) s (fun _ s' => Early s' ∧ s'.principal = s.principal)
      (fun _ s' => Early s') := by
  have hnone : ∀ x, Early (s.after [effect x]) := fun x =>
    h.after (List.filterMap_cons_none (hcalls x)) (List.filterMap_cons_none (hrows x))
  apply (perform_spec ask effect s).mono
  · rintro a _ ⟨-, rfl⟩
    exact ⟨hnone _, rfl⟩
  · rintro e _ ⟨-, rfl⟩
    exact hnone _

theorem presentedToken_spec (request : ToolRequest) (h : Early s) :
    Triple (presentedToken services request) s (fun _ s' => Early s') (fun _ s' => Early s') := by
  unfold presentedToken
  cases extractBearer request.authorization with
  | some token => exact .pure h
  | none =>
    apply (perform_early _ h (fun _ => rfl) fun _ => rfl).bind
    rintro session s' ⟨h', -⟩
    exact .pure h'

theorem authenticate_spec (request : ToolRequest) (h : Early s) :
    Triple (authenticate services request) s
      (fun _ s' => Early s' ∧ ∃ principal, s'.principal = some principal)
      (fun _ s' => Early s') := by
  unfold authenticate
  apply (presentedToken_spec request h).bind
  intro token s' h'
  cases token with
  | none => exact .throw h'
  | some token =>
    apply (perform_early _ h' (fun _ => rfl) fun _ => rfl).bind
    rintro principal t ⟨ht, -⟩
    exact .modifies ⟨⟨ht.calls, ht.rows, ht.invocation⟩, principal, rfl⟩

theorem resolveTenant_spec {principal : Principal} (h : Early s)
    (hcaller : s.principal = some principal) :
    Triple (resolveTenant services) s
      (fun _ s' => Early s' ∧ s'.principal = some principal ∧ ∃ tenant, s'.tenant = some tenant)
      (fun _ s' => Early s') := by
  unfold resolveTenant
  apply Triple.get_bind
  rw [hcaller]
  dsimp only
  cases services.cachedTenant s.log principal.tenantId with
  | some record => exact .modifies ⟨⟨h.calls, h.rows, h.invocation⟩, hcaller, record, rfl⟩
  | none =>
    apply (perform_early _ h (fun _ => rfl) fun _ => rfl).bind
    rintro row t ⟨ht, hsame⟩
    cases row with
    | none => exact .throw ht
    | some record =>
      exact .modifies ⟨⟨ht.calls, ht.rows, ht.invocation⟩, hsame.trans hcaller, record, rfl⟩

-- ---------------------------------------------------------------------------
-- The stages that may refuse
-- ---------------------------------------------------------------------------

structure Going (s : Handling) (principal : Principal) (i : InvocationState) : Prop where
  caller : s.principal = some principal
  invoked : s.invocation = some i
  unaudited : i.audited = false
  allow : i.decision = .allow
  unexplained : i.denyReason = none

structure SameCall (i i' : InvocationState) : Prop where
  server : i'.server = i.server
  tool : i'.tool = i.tool
  args : i'.args = i.args

def Entitled (principal : Principal) (i : InvocationState) : Prop :=
  ∃ entry, findTool i.tool = some entry ∧ entry.server = i.server ∧
    ∀ scope ∈ entry.requiredScopes, hasScope principal.scopes scope = true

theorem Going.unsent {principal : Principal} {i : InvocationState} (h : Going s principal i)
    (hdispatch : dispatched s.log = []) (hevaluation : (evaluations s.log).length ≤ 1)
    (hrows : rows s.log = []) : Unsent s where
  dispatch := hdispatch
  evaluation := hevaluation
  rows := hrows
  unaudited j hj := by
    rw [h.invoked] at hj
    cases hj
    exact ⟨h.unaudited, by simp [h.caller]⟩

/-- A stage that meets a service without calling a tool leaves the request unsent. -/
theorem Unsent.after (h : Unsent s) {effects : List Effect} (hcalls : Gateway.calls effects = [])
    (hrows : Gateway.rows effects = []) : Unsent (s.after effects) where
  dispatch := by simp [h.dispatch, dispatched_of_calls hcalls]
  evaluation := by simpa [evaluations_of_calls hcalls] using h.evaluation
  rows := by simp [h.rows, hrows]
  unaudited := h.unaudited

theorem establishInvocation_spec (request : ToolRequest) {principal : Principal} (h : Early s)
    (hcaller : s.principal = some principal) :
    Triple (establishInvocation services request) s
      (fun _ s' => ∃ i, Going s' principal i ∧ Entitled principal i ∧ calls s'.log = [] ∧
        rows s'.log = [] ∧ s'.tenant = s.tenant ∧ s'.inboundToken = s.inboundToken)
      (fun _ s' => Unsent s') := by
  unfold establishInvocation
  cases serverOf request.server with
  | none => exact .throw h.unsent
  | some server =>
    dsimp only
    split
    · exact .throw h.unsent
    · cases hentry : (findTool request.tool).filter fun entry => decide (entry.server = server) with
      | none => exact .throw h.unsent
      | some entry =>
        obtain ⟨hfound, hserver⟩ := Option.filter_eq_some_iff.mp hentry
        apply ((performanceNow_spec services s).mono (fun _ _ h => h) (fun _ _ h => h.elim)).bind
        rintro startedAt _ rfl
        have hearly : Early (s.after [.clock startedAt]) := h.after rfl rfl
        apply Triple.modify_bind
        apply Triple.get_bind
        dsimp only
        split
        · apply Triple.modify_bind
          apply Triple.throw
          refine ⟨dispatched_of_calls hearly.calls, ?_, hearly.rows, ?_⟩
          · rw [evaluations_of_calls hearly.calls]
            exact Nat.zero_le 1
          · rintro i ⟨rfl⟩
            exact ⟨rfl, by simp [Handling.after, hcaller]⟩
        · next hmissing =>
          have hheld : missingFrom principal.scopes entry = [] := by
            simpa [Handling.after, hcaller] using hmissing
          exact .pure ⟨_, ⟨hcaller, rfl, rfl, rfl, rfl⟩,
            ⟨entry, hfound, of_decide_eq_true hserver, missingFrom_nil.mp hheld⟩, hearly.calls,
            hearly.rows, rfl, rfl⟩

theorem rateLimitStage_spec {principal : Principal} {i : InvocationState}
    (h : Going s principal i) (hunsent : Unsent s) :
    Triple (rateLimitStage services) s
      (fun _ s' => ∃ i' outcome, Going s' principal i' ∧ SameCall i i' ∧
        s'.log = s.log ++ [.checked (rateLimitRequest principal i) (.ok outcome)] ∧
        outcome.allowed = true ∧ s'.tenant = s.tenant ∧ s'.inboundToken = s.inboundToken)
      (fun _ s' => Unsent s') := by
  unfold rateLimitStage
  apply Triple.get_bind
  rw [h.caller, h.invoked]
  dsimp only
  refine .bind ((perform_spec _ _ s).mono (fun _ _ h => h) ?_) ?_
  · rintro e _ ⟨-, rfl⟩
    exact hunsent.after rfl rfl
  · rintro outcome _ ⟨-, rfl⟩
    apply update_bind
    apply Triple.modify_bind
    apply Triple.modify_bind
    apply Triple.modify_bind
    split
    · next hallowed =>
      exact .pure ⟨{ i with rateLimit := some (verdictOf outcome) }, outcome,
        ⟨h.caller, congrArg (Option.map _) h.invoked, h.unaudited, h.allow, h.unexplained⟩,
        ⟨rfl, rfl, rfl⟩, rfl, hallowed, rfl, rfl⟩
    · apply update_bind
      have hafter : Unsent (s.after [.checked (rateLimitRequest principal i) (.ok outcome)]) :=
        hunsent.after rfl rfl
      exact .throw ⟨hafter.dispatch, hafter.evaluation, hafter.rows,
        Option.forall_mem_map.mpr (Option.forall_mem_map.mpr hafter.unaudited)⟩

section
variable {t : ℚ} {call : UpstreamToolCall} {outcome : Except Thrown UpstreamToolResult}

theorem dispatched_called : dispatched [.clock t, .called call outcome] =
    if call.evaluates then [] else [(call, outcome)] := by
  show [(call, outcome)].filter (fun c => !c.1.evaluates) = _
  cases hcall : call.evaluates <;> simp [hcall]

theorem evaluations_called : evaluations [.clock t, .called call outcome] =
    if call.evaluates then [(call, outcome)] else [] := by
  show [(call, outcome)].filter (fun c => c.1.evaluates) = _
  cases hcall : call.evaluates <;> simp [hcall]

theorem Unsent.evaluated (h : Unsent s) (hnone : evaluations s.log = [])
    (hcall : call.evaluates = true) : Unsent (s.after [.clock t, .called call outcome]) where
  dispatch := by
    rw [after_log, dispatched_append, h.dispatch, dispatched_called, if_pos hcall]
    rfl
  evaluation := by
    rw [after_log, evaluations_append, hnone, evaluations_called, if_pos hcall]
    rfl
  rows := by
    rw [after_log, rows_append, h.rows]
    rfl
  unaudited := h.unaudited

end

theorem evaluationCall_evaluates {principal : Principal} {tenant : TenantRecord}
    {i : InvocationState} {accessToken : JsString} :
    (evaluationCall services principal tenant i accessToken).evaluates = true := rfl

theorem policyStage_spec {principal : Principal} {tenant : TenantRecord} {i : InvocationState}
    (h : Going s principal i) (htenant : s.tenant = some tenant) (hunsent : Unsent s)
    (hnone : evaluations s.log = []) :
    Triple (policyStage services) s
      (fun _ s' => ∃ i' token t result decision, Going s' principal i' ∧ SameCall i i' ∧
        Unsent s' ∧
        s'.log = s.log ++ [.minted (policyStageMint principal s.inboundToken) (.ok token), .clock t,
          .called (evaluationCall services principal tenant i token.accessToken) (.ok result)] ∧
        readDecision result = .ok decision ∧ decision.decision = .allow ∧
        s'.inboundToken = s.inboundToken)
      (fun _ s' => Unsent s') := by
  unfold policyStage
  apply Triple.get_bind
  rw [h.caller, h.invoked, htenant]
  dsimp only
  refine .bind ((perform_spec _ _ s).mono (fun _ _ h => h) ?_) ?_
  · rintro e _ ⟨-, rfl⟩
    exact hunsent.after rfl rfl
  · rintro token _ ⟨-, rfl⟩
    have hminted : Unsent (s.after
        [.minted (policyStageMint principal s.inboundToken) (.ok token)]) := hunsent.after rfl rfl
    have hnone' : evaluations (s.after
        [.minted (policyStageMint principal s.inboundToken) (.ok token)]).log = [] := by
      rw [after_log, evaluations_append, hnone]
      rfl
    refine .bind ((callUpstreamTool_spec services _ _).mono (fun _ _ h => h) ?_) ?_
    · rintro e _ ⟨t, rfl⟩
      exact hminted.evaluated hnone' evaluationCall_evaluates
    · rintro result _ ⟨t, rfl⟩
      have hasked : Unsent ((s.after
          [.minted (policyStageMint principal s.inboundToken) (.ok token)]).after [.clock t,
            .called (evaluationCall services principal tenant i token.accessToken) (.ok result)]) :=
        hminted.evaluated hnone' evaluationCall_evaluates
      cases hread : readDecision result with
      | error e => exact .throw hasked
      | ok decision =>
        apply update_bind
        cases hdecision : decision.decision with
        | allow =>
          refine .pure ⟨{ i with policy := some decision }, token, t, result, decision,
            ⟨h.caller, congrArg (Option.map _) h.invoked, h.unaudited, h.allow, h.unexplained⟩,
            ⟨rfl, rfl, rfl⟩,
            ⟨hasked.dispatch, hasked.evaluation, hasked.rows,
              Option.forall_mem_map.mpr hasked.unaudited⟩, ?_, hread, hdecision, rfl⟩
          exact congrArg Handling.log after_after
        | deny =>
          apply update_bind
          exact .throw ⟨hasked.dispatch, hasked.evaluation, hasked.rows,
            Option.forall_mem_map.mpr (Option.forall_mem_map.mpr hasked.unaudited)⟩

theorem tokenExchangeStage_spec {principal : Principal} {i : InvocationState}
    (h : Going s principal i) (hunsent : Unsent s) :
    Triple (tokenExchangeStage services) s
      (fun _ s' => ∃ i' token, Going s' principal i' ∧ SameCall i i' ∧ Unsent s' ∧
        i'.tokenExchange = some token ∧
        s'.log = s.log ++ [.minted (toolMint principal s.inboundToken i.server) (.ok token)] ∧
        s'.inboundToken = s.inboundToken)
      (fun _ s' => Unsent s') := by
  unfold tokenExchangeStage
  apply Triple.get_bind
  rw [h.caller, h.invoked]
  dsimp only
  split
  · apply update_bind
    exact .throw ⟨hunsent.dispatch, hunsent.evaluation, hunsent.rows,
      Option.forall_mem_map.mpr hunsent.unaudited⟩
  · have hmint := (perform_spec (services.mint · (toolMint principal s.inboundToken i.server))
      (.minted (toolMint principal s.inboundToken i.server)) s).mono (fun _ _ h => h)
      (fun _ _ h => show Unsent _ from h.2 ▸ hunsent.after rfl rfl)
    refine .caught (hmint.bind ?_) ?_
    · rintro token _ ⟨-, rfl⟩
      have hafter : Unsent (s.after
          [.minted (toolMint principal s.inboundToken i.server) (.ok token)]) :=
        hunsent.after rfl rfl
      exact .modifies ⟨{ i with tokenExchange := some token }, token,
        ⟨h.caller, congrArg (Option.map _) h.invoked, h.unaudited, h.allow, h.unexplained⟩,
        ⟨rfl, rfl, rfl⟩,
        ⟨hafter.dispatch, hafter.evaluation, hafter.rows, Option.forall_mem_map.mpr hafter.unaudited⟩,
        rfl, rfl, rfl⟩
    · intro e s' h'
      apply update_bind
      exact .throw ⟨h'.dispatch, h'.evaluation, h'.rows, Option.forall_mem_map.mpr h'.unaudited⟩

theorem proxy_spec {principal : Principal} {i : InvocationState} {token : MirroredToken}
    (h : Going s principal i) (htoken : i.tokenExchange = some token) :
    Triple (proxy services) s
      (fun result s' => ∃ i' t, Going s' principal i' ∧ SameCall i i' ∧
        s'.log = s.log ++ [.clock t, .called (toolCall services i token) (.ok result)] ∧
        s'.inboundToken = s.inboundToken)
      (fun e s' => ∃ t, s' = s.after [.clock t, .called (toolCall services i token) (.error e)]) := by
  unfold proxy
  apply Triple.get_bind
  rw [h.invoked]
  dsimp only
  rw [htoken]
  dsimp only
  apply (callUpstreamTool_spec services _ s).bind
  rintro result _ ⟨t, rfl⟩
  apply update_bind
  split
  · apply update_bind
    exact .pure ⟨{ i with upstreamLatencyMs := some result.latencyMs, denyReason := none }, t,
      ⟨h.caller, congrArg (Option.map _) (congrArg (Option.map _) h.invoked), h.unaudited, h.allow,
        rfl⟩, ⟨rfl, rfl, rfl⟩, rfl, rfl⟩
  · exact .pure ⟨{ i with upstreamLatencyMs := some result.latencyMs }, t,
      ⟨h.caller, congrArg (Option.map _) h.invoked, h.unaudited, h.allow, h.unexplained⟩,
      ⟨rfl, rfl, rfl⟩, rfl, rfl⟩

-- ---------------------------------------------------------------------------
-- The row
-- ---------------------------------------------------------------------------

/-- What an audit leaves: one row, with the decision and the reason of the invocation. -/
structure Recorded (s s' : Handling) (i : InvocationState) : Prop where
  caller : s'.principal = s.principal
  token : s'.inboundToken = s.inboundToken
  invoked : s'.invocation = some { i with audited := true }
  log : ∃ more row, s'.log = s.log ++ more ∧ calls more = [] ∧ rows more = [row] ∧
    row.decision = i.decision ∧ row.denyReason = i.denyReason

theorem append_spec (services : GatewayServices) (input : AppendAuditInput) (s : Handling) :
    Triple (tryCatch (perform (services.append · input) (.appended input)) fun _ => pure ()) s
      (fun _ s' => ∃ o, s' = s.after [.appended input o]) (fun _ _ => False) := by
  apply Triple.caught ((perform_spec _ _ s).mono (fun _ _ h => ⟨_, h.2⟩) fun _ _ h => h)
  rintro e _ ⟨-, rfl⟩
  exact .pure ⟨_, rfl⟩

theorem audit_spec (services : GatewayServices) (request : ToolRequest) {principal : Principal}
    {i : InvocationState}
    (hcaller : s.principal = some principal) (hinvoked : s.invocation = some i)
    (hunaudited : i.audited = false) :
    Triple (audit services request) s (fun _ s' => Recorded s s' i)
      (fun _ s' => Recorded s s' i) := by
  unfold audit
  apply Triple.get_bind
  rw [hcaller, hinvoked]
  dsimp only
  rw [if_neg (by simp [hunaudited])]
  apply update_bind
  apply ((performanceNow_spec services _).mono (fun _ _ h => h) (fun _ _ h => h.elim)).bind
  rintro t _ rfl
  apply ((append_spec services _ _).mono (fun _ _ h => h) (fun _ _ h => h.elim)).bind
  rintro _ _ ⟨o, rfl⟩
  apply Triple.get_bind
  have hrecorded : ∀ event o', Recorded s ((((s.update fun i => { i with audited := true }).after
      [.clock t]).after [.appended (auditInput principal i (t - i.startedAt + 1 / 2).floor
        (services.currentTraceId s.log)) o]).after [.published event o']) i := fun event o' =>
    { caller := rfl
      token := rfl
      invoked := congrArg (Option.map _) hinvoked
      log := ⟨[.clock t, .appended _ o, .published event o'], _,
        by rw [after_after, after_after]; rfl, rfl, rfl, rfl, rfl⟩ }
  apply (perform_spec _ _ _).mono
  · rintro _ _ ⟨-, rfl⟩
    exact hrecorded _ _
  · rintro _ _ ⟨-, rfl⟩
    exact hrecorded _ _

theorem audit_again (request : ToolRequest) {i : InvocationState} (hinvoked : s.invocation = some i)
    (haudited : i.audited = true) :
    Triple (audit services request) s (fun _ s' => s' = s) (fun _ _ => False) := by
  unfold audit
  apply Triple.get_bind
  rw [hinvoked]
  cases s.principal with
  | none => exact .pure rfl
  | some principal =>
    dsimp only
    rw [if_pos haudited]
    exact .pure rfl

-- ---------------------------------------------------------------------------
-- From the last stage to the reply
-- ---------------------------------------------------------------------------

theorem Cleared.mono {principal : Principal} {inboundToken : Option JsString}
    {before more : List Effect} {call : UpstreamToolCall}
    (h : Cleared services principal inboundToken before call) :
    Cleared services principal inboundToken (before ++ more) call := by
  obtain ⟨hscopes, ⟨request, outcome, hchecked, hadmitted⟩,
    ⟨tenant, invocation, accessToken, result, decision, hcalled, hallowed⟩,
    ⟨token, hminted, hexchanged⟩⟩ := h
  exact ⟨hscopes, ⟨request, outcome, List.mem_append_left more hchecked, hadmitted⟩,
    ⟨tenant, invocation, accessToken, result, decision, List.mem_append_left more hcalled, hallowed⟩,
    ⟨token, List.mem_append_left more hminted, hexchanged⟩⟩

/-- What is noted on the invocation and done after the call changes nothing about it. -/
theorem SentCleared.later {s' : Handling} {more : List Effect} (h : SentCleared services s)
    (hlog : s'.log = s.log ++ more) (hcalls : calls more = []) (hcaller : s'.principal = s.principal)
    (htoken : s'.inboundToken = s.inboundToken)
    (hsame : ∀ i, s.invocation = some i → ∃ i', s'.invocation = some i' ∧ SameCall i i') :
    SentCleared services s' := by
  have hdispatched : dispatched s'.log = dispatched s.log := by
    rw [hlog, dispatched_append, dispatched_of_calls hcalls, List.append_nil]
  rcases h with h | ⟨principal, i, before, call, outcome, after, hprincipal, hinvoked, hsplit, hone,
    hserver, htool, hcleared⟩
  · exact .inl (hdispatched.trans h)
  · obtain ⟨i', hinvoked', hsame⟩ := hsame i hinvoked
    refine .inr ⟨principal, i', before, call, outcome, after ++ more, hcaller.trans hprincipal,
      hinvoked', ?_, hdispatched.trans hone, hserver.trans hsame.server.symm,
      htool.trans hsame.tool.symm, ?_⟩
    · rw [hlog, hsplit, List.append_assoc, List.cons_append]
    · rw [htoken]
      exact hcleared

theorem SentCleared.update (h : SentCleared services s) {f : InvocationState → InvocationState}
    (hf : ∀ i, SameCall i (f i)) : SentCleared services (s.update f) := by
  have hlog : (s.update f).log = s.log ++ [] := (List.append_nil _).symm
  exact h.later hlog rfl rfl rfl fun i hi => ⟨f i, congrArg (Option.map f) hi, hf i⟩

theorem Recorded.enforced {s' : Handling} {i : InvocationState} (h : Recorded s s' i)
    (hinvoked : s.invocation = some i) (hcleared : SentCleared services s)
    (hevaluation : (evaluations s.log).length ≤ 1) (hrows : rows s.log = [])
    (hdecision : i.decision = .allow ↔ ∃ call result, (call, .ok result) ∈ dispatched s.log)
    (hreason : i.denyReason = none ↔ i.decision = .allow) : Enforced services s' := by
  obtain ⟨more, row, hlog, hcalls, hrow, hrowDecision, hrowReason⟩ := h.log
  have hsingle : rows s'.log = [row] := by rw [hlog, rows_append, hrows, hrow, List.nil_append]
  have hdispatched : dispatched s'.log = dispatched s.log := by
    rw [hlog, dispatched_append, dispatched_of_calls hcalls, List.append_nil]
  constructor
  · apply hcleared.later hlog hcalls h.caller h.token
    intro j hj
    cases hinvoked.symm.trans hj
    exact ⟨_, h.invoked, rfl, rfl, rfl⟩
  · rw [hlog, evaluations_append, evaluations_of_calls hcalls, List.append_nil]
    exact hevaluation
  · rw [hsingle, h.invoked]
    rfl
  · intro r hr
    rw [hsingle, List.mem_singleton] at hr
    rw [hr, hrowDecision, hdispatched]
    exact hdecision
  · intro r hr
    rw [hsingle, List.mem_singleton] at hr
    rw [hr, hrowDecision, hrowReason]
    exact hreason

theorem Enforced.after (h : Enforced services s) {effects : List Effect}
    (hcalls : calls effects = []) (hrows : rows effects = []) :
    Enforced services (s.after effects) := by
  have hdispatched : dispatched (s.after effects).log = dispatched s.log := by
    rw [after_log, dispatched_append, dispatched_of_calls hcalls, List.append_nil]
  have hsame : rows (s.after effects).log = rows s.log := by
    rw [after_log, rows_append, hrows, List.append_nil]
  constructor
  · exact h.dispatch.later after_log hcalls rfl rfl fun i hi => ⟨i, hi, rfl, rfl, rfl⟩
  · rw [after_log, evaluations_append, evaluations_of_calls hcalls, List.append_nil]
    exact h.evaluation
  · rw [hsame]
    exact h.recorded
  · rw [hsame, hdispatched]
    exact h.decision
  · rw [hsame]
    exact h.reason

structure Unanswered (services : GatewayServices) (s : Handling) : Prop where
  dispatch : SentCleared services s
  evaluation : (evaluations s.log).length ≤ 1
  rows : rows s.log = []
  unaudited : ∀ i ∈ s.invocation, i.audited = false ∧ s.principal.isSome = true
  unanswered : ¬ ∃ call result, (call, .ok result) ∈ dispatched s.log

theorem Unsent.unanswered (h : Unsent s) : Unanswered services s where
  dispatch := .inl h.dispatch
  evaluation := h.evaluation
  rows := h.rows
  unaudited := h.unaudited
  unanswered := by
    rw [h.dispatch]
    rintro ⟨call, result, hmem⟩
    cases hmem

def Closed (services : GatewayServices) (s : Handling) : Prop :=
  Enforced services s ∧ ∃ i, s.invocation = some i ∧ i.audited = true

theorem errorHandler_spec (request : ToolRequest) (error : Thrown)
    (h : Unanswered services s ∨ Closed services s) :
    Triple (errorHandler services request error) s (fun _ s' => Enforced services s')
      (fun _ s' => Enforced services s') := by
  unfold errorHandler
  apply Triple.get_bind
  dsimp only
  rcases h with h | ⟨h, i, hinvoked, haudited⟩
  · cases hinvoked : s.invocation with
    | none =>
      refine .pure ⟨h.dispatch, h.evaluation, ?_, ?_, ?_⟩
      · rw [h.rows, hinvoked]
        rfl
      · rw [h.rows]
        rintro _ ⟨⟩
      · rw [h.rows]
        rintro _ ⟨⟩
    | some i =>
      obtain ⟨hunaudited, hcaller⟩ := h.unaudited i hinvoked
      obtain ⟨principal, hcaller⟩ := Option.isSome_iff_exists.mp hcaller
      have hdenied : (s.update (denied (toGatewayError error))).invocation =
          some (denied (toGatewayError error) i) := congrArg (Option.map _) hinvoked
      have hrecorded : ∀ s', Recorded (s.update (denied (toGatewayError error))) s'
          (denied (toGatewayError error) i) → Enforced services s' := by
        intro s' hs'
        refine hs'.enforced hdenied ?_ h.evaluation h.rows ?_ ?_
        · exact h.dispatch.update fun _ => ⟨rfl, rfl, rfl⟩
        · constructor
          · rintro ⟨⟩
          · exact fun hanswered => absurd hanswered h.unanswered
        · constructor
          · cases hreason : i.denyReason <;> simp [denied, hreason]
          · rintro ⟨⟩
      dsimp only
      apply update_bind
      have hknown : (s.update (denied (toGatewayError error))).principal = some principal := hcaller
      have haudit := audit_spec services request hknown hdenied hunaudited
      refine .bind (haudit.mono (fun _ _ h => h) fun _ s' hs' => hrecorded s' hs') ?_
      exact fun _ s' hs' => .pure (hrecorded s' hs')
  · rw [hinvoked]
    dsimp only
    apply update_bind
    have hdenied : (s.update (denied (toGatewayError error))).invocation =
        some (denied (toGatewayError error) i) := congrArg (Option.map _) hinvoked
    refine .bind ((audit_again request hdenied haudited).mono (fun _ _ h => h) fun _ _ h => h.elim) ?_
    rintro _ _ rfl
    refine .pure ⟨?_, h.evaluation, ?_, h.decision, h.reason⟩
    · exact h.dispatch.update fun _ => ⟨rfl, rfl, rfl⟩
    · rw [hdenied]
      have hrecorded := h.recorded
      rw [hinvoked] at hrecorded
      exact hrecorded

theorem SentCleared.called {s' : Handling} {principal : Principal} {i i' : InvocationState}
    {token : MirroredToken} {t : ℚ} {outcome : Except Thrown UpstreamToolResult}
    (hlog : s'.log = s.log ++ [.clock t, .called (toolCall services i token) outcome])
    (hunsent : Unsent s) (hcaller : s'.principal = some principal) (hinvoked : s'.invocation = some i')
    (hsame : SameCall i i') (htoken : s'.inboundToken = s.inboundToken)
    (htool : (toolCall services i token).evaluates = false)
    (hcleared : Cleared services principal s.inboundToken s.log (toolCall services i token)) :
    SentCleared services s' ∧ dispatched s'.log = [(toolCall services i token, outcome)] ∧
      evaluations s'.log = evaluations s.log ∧ rows s'.log = [] := by
  have hone : dispatched s'.log = [(toolCall services i token, outcome)] := by
    rw [hlog, dispatched_append, hunsent.dispatch, dispatched_called, htool]
    rfl
  refine ⟨.inr ⟨principal, i', s.log ++ [.clock t], _, outcome, [], hcaller, hinvoked, ?_, hone,
    hsame.server.symm, hsame.tool.symm, ?_⟩, hone, ?_, ?_⟩
  · rw [hlog, List.append_assoc]
    rfl
  · rw [htoken]
    exact hcleared.mono
  · rw [hlog, evaluations_append, evaluations_called, htool]
    exact List.append_nil _
  · rw [hlog, rows_append, hunsent.rows]
    rfl

theorem handler_spec (request : ToolRequest) {principal : Principal} {i : InvocationState}
    {token : MirroredToken} (h : Going s principal i) (hunsent : Unsent s)
    (htoken : i.tokenExchange = some token)
    (htool : (toolCall services i token).evaluates = false)
    (hcleared : Cleared services principal s.inboundToken s.log (toolCall services i token)) :
    Triple (handler services request) s (fun _ s' => Enforced services s')
      (fun _ s' => Unanswered services s' ∨ Closed services s') := by
  unfold handler
  apply Triple.get_bind
  rw [h.invoked]
  dsimp only
  refine .bind ((proxy_spec h htoken).mono (fun _ _ h => h) ?_) ?_
  · rintro e _ ⟨t, rfl⟩
    have hlog : (s.after [.clock t, .called (toolCall services i token) (.error e)]).log =
        s.log ++ [.clock t, .called (toolCall services i token) (.error e)] := rfl
    obtain ⟨hsent, hone, hevaluations, hrows⟩ :=
      SentCleared.called hlog hunsent h.caller h.invoked ⟨rfl, rfl, rfl⟩ rfl htool hcleared
    refine .inl ⟨hsent, hevaluations ▸ hunsent.evaluation, hrows, hunsent.unaudited, ?_⟩
    rw [hone]
    rintro ⟨call, result, hmem⟩
    cases List.mem_singleton.mp hmem
  · rintro result s₁ ⟨i', t, h', hsame, hlog, htoken'⟩
    obtain ⟨hsent, hone, hevaluations, hrows⟩ :=
      SentCleared.called hlog hunsent h'.caller h'.invoked hsame htoken' htool hcleared
    have hclosed : ∀ s₂, Recorded s₁ s₂ i' → Closed services s₂ := by
      intro s₂ hs₂
      refine ⟨hs₂.enforced h'.invoked hsent (hevaluations ▸ hunsent.evaluation) hrows ?_ ?_, _,
        hs₂.invoked, rfl⟩
      · refine iff_of_true h'.allow ⟨toolCall services i token, result, ?_⟩
        rw [hone]
        exact List.mem_singleton_self _
      · exact iff_of_true h'.unexplained h'.allow
    refine .bind ((audit_spec services request h'.caller h'.invoked h'.unaudited).mono
      (fun _ s₂ hs₂ => hclosed s₂ hs₂) fun _ s₂ hs₂ => .inr (hclosed s₂ hs₂)) ?_
    rintro _ s₂ ⟨henforced, j, hinvoked, haudited⟩
    apply ((performanceNow_spec services s₂).mono (fun _ _ h => h) (fun _ _ h => h.elim)).bind
    rintro now _ rfl
    apply Triple.get_bind
    exact .pure (henforced.after rfl rfl)

theorem toolCall_evaluates {principal : Principal} {i : InvocationState} {token : MirroredToken}
    (h : Entitled principal i) : (toolCall services i token).evaluates = false := by
  obtain ⟨entry, hentry, -⟩ := h
  have hlisted : ∀ entry ∈ toolCatalog, entry.name ≠ js "policy.evaluate" := by decide
  have hname : i.tool ≠ js "policy.evaluate" :=
    findTool_name hentry ▸ hlisted entry (List.mem_of_find?_eq_some hentry)
  exact Bool.and_eq_false_imp.mpr fun _ => decide_eq_false hname

theorem toolRoute_spec (services : GatewayServices) (request : ToolRequest) :
    Triple (toolRoute services request) {} (fun _ s' => Enforced services s')
      (fun _ s' => Unanswered services s' ∨ Closed services s') := by
  have hunsent : ∀ (e : Thrown) (s : Handling), Unsent s → Unanswered services s ∨ Closed services s :=
    fun _ s h => .inl h.unanswered
  unfold toolRoute
  refine .bind ((authenticate_spec request ⟨rfl, rfl, rfl⟩).mono (fun _ _ h => h)
    fun e s h => hunsent e s h.unsent) ?_
  rintro _ s₁ ⟨h₁, principal, hcaller⟩
  refine .bind ((resolveTenant_spec h₁ hcaller).mono (fun _ _ h => h)
    fun e s h => hunsent e s h.unsent) ?_
  rintro _ s₂ ⟨h₂, hcaller, tenant, htenant⟩
  refine .bind ((establishInvocation_spec request h₂ hcaller).mono (fun _ _ h => h) hunsent) ?_
  rintro _ s₃ ⟨i₃, h₃, hentitled, hcalls, hrows, htenant₃, htoken₃⟩
  have hnone : evaluations s₃.log = [] := evaluations_of_calls hcalls
  have hopen₃ : Unsent s₃ :=
    h₃.unsent (dispatched_of_calls hcalls) (hnone ▸ Nat.zero_le 1) hrows
  refine .bind ((rateLimitStage_spec h₃ hopen₃).mono (fun _ _ h => h) hunsent) ?_
  rintro _ s₄ ⟨i₄, outcome, h₄, hsame₄, hlog₄, hadmitted, htenant₄, htoken₄⟩
  have hcalls₄ : calls s₄.log = [] := by
    rw [hlog₄, calls_append, hcalls]
    rfl
  have hrows₄ : rows s₄.log = [] := by
    rw [hlog₄, rows_append, hrows]
    rfl
  have hnone₄ := evaluations_of_calls hcalls₄
  have hopen₄ : Unsent s₄ :=
    h₄.unsent (dispatched_of_calls hcalls₄) (hnone₄ ▸ Nat.zero_le 1) hrows₄
  have htenant : s₄.tenant = some tenant := htenant₄.trans (htenant₃.trans htenant)
  refine .bind ((policyStage_spec h₄ htenant hopen₄ hnone₄).mono (fun _ _ h => h) hunsent) ?_
  rintro _ s₅ ⟨i₅, policyToken, t, result, decision, h₅, hsame₅, hopen₅, hlog₅, hread, hallowed,
    htoken₅⟩
  refine .bind ((tokenExchangeStage_spec h₅ hopen₅).mono (fun _ _ h => h) hunsent) ?_
  rintro _ s₆ ⟨i₆, token, h₆, hsame₆, hopen₆, htoken, hlog₆, htoken₆⟩
  have htool : i₆.tool = i₃.tool := hsame₆.tool.trans (hsame₅.tool.trans hsame₄.tool)
  have hserver : i₆.server = i₃.server := hsame₆.server.trans (hsame₅.server.trans hsame₄.server)
  apply handler_spec request h₆ hopen₆ htoken
  · apply toolCall_evaluates
    rw [Entitled, htool, hserver]
    exact hentitled
  · obtain ⟨entry, hentry, hlisted, hheld⟩ := hentitled
    constructor
    · exact ⟨entry, (congrArg findTool htool).trans hentry, hlisted.trans hserver.symm, hheld⟩
    · refine ⟨rateLimitRequest principal i₃, outcome, ?_, hadmitted, rfl, rfl, htool.symm⟩
      rw [hlog₆, hlog₅, hlog₄]
      simp
    · refine ⟨tenant, i₄, policyToken.accessToken, result, decision, ?_,
        (hsame₆.server.trans hsame₅.server).symm, (hsame₆.tool.trans hsame₅.tool).symm,
        (hsame₆.args.trans hsame₅.args).symm, hread, hallowed⟩
      rw [hlog₆, hlog₅]
      simp
    · refine ⟨token, ?_, rfl⟩
      rw [hlog₆, htoken₆]
      show _ ∈ s₅.log ++ [Effect.minted (toolMint principal s₅.inboundToken i₅.server) (.ok token)]
      rw [show (toolCall services i₆ token).server = i₅.server from hsame₆.server]
      exact List.mem_append_right _ (List.mem_singleton_self _)

/-- For every request, whatever each service answers or throws. -/
theorem call_cleared_and_recorded (services : GatewayServices) (request : ToolRequest) :
    Enforced services (handle services request).2 := by
  have hroute := toolRoute_spec services request
  unfold handle
  split
  · next reply s hrun => exact hroute.returned hrun
  · next error s hrun =>
    have herror := errorHandler_spec request error (hroute.threw hrun)
    split
    · next reply s' hrun' => exact herror.returned hrun'
    · next error' s' hrun' => exact herror.threw hrun'

end

def willing : GatewayServices where
  engine := plainEngine
  targetUrl _ := js "http://localhost"
  performanceNow _ := 0
  isoNow _ := js "2026-01-01T00:00:00.000Z"
  currentTraceId _ := none
  session _ _ := .ok none
  verifyAccessToken _ _ := .ok
    { subject := js "usr_1", tenantId := js "acme", role := .admin, scopes := [js "policy:evaluate"]
      tokenId := js "t0", clientId := js "console", expiresAt := 600, email := none, name := none }
  cachedTenant _ id := some ⟨id, js "Acme", js "enterprise"⟩
  selectTenant _ _ := .ok none
  checkRateLimit _ _ := .ok ⟨true, ⟨true, 9, 10, 0, js "user_tool", js "k"⟩, []⟩
  mint _ input := .ok ⟨js "t1", input.audience, input.scopes, .finite 600, input.subject, false⟩
  callTool _ _ := .ok
    { content := none
      isError := none
      structuredContent := some (.object [(js "decision", .string (js "allow")),
        (js "ruleId", .string (js "allow-known-tools")), (js "reason", .string (js "known"))]) }
  append _ _ := .ok ()
  publish _ _ := .ok ()

/-- The policy stage calls the policy engine, and so does the tool. -/
theorem policy_engine_called_twice :
    ¬ ∀ (services : GatewayServices) (request : ToolRequest) (i : InvocationState),
      (handle services request).2.invocation = some i →
      ((calls (handle services request).2.log).filter fun c =>
        decide (c.1.server = i.server)).length ≤ 1 := by
  intro hclaim
  let request : ToolRequest := ⟨js "r1", some (js "Bearer t0"), none, js "policy-engine",
    js "policy.explain", none⟩
  have htarget : (handle willing request).2.invocation.map InvocationState.server =
      some .policyEngine := by decide +kernel
  obtain ⟨i, hi, hserver⟩ := Option.map_eq_some_iff.mp htarget
  have honce := hclaim willing request i hi
  rw [hserver] at honce
  revert honce
  decide +kernel

end McpGateway.Gateway
