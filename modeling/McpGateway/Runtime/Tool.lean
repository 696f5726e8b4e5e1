import McpGateway.Shared.Domain

/-!
# Tools

What every server does around a tool's handler: the scopes of the caller are
checked before it runs, and what it throws is described to the client. The
arguments have been validated by then.
-/

namespace McpGateway.Runtime

open Js Shared

/-- The caller, as reconstructed from the downstream token. -/
structure DownstreamPrincipal where
  subject : JsString
  tenantId : JsString
  scopes : List JsString
  territory : Option JsString

def missingScopes (principal : DownstreamPrincipal) (required : List JsString) : List JsString :=
  required.filter fun scope => !hasScope principal.scopes scope

structure ToolFailure where
  message : JsString
  data : List (JsString × Json)

def describeFailure : Thrown → ToolFailure
  | .gateway e =>
    { message := e.message
      data := e.details.foldl (fun props p => Json.setProp p.1 p.2 props)
        [(js "code", .string e.code.text)] }
  | .other message =>
    { message := message.getD (js "Unexpected error")
      data := [(js "code", .string (js "internal_error"))] }

inductive ToolResponse
  | content (result : Json)
  | isError (error : List (JsString × Json)) (message : JsString)

/-- The callback a tool is registered with. A handler that throws has changed nothing. -/
def callTool {σ : Type} (requiredScopes : List JsString) (principal : DownstreamPrincipal)
    (handler : σ → Except Thrown (Json × σ)) (state : σ) : σ × ToolResponse :=
  let absent := missingScopes principal requiredScopes
  let outcome :=
    if absent.isEmpty then handler state
    else .error (.gateway (scopeDeniedError absent principal.scopes))
  match outcome with
  | .ok (result, state) => (state, .content result)
  | .error e =>
    let failure := describeFailure e
    (state, .isError failure.data failure.message)

theorem callTool_content {σ : Type} {required : List JsString} {principal : DownstreamPrincipal}
    {handler : σ → Except Thrown (Json × σ)} {s : σ} {result : Json} :
    (callTool required principal handler s).2 = .content result ↔
      missingScopes principal required = [] ∧ ∃ s', handler s = .ok (result, s') := by
  unfold callTool
  cases habsent : missingScopes principal required with
  | nil =>
    simp only [List.isEmpty_nil, if_true]
    cases handler s with
    | ok outcome =>
      obtain ⟨result', s'⟩ := outcome
      simp
    | error e => simp
  | cons scope scopes => simp

theorem missingScopes_single {principal : DownstreamPrincipal} {scope : JsString} :
    missingScopes principal [scope] = [] ↔ hasScope principal.scopes scope = true := by
  simp [missingScopes]

-- ---------------------------------------------------------------------------
-- Two runs of a handler
-- ---------------------------------------------------------------------------

section
variable {σ : Type} {R : σ → σ → Prop}

/-- Two runs of a handler that fail alike, or return the same result and related states. -/
inductive SameOutcome (R : σ → σ → Prop) :
    Except Thrown (Json × σ) → Except Thrown (Json × σ) → Prop
  | ok (result : Json) {s s' : σ} (h : R s s') : SameOutcome R (.ok (result, s)) (.ok (result, s'))
  | error (e : Thrown) : SameOutcome R (.error e) (.error e)

theorem callTool_related {required : List JsString} {principal : DownstreamPrincipal}
    {handler : σ → Except Thrown (Json × σ)} {s s' : σ} (h : R s s')
    (hhandler : SameOutcome R (handler s) (handler s')) :
    (callTool required principal handler s).2 = (callTool required principal handler s').2 ∧
      R (callTool required principal handler s).1 (callTool required principal handler s').1 := by
  unfold callTool
  by_cases habsent : (missingScopes principal required).isEmpty = true
  · simp only [habsent, if_true]
    generalize handler s = outcome, handler s' = outcome' at hhandler ⊢
    cases hhandler with
    | ok result hnext => exact ⟨rfl, hnext⟩
    | error e => exact ⟨rfl, h⟩
  · simp only [habsent]
    exact ⟨rfl, h⟩

end

end McpGateway.Runtime
