import McpGateway.Js.Convert

/-!
# The rule grammar

Conditions, rules and bundles, and the document a rule is evaluated against.
-/

namespace McpGateway.Policy

open Js

inductive Operator
  | eq
  | ne
  | in_
  | notIn
  | matches_
  | notMatches
  | gt
  | gte
  | lt
  | lte
  | exists_
  | missing
  | contains
  | notContains
  | containsAny
  | startsWith
  | eqField
  | neField
  deriving DecidableEq

structure Condition where
  path : Option JsString := none
  op : Option Operator := none
  value : Option Json := none
  all : Option (List Condition) := none
  any : Option (List Condition) := none
  not : Option Condition := none

inductive Decision
  | allow
  | deny
  deriving DecidableEq

/-- `annotate` attaches metadata without deciding the request. -/
inductive Effect
  | decide (decision : Decision)
  | annotate
  deriving DecidableEq

structure Rule where
  id : JsString
  priority : Nat := 500
  effect : Effect
  description : JsString := []
  reason : Option JsString := none
  rateTier : Option JsString := none
  «match» : Condition

structure Bundle where
  name : JsString
  /-- Applied when no rule decides. -/
  defaultEffect : Decision := .deny
  defaultReason : JsString := js "No policy rule permits this call"
  rules : List Rule

structure PolicyPrincipal where
  subject : JsString
  tenantId : JsString
  role : JsString
  scopes : List JsString := []
  territory : Option JsString := none

structure Tenant where
  id : JsString
  plan : JsString

structure EvaluationInput where
  tool : JsString
  server : JsString
  principal : PolicyPrincipal
  tenant : Tenant
  arguments : List (JsString × Json) := []

def EvaluationInput.document (input : EvaluationInput) : Json :=
  .object
    [(js "tool", .string input.tool),
      (js "server", .string input.server),
      (js "principal", .object
        [(js "subject", .string input.principal.subject),
          (js "tenantId", .string input.principal.tenantId),
          (js "role", .string input.principal.role),
          (js "scopes", .array (input.principal.scopes.map .string)),
          (js "territory", (input.principal.territory.map Json.string).getD .null)]),
      (js "tenant", .object
        [(js "id", .string input.tenant.id), (js "plan", .string input.tenant.plan)]),
      (js "arguments", .object input.arguments)]

end McpGateway.Policy
