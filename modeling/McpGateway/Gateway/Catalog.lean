import McpGateway.Auth.TokenExchange
import McpGateway.Shared.Domain

/-!
# The tools the gateway routes to

The catalogue is held here, so that an unknown tool name is refused before any
token is minted. Titles and descriptions are for the console and left out.
-/

namespace McpGateway.Gateway

open Js Shared Auth

def serverId : McpTarget → JsString
  | .salesforce => js "salesforce"
  | .postgres => js "postgres"
  | .policyEngine => js "policy-engine"

/-- `z.enum(['salesforce', 'postgres', 'policy-engine'])`. -/
def serverOf (id : JsString) : Option McpTarget :=
  [.salesforce, .postgres, .policyEngine].find? fun server => decide (serverId server = id)

structure CatalogEntry where
  name : JsString
  server : McpTarget
  requiredScopes : List JsString

def toolCatalog : List CatalogEntry :=
  [⟨js "sf.query", .salesforce, [js "salesforce:read"]⟩,
    ⟨js "sf.get_contact", .salesforce, [js "salesforce:read"]⟩,
    ⟨js "sf.list_opportunities", .salesforce, [js "salesforce:read"]⟩,
    ⟨js "sf.create_task", .salesforce, [js "salesforce:write"]⟩,
    ⟨js "pg.list_tables", .postgres, [js "postgres:read"]⟩,
    ⟨js "pg.describe_table", .postgres, [js "postgres:read"]⟩,
    ⟨js "pg.query", .postgres, [js "postgres:query"]⟩,
    ⟨js "policy.explain", .policyEngine, [js "policy:evaluate"]⟩,
    ⟨js "policy.list_rules", .policyEngine, [js "policy:read"]⟩]

/-- `BY_NAME.get(name)`. -/
def findTool (name : JsString) : Option CatalogEntry :=
  toolCatalog.find? fun entry => decide (entry.name = name)

def missingFrom (held : List JsString) (entry : CatalogEntry) : List JsString :=
  entry.requiredScopes.filter fun scope => !hasScope held scope

section
variable {name : JsString} {entry : CatalogEntry}

theorem findTool_name (h : findTool name = some entry) : entry.name = name := by
  unfold findTool at h
  have hfound := List.find?_some h
  simpa using hfound

theorem missingFrom_nil {held : List JsString} :
    missingFrom held entry = [] ↔ ∀ scope ∈ entry.requiredScopes, hasScope held scope = true := by
  simp [missingFrom, List.filter_eq_nil_iff]

end

end McpGateway.Gateway
