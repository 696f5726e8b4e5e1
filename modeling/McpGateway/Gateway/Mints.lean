import McpGateway.Auth.Principal
import McpGateway.Auth.TokenExchange
import McpGateway.Idp.Server

/-!
# Tokens for downstream calls

Every place of the gateway that mints a token, what it asks for, and what the
identity provider answers. The token presented is the one the request came with.
-/

namespace McpGateway.Gateway

open Js Shared Auth Idp

section
variable (principal : Principal) (inboundToken : Option JsString)

/-- The scopes that belong to the server: `scope.startsWith(...)`. -/
def requestedScopes (target : McpTarget) : List JsString :=
  principal.scopes.filter (target.namespace ++ js ":").isPrefixOf

def toolMint (target : McpTarget) : MintInput where
  subject := principal.subject
  subjectToken := inboundToken.getD []
  audience := target.audience
  scopes := requestedScopes principal target

def policyMint (scope : String) : MintInput where
  subject := principal.subject
  subjectToken := inboundToken.getD []
  audience := McpTarget.policyEngine.audience
  scopes := [js scope]

def policyStageMint : MintInput := policyMint principal inboundToken "policy:evaluate"

def listPoliciesMint : MintInput := policyMint principal inboundToken "policy:read"

def tryPolicyMint : MintInput := policyMint principal inboundToken "policy:evaluate"

end

-- ---------------------------------------------------------------------------
-- The provider
-- ---------------------------------------------------------------------------

/-- The form `exchangeToken` posts. -/
def exchangeBody (input : MintInput) : ExchangeBody where
  subjectToken := some input.subjectToken
  subjectTokenType := some accessTokenType
  audience := some input.audience
  scope := if input.scopes.length > 0 then some (joinScopes input.scopes) else none

def tokenEndpointError (error description : JsString) (status : Nat) : ProviderAnswer :=
  .failed (.gateway (badRequestError (error ++ js ": " ++ description)
    [(js "status", .number (.finite status)), (js "oauthError", .string error)]))

/-- What `exchangeToken` makes of a reply of the token endpoint. -/
def providerAnswer : Reply ExchangeResponse → ProviderAnswer
  | .sent r => .response ⟨r.accessToken, some (.finite r.expiresIn), some r.scope⟩
  | .refused e => tokenEndpointError e.error e.description e.status
  | .loginPage status _ =>
    tokenEndpointError (js "invalid_request") (js "Token endpoint returned " ++ decimal status) status
  | .threw _ =>
    tokenEndpointError (js "Internal Server Error") (js "Token endpoint returned 500") 500

def decodeClaims (jose : Jose) (token : JsString) : Except Thrown DecodedClaims :=
  match jose.decodeJwt token with
  | none => throw (.other (some (js "Invalid JWT")))
  | some payload => return ⟨payload.sub, some (.finite payload.exp)⟩

end McpGateway.Gateway
