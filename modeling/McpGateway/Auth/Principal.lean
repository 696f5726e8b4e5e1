import McpGateway.Idp.Tokens

/-!
# The caller of a request

A verified token is projected into a `Principal`; nothing else says who calls.
-/

namespace McpGateway.Auth

open Js Shared Words Idp

structure Principal where
  subject : JsString
  tenantId : JsString
  role : Role
  scopes : List JsString
  tokenId : JsString
  clientId : JsString
  expiresAt : ℤ
  email : Option JsString
  name : Option JsString
  deriving DecidableEq, Repr

/-- `value.split(/\s+/)`, empty pieces left out. -/
def parseScope (value : Option JsString) : List JsString := words isSpace (value.getD [])

/-- `roleSchema`, with `viewer` for what it does not accept. -/
def roleOf (role : Option JsString) : Role :=
  ([.admin, .manager, .analyst].find? fun r => decide (some r.text = role)).getD .viewer

def missingClaim (message : String) : Thrown := .gateway (unauthenticatedError (js message))

def principalFromClaims (payload : JwtPayload) : Except Thrown Principal :=
  match payload.sub, payload.tenantId, payload.jti with
  | none, _, _ | some [], _, _ => throw (missingClaim "Token carries no subject")
  | _, none, _ | _, some [], _ => throw (missingClaim "Token carries no tenant_id claim")
  | _, _, [] => throw (missingClaim "Token carries no jti claim")
  | some subject, some tenantId, jti => return {
      subject
      tenantId
      role := roleOf payload.role
      scopes := parseScope payload.scope
      tokenId := jti
      clientId := payload.clientId.getD (js "unknown")
      expiresAt := payload.exp
      email := payload.email
      name := payload.name }

theorem principalFromClaims_scopes {payload : JwtPayload} {principal : Principal}
    (h : principalFromClaims payload = .ok principal) :
    principal.scopes = parseScope payload.scope ∧ payload.sub = some principal.subject := by
  unfold principalFromClaims at h
  split at h
  any_goals cases h
  next => exact ⟨rfl, by assumption⟩

end McpGateway.Auth
