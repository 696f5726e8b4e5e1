import McpGateway.Idp.Directory
import McpGateway.Lib.Outcome
import McpGateway.Lib.Words
import McpGateway.Shared.Errors

/-!
# Issued tokens and their scopes

Signing and verification are the JOSE library's. What the provider relies on is
that a token that verifies has the payload it was signed with.
-/

namespace McpGateway.Idp

open Js Shared Words Outcome

-- ---------------------------------------------------------------------------
-- Tokens
-- ---------------------------------------------------------------------------

/-- The claims of a token; a claim of another type than the code expects is absent. -/
structure JwtPayload where
  iss : JsString
  sub : Option JsString
  aud : JsString
  iat : ℤ
  nbf : ℤ
  exp : ℤ
  jti : JsString
  scope : Option JsString := none
  clientId : Option JsString := none
  tenantId : Option JsString := none
  role : Option JsString := none
  email : Option JsString := none
  name : Option JsString := none
  territory : Option JsString := none
  /-- `act.sub`: who performed the exchange. -/
  actor : Option JsString := none
  deriving DecidableEq, Repr

structure Jose where
  sign : JwtPayload → JsString
  /-- The payload of a token of the issuer that verifies at a time in seconds. -/
  jwtVerify : JsString → ℤ → JsString → Option JwtPayload
  /-- The payload of a token, not verified. -/
  decodeJwt : JsString → Option JwtPayload

/-- A token that verifies has the payload it is decoded to, and a token that was signed
is decoded to what was signed. -/
structure Jose.Lawful (jose : Jose) : Prop where
  verify : ∀ issuer now token p, jose.jwtVerify issuer now token = some p →
    jose.decodeJwt token = some p
  decode : ∀ p q, jose.decodeJwt (jose.sign p) = some q → q = p

def Jose.ofSigned (signed : List (JsString × JwtPayload)) : Jose :=
  let read (token : JsString) := (signed.find? fun e => decide (e.1 = token)).map Prod.snd
  { sign := fun p => ((signed.find? fun e => decide (e.2 = p)).map Prod.fst).getD []
    jwtVerify := fun issuer now token => (read token).filter fun p =>
      decide (p.iss = issuer ∧ p.nbf ≤ now ∧ now < p.exp)
    decodeJwt := read }

theorem Jose.ofSigned_lawful {signed : List (JsString × JwtPayload)}
    (h : ([] :: signed.map Prod.fst).Nodup) : (Jose.ofSigned signed).Lawful := by
  obtain ⟨hnil, hnodup⟩ := List.nodup_cons.mp h
  have hdecode : ∀ p q, (Jose.ofSigned signed).decodeJwt ((Jose.ofSigned signed).sign p) = some q →
      q = p := by
    intro p q hq
    obtain ⟨e, he, rfl⟩ := Option.map_eq_some_iff.mp hq
    have hmem := List.mem_of_find?_eq_some he
    have hfound := List.find?_some he
    have hkey : e.1 = (Jose.ofSigned signed).sign p := of_decide_eq_true hfound
    dsimp only [Jose.ofSigned] at hkey
    cases hfind : signed.find? fun e => decide (e.2 = p) with
    | none =>
      rw [hfind] at hkey
      exact absurd (List.mem_map.mpr ⟨e, hmem, hkey⟩) hnil
    | some d =>
      rw [hfind] at hkey
      have hsigned := List.find?_some hfind
      have hd : d.2 = p := of_decide_eq_true hsigned
      rw [List.inj_on_of_nodup_map hnodup hmem (List.mem_of_find?_eq_some hfind) hkey, hd]
  exact ⟨fun _ _ _ _ h => (Option.mem_filter_iff.mp h).1, hdecode⟩

structure IssueAccessTokenInput where
  issuer : JsString
  user : SeedUser
  clientId : JsString
  audience : JsString
  scopes : List JsString
  ttlSeconds : ℤ
  actor : Option JsString := none

structure IssuedToken where
  token : JsString
  jti : JsString
  expiresAt : ℤ
  scopes : List JsString
  deriving DecidableEq, Repr

/-- `scopes.join(' ')`. -/
def joinScopes (scopes : List JsString) : JsString := List.intercalate [blank] scopes

def accessTokenClaims (input : IssueAccessTokenInput) (nowMs : ℤ) (jti : JsString) : JwtPayload where
  iss := input.issuer
  sub := some input.user.id
  aud := input.audience
  iat := nowMs / 1000
  nbf := nowMs / 1000
  exp := nowMs / 1000 + input.ttlSeconds
  jti := jti
  scope := some (joinScopes input.scopes)
  clientId := some input.clientId
  tenantId := some input.user.tenantId
  role := some input.user.role.text
  email := some input.user.email
  name := some input.user.name
  territory := input.user.territory
  actor := input.actor

def issueAccessToken (jose : Jose) (input : IssueAccessTokenInput) (nowMs : ℤ) (jti : JsString) :
    IssuedToken where
  token := jose.sign (accessTokenClaims input nowMs jti)
  jti := jti
  expiresAt := nowMs / 1000 + input.ttlSeconds
  scopes := input.scopes

-- ---------------------------------------------------------------------------
-- Scopes
-- ---------------------------------------------------------------------------

/-- `[\s+]`. -/
def isScopeSeparator (c : CodeUnit) : Bool := isSpace c || c == plusSign

def parseScopeParam (value : Option JsString) : List JsString :=
  words isScopeSeparator (value.getD [])

/-- `scope.split(':')[0]`. -/
def namespaceOf (scope : JsString) : JsString := scope.takeWhile (· != colon)

/-- `namespaceFilter`: nothing restricts an empty list, and a property that is not a
list has no `includes`. -/
def namespaceFilter (namespaces : Namespaces) (scope : JsString) : Except Thrown Bool :=
  match namespaces with
  | .array [] => return true
  | .array names => return names.contains (namespaceOf scope)
  | .inherited (some 0) => return true
  | .inherited _ => throw (.other (js "audienceNamespaces.includes is not a function"))

/-- `sort()`: by code units. -/
def sortScopes (scopes : List JsString) : List JsString := scopes.insertionSort (· ≤ ·)

def narrowScopes (requested subjectEntitlements clientAllowed : List JsString)
    (audienceNamespaces : Namespaces) : Except Thrown (List JsString) := do
  let candidates := if requested.length > 0 then requested else subjectEntitlements
  let granted := (candidates.eraseDups.filter subjectEntitlements.contains).filter
    clientAllowed.contains
  return sortScopes (← filterExcept (namespaceFilter audienceNamespaces) granted)

end McpGateway.Idp
