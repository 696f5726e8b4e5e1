import McpGateway.Idp.Narrowing
import McpGateway.Lib.History
import Mathlib.Tactic.SplitIfs

/-!
# The provider's endpoints

POST /authorize, POST /token, POST /revoke and the sweeper over one store. The
handler of a token request runs without a pause until it signs the access token
and goes on when that is done, so other requests may come in between.
-/

namespace McpGateway.Idp

open Js Shared

-- ---------------------------------------------------------------------------
-- Client authentication
-- ---------------------------------------------------------------------------

/-- How the platform reads credentials from a header. -/
structure Decoders where
  /-- `Buffer.from(text, 'base64').toString('utf8')`. -/
  base64Text : JsString → JsString
  decodeURIComponent : JsString → Except Thrown JsString

/-- The form of a token request; what is not sent is absent. -/
structure TokenBody where
  grantType : Option JsString := none
  clientId : Option JsString := none
  clientSecret : Option JsString := none
  code : Option JsString := none
  codeVerifier : Option JsString := none
  redirectUri : Option JsString := none
  refreshToken : Option JsString := none
  tenantId : Option JsString := none
  audience : Option JsString := none
  scope : Option JsString := none
  subjectToken : Option JsString := none
  subjectTokenType : Option JsString := none
  deriving DecidableEq

structure TokenRequest where
  authorization : Option JsString := none
  body : TokenBody
  deriving DecidableEq

structure Credentials where
  clientId : Option JsString
  clientSecret : Option JsString
  deriving DecidableEq, Repr

/-- What precedes the first colon and what follows it, when something precedes it. -/
def splitCredentials (decoded : JsString) : Option (JsString × JsString) :=
  match decoded.takeWhile (· != colon), decoded.dropWhile (· != colon) with
  | first :: name, _ :: secret => some (first :: name, secret)
  | _, _ => none

/-- Accepts `client_secret_basic` and `client_secret_post`, in that order. -/
def resolveClientCredentials (decode : Decoders) (authorization : Option JsString)
    (body : TokenBody) : Except Thrown Credentials :=
  let posted : Credentials := ⟨present body.clientId, present body.clientSecret⟩
  match authorization.filter (js "Basic ").isPrefixOf with
  | none => return posted
  | some header =>
    match splitCredentials (decode.base64Text (header.drop 6)) with
    | none => return posted
    | some (name, secret) => do
      let clientId ← decode.decodeURIComponent name
      let clientSecret ← decode.decodeURIComponent secret
      return ⟨some clientId, some clientSecret⟩

def invalidClient (description : String) : OauthError := ⟨401, js "invalid_client", js description⟩

def authenticateClient (config : Config) (credentials : Credentials) :
    Except OauthError SeedClient :=
  match (present credentials.clientId).bind config.seed.findClient with
  | none => throw (invalidClient "Unknown client")
  | some client =>
    if client.confidential then
      match present credentials.clientSecret, client.clientSecret with
      | some presented, some secret =>
        if constantTimeEquals secret presented then return client
        else throw (invalidClient "Client authentication failed")
      | _, _ => throw (invalidClient "Client authentication required")
    else return client

-- ---------------------------------------------------------------------------
-- Responses
-- ---------------------------------------------------------------------------

/-- A response whose tokens are being signed. -/
structure Signing where
  user : SeedUser
  clientId : JsString
  scopes : List JsString
  accessToken : JsString
  includeIdToken : Bool
  includeRefresh : Bool
  deriving DecidableEq

def responseClaims (config : Config) (user : SeedUser) (clientId : JsString)
    (scopes : List JsString) (audience : JsString) (nowMs : ℤ) (jti : JsString) : JwtPayload :=
  accessTokenClaims
    { issuer := config.issuer, user, clientId, audience, scopes
      ttlSeconds := config.accessTokenTtl } nowMs jti

/-- `issueTokenResponse` until it waits for the access token. -/
def beginTokenResponse (config : Config) (user : SeedUser) (clientId : JsString)
    (scopes : List JsString) (audience : JsString) (includeIdToken includeRefresh : Bool)
    (nowMs : ℤ) (jti : JsString) : Signing where
  user := user
  clientId := clientId
  scopes := scopes
  accessToken := config.jose.sign (responseClaims config user clientId scopes audience nowMs jti)
  includeIdToken := includeIdToken
  includeRefresh := includeRefresh

/-- The rest of it: a refresh token is drawn and kept. -/
def finishTokenResponse (config : Config) (s : IdpState) (p : Signing) (nowMs : ℤ)
    (refresh : JsString) : IdpState × TokenResponse :=
  let response : TokenResponse :=
    { accessToken := p.accessToken
      expiresIn := config.accessTokenTtl
      scope := joinScopes p.scopes
      idToken := p.includeIdToken
      refreshToken := if p.includeRefresh then some refresh else none }
  if p.includeRefresh then
    let grant : RefreshGrant := ⟨p.user.id, p.clientId, p.scopes, nowMs + refreshTtlMs⟩
    ({ s with refreshTokens := s.refreshTokens.set refresh grant }, response)
  else (s, response)

theorem issueTokenResponse_eq (config : Config) (s : IdpState) (user : SeedUser)
    (clientId : JsString) (scopes : List JsString) (includeIdToken includeRefresh : Bool)
    (nowMs : ℤ) (drawn : Drawn) :
    issueTokenResponse config s user clientId scopes includeIdToken includeRefresh nowMs drawn =
      ((finishTokenResponse config s (beginTokenResponse config user clientId scopes clientId
          includeIdToken includeRefresh nowMs drawn.jti) nowMs drawn.refresh).1,
        .sent (finishTokenResponse config s (beginTokenResponse config user clientId scopes clientId
          includeIdToken includeRefresh nowMs drawn.jti) nowMs drawn.refresh).2) := by
  cases includeRefresh <;> rfl

-- ---------------------------------------------------------------------------
-- Grants
-- ---------------------------------------------------------------------------

/-- `handleAuthorizationCode` until it waits. -/
def presentCode (config : Config) (s : IdpState) (body : CodeBody) (clientId : JsString)
    (nowMs : ℤ) (jti : JsString) : IdpState × Except OauthError Signing :=
  match present body.code, present body.codeVerifier with
  | some code, some verifier =>
    let consumed := { s with codes := s.codes.delete code }
    (consumed, checked (s.codes.get code) verifier)
  | _, _ => (s, .error ⟨400, js "invalid_request", js "code and code_verifier are required"⟩)
where
  invalid (description : String) : Except OauthError Signing :=
    .error ⟨400, js "invalid_grant", js description⟩
  checked (grant : Option AuthorizationCode) (verifier : JsString) : Except OauthError Signing :=
    match grant with
    | none => invalid "Unknown or already-used code"
    | some grant =>
      if grant.expiresAt < nowMs then invalid "Authorization code has expired"
      else if grant.clientId ≠ clientId then invalid "Code was issued to a different client"
      else if body.redirectUri.any fun uri => decide (uri ≠ grant.redirectUri) then
        invalid "redirect_uri mismatch"
      else if ¬ verifyPkce verifier grant.codeChallenge then invalid "PKCE verification failed"
      else match config.seed.findUserById grant.userId with
        | none => invalid "Subject no longer exists"
        | some user =>
          .ok (beginTokenResponse config user clientId grant.scopes clientId
            (grant.scopes.contains (js "openid")) (grant.scopes.contains (js "offline_access"))
            nowMs jti)

/-- `handleRefresh` until it waits. -/
def presentRefresh (config : Config) (s : IdpState) (refreshToken : Option JsString)
    (clientId : JsString) (nowMs : ℤ) (jti : JsString) : IdpState × Except OauthError Signing :=
  match present refreshToken with
  | none => (s, .error ⟨400, js "invalid_request", js "refresh_token is required"⟩)
  | some token =>
    ({ s with refreshTokens := s.refreshTokens.delete token }, checked (s.refreshTokens.get token))
where
  invalid (description : String) : Except OauthError Signing :=
    .error ⟨400, js "invalid_grant", js description⟩
  checked (grant : Option RefreshGrant) : Except OauthError Signing :=
    match grant with
    | none => invalid "Refresh token is not valid"
    | some grant =>
      if grant.expiresAt < nowMs then invalid "Refresh token is not valid"
      else if grant.clientId ≠ clientId then invalid "Refresh token belongs to another client"
      else match config.seed.findUserById grant.userId with
        | none => invalid "Subject no longer exists"
        | some user =>
          .ok (beginTokenResponse config user clientId grant.scopes clientId false true nowMs jti)

def finished (config : Config) (nowMs : ℤ) (refresh : JsString) :
    IdpState × Except OauthError Signing → IdpState × Reply TokenResponse
  | (s, .error e) => (s, .refused e)
  | (s, .ok p) =>
    ((finishTokenResponse config s p nowMs refresh).1,
      .sent (finishTokenResponse config s p nowMs refresh).2)

theorem handleAuthorizationCode_eq (config : Config) (s : IdpState) (body : CodeBody)
    (clientId : JsString) (nowMs : ℤ) (drawn : Drawn) :
    handleAuthorizationCode config s body clientId nowMs drawn =
      finished config nowMs drawn.refresh
        (presentCode config s body clientId nowMs drawn.jti) := by
  unfold handleAuthorizationCode presentCode
  cases present body.code with
  | none => rfl
  | some code =>
    cases present body.codeVerifier with
    | none => rfl
    | some verifier =>
      dsimp only
      cases s.codes.get code with
      | none => rfl
      | some grant =>
        unfold presentCode.checked
        dsimp only
        cases config.seed.findUserById grant.userId with
        | none => split_ifs <;> rfl
        | some user =>
          simp only [issueTokenResponse_eq]
          split_ifs <;> rfl

theorem handleRefresh_eq (config : Config) (s : IdpState) (refreshToken : Option JsString)
    (clientId : JsString) (nowMs : ℤ) (drawn : Drawn) :
    handleRefresh config s refreshToken clientId nowMs drawn =
      finished config nowMs drawn.refresh
        (presentRefresh config s refreshToken clientId nowMs drawn.jti) := by
  unfold handleRefresh presentRefresh
  cases present refreshToken with
  | none => rfl
  | some token =>
    dsimp only
    cases s.refreshTokens.get token with
    | none => rfl
    | some grant =>
      unfold presentRefresh.checked
      dsimp only
      cases config.seed.findUserById grant.userId with
      | none => split_ifs <;> rfl
      | some user =>
        simp only [issueTokenResponse_eq]
        split_ifs <;> rfl

-- ---------------------------------------------------------------------------
-- POST /token
-- ---------------------------------------------------------------------------

/-- What an event is answered; a request whose tokens are being signed has no answer yet. -/
inductive Answer
  | code (reply : Reply JsString)
  | refused (e : OauthError)
  | threw (e : Thrown)
  | exchanged (reply : Reply ExchangeResponse)
  | signing (p : Signing)
  /-- The response to the request whose tokens were signed. -/
  | tokens (p : Signing) (response : TokenResponse)
  | done

def Answer.begun : Except OauthError Signing → Answer
  | .error e => .refused e
  | .ok p => .signing p

/-- A service principal is a subject of its own. -/
def servicePrincipal (clientId tenantId : JsString) : SeedUser where
  id := js "svc_" ++ clientId
  email := clientId ++ js "@service.local"
  password := []
  name := clientId
  tenantId := tenantId
  role := .analyst
  territory := none

def handleClientCredentials (config : Config) (body : TokenBody) (clientId : JsString)
    (clientAllowed : List JsString) (nowMs : ℤ) (jti : JsString) : Answer :=
  match present body.tenantId with
  | none => .refused ⟨400, js "invalid_request", js "tenant_id is required for this grant"⟩
  | some tenantId =>
    match narrowScopes (parseScopeParam body.scope) clientAllowed clientAllowed (.array []) with
    | .error e => .threw e
    | .ok scopes =>
      .signing (beginTokenResponse config (servicePrincipal clientId tenantId) clientId scopes
        (body.audience.getD clientId) false false nowMs jti)

def authorizationCodeGrant : JsString := js "authorization_code"

def refreshTokenGrant : JsString := js "refresh_token"

def tokenExchangeGrant : JsString := js "urn:ietf:params:oauth:grant-type:token-exchange"

/-- The client of a request and the grant it asks for, which must be permitted to it. -/
def admitClient (config : Config) (decode : Decoders) (request : TokenRequest) :
    Except Answer (SeedClient × JsString) := do
  let credentials ← (resolveClientCredentials decode request.authorization request.body).mapError
    Answer.threw
  let client ← (authenticateClient config credentials).mapError Answer.refused
  match request.body.grantType.filter client.allowedGrants.contains with
  | none =>
    let grantType := request.body.grantType.getD (js "undefined")
    throw (.refused ⟨400, js "unauthorized_client", js "Grant '" ++ grantType ++ js "' not permitted"⟩)
  | some grantType => return (client, grantType)

def grant (config : Config) (s : IdpState) (body : TokenBody) (client : SeedClient)
    (grantType : JsString) (nowMs : ℤ) (jti : JsString) : IdpState × Answer :=
  if grantType = authorizationCodeGrant then
    (presentCode config s ⟨body.code, body.codeVerifier, body.redirectUri⟩ client.clientId nowMs
      jti).map id Answer.begun
  else if grantType = refreshTokenGrant then
    (presentRefresh config s body.refreshToken client.clientId nowMs jti).map id Answer.begun
  else if grantType = js "client_credentials" then
    (s, handleClientCredentials config body client.clientId client.allowedScopes nowMs jti)
  else if grantType = tokenExchangeGrant then
    (s, .exchanged (handleTokenExchange config client.clientId client.allowedScopes
      ⟨body.subjectToken, body.subjectTokenType, body.audience, body.scope⟩ nowMs jti))
  else (s, .refused ⟨400, js "unsupported_grant_type", js "Unsupported: " ++ grantType⟩)

def token (config : Config) (decode : Decoders) (s : IdpState) (request : TokenRequest)
    (nowMs : ℤ) (jti : JsString) : IdpState × Answer :=
  match admitClient config decode request with
  | .error refusal => (s, refusal)
  | .ok (client, grantType) => grant config s request.body client grantType nowMs jti

-- ---------------------------------------------------------------------------
-- Runs
-- ---------------------------------------------------------------------------

/-- What happens at the provider, with the clock and the random values of that moment. A
request whose tokens were being signed is named by the position it arrived at. -/
inductive Event
  | authorize (body : AuthorizeBody) (nowMs : ℤ) (code : JsString)
  | token (request : TokenRequest) (nowMs : ℤ) (jti : JsString)
  | signed (arrival : Nat) (nowMs : ℤ) (refresh : JsString)
  | revoke (token : Option JsString)
  | sweep (nowMs : ℤ)

/-- The store, the requests that wait, and how many events there have been. -/
structure Provider where
  idp : IdpState
  waiting : JsMap Nat Signing
  events : Nat

def Provider.started : Provider := ⟨.started, .empty, 0⟩

/-- POST /revoke: anybody may, and the reply does not say whether there was such a token. -/
def revoke (s : IdpState) (refreshToken : Option JsString) : IdpState :=
  match present refreshToken with
  | none => s
  | some token => { s with refreshTokens := s.refreshTokens.delete token }

def Provider.step (config : Config) (decode : Decoders) (s : Provider) :
    Event → Provider × Answer
  | .authorize body nowMs code =>
    let (idp, reply) := authorize config s.idp body nowMs code
    (⟨idp, s.waiting, s.events + 1⟩, .code reply)
  | .token request nowMs jti =>
    let (idp, answer) := token config decode s.idp request nowMs jti
    let waiting := match answer with
      | .signing p => s.waiting.set s.events p
      | _ => s.waiting
    (⟨idp, waiting, s.events + 1⟩, answer)
  | .signed arrival nowMs refresh =>
    match s.waiting.get arrival with
    | none => (⟨s.idp, s.waiting, s.events + 1⟩, .done)
    | some p =>
      let (idp, response) := finishTokenResponse config s.idp p nowMs refresh
      (⟨idp, s.waiting.delete arrival, s.events + 1⟩, .tokens p response)
  | .revoke token => (⟨revoke s.idp token, s.waiting, s.events + 1⟩, .done)
  | .sweep nowMs => (⟨sweep s.idp nowMs, s.waiting, s.events + 1⟩, .done)

def history (config : Config) (decode : Decoders) (events : List Event) : List (Event × Answer) :=
  History.transcript (Provider.step config decode) .started events

end McpGateway.Idp
