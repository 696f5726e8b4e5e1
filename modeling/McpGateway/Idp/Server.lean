import McpGateway.Idp.Tokens
import McpGateway.Js.Base64
import McpGateway.Js.Map

/-!
# The identity provider

The handlers of POST /authorize and POST /token that issue codes and tokens.
Request bodies are parsed; the time in milliseconds and the random values a
request draws come with it.
-/

namespace McpGateway.Idp

open Js Shared

structure Config where
  jose : Jose
  seed : Seed
  issuer : JsString
  accessTokenTtl : ℤ := 900

structure AuthorizationCode where
  userId : JsString
  clientId : JsString
  redirectUri : JsString
  scopes : List JsString
  codeChallenge : JsString
  expiresAt : ℤ
  deriving DecidableEq, Repr

structure RefreshGrant where
  userId : JsString
  clientId : JsString
  scopes : List JsString
  expiresAt : ℤ
  deriving DecidableEq, Repr

structure IdpState where
  codes : JsMap JsString AuthorizationCode
  refreshTokens : JsMap JsString RefreshGrant
  deriving DecidableEq, Repr

def IdpState.started : IdpState := ⟨.empty, .empty⟩

def authCodeTtlMs : ℤ := 60000

def refreshTtlMs : ℤ := 8 * 60 * 60 * 1000

/-- A value of a form that is absent or empty is falsy. -/
def present (value : Option JsString) : Option JsString := value.filter fun s => !s.isEmpty

structure OauthError where
  status : Nat
  error : JsString
  description : JsString
  deriving DecidableEq, Repr

/-- How a handler replies: with a body, with an OAuth error, with the login page and an
error on it, or by throwing. -/
inductive Reply (α : Type)
  | sent (body : α)
  | refused (e : OauthError)
  | loginPage (status : Nat) (error : JsString)
  | threw (e : Thrown)

def Reply.body? {α : Type} : Reply α → Option α
  | .sent body => some body
  | _ => none

theorem Reply.body?_eq_some {α : Type} {r : Reply α} {body : α} :
    r.body? = some body ↔ r = .sent body := by
  cases r <;> simp [Reply.body?]

def badRequest {α : Type} (error description : String) : Reply α :=
  .refused ⟨400, js error, js description⟩

/-- Two texts are compared by their bytes. -/
def constantTimeEquals (a b : JsString) : Bool := decide (utf8 a = utf8 b)

-- ---------------------------------------------------------------------------
-- POST /authorize
-- ---------------------------------------------------------------------------

structure AuthorizeBody where
  clientId : JsString
  redirectUri : JsString
  scope : Option JsString
  codeChallenge : JsString
  email : JsString
  password : JsString

/-- The code drawn, kept for a minute. -/
def authorize (config : Config) (s : IdpState) (body : AuthorizeBody) (nowMs : ℤ)
    (code : JsString) : IdpState × Reply JsString :=
  match config.seed.findClient body.clientId with
  | none => (s, badRequest "invalid_client" "Unknown client or redirect_uri")
  | some client =>
    if ¬ client.redirectUris.contains body.redirectUri then
      (s, badRequest "invalid_client" "Unknown client or redirect_uri")
    else match (config.seed.findUserByEmail body.email).filter fun user =>
        constantTimeEquals user.password body.password with
      | none => (s, .loginPage 401 (js "Those credentials are not valid."))
      | some user =>
        match narrowScopes (parseScopeParam body.scope) (config.seed.entitlementsFor user)
            client.allowedScopes (.array []) with
        | .error e => (s, .threw e)
        | .ok scopes =>
          let grant : AuthorizationCode :=
            { userId := user.id
              clientId := client.clientId
              redirectUri := body.redirectUri
              scopes
              codeChallenge := body.codeChallenge
              expiresAt := nowMs + authCodeTtlMs }
          ({ s with codes := s.codes.set code grant }, .sent code)

-- ---------------------------------------------------------------------------
-- The authorization code and refresh grants
-- ---------------------------------------------------------------------------

structure TokenResponse where
  accessToken : JsString
  expiresIn : ℤ
  scope : JsString
  /-- An ID token comes with it. -/
  idToken : Bool
  refreshToken : Option JsString
  deriving DecidableEq, Repr

structure CodeBody where
  code : Option JsString
  codeVerifier : Option JsString
  redirectUri : Option JsString

structure Drawn where
  jti : JsString
  refresh : JsString

/-- S256 only. -/
def verifyPkce (verifier challenge : JsString) : Bool :=
  constantTimeEquals (base64Url (sha256Bytes (asciiBytes verifier))) challenge

theorem verifyPkce_iff {verifier challenge : JsString} :
    verifyPkce verifier challenge = true ↔
      base64Url (sha256Bytes (asciiBytes verifier)) = challenge := by
  unfold verifyPkce constantTimeEquals
  rw [decide_eq_true_iff]
  exact ⟨eq_of_utf8_eq (base64Url_ascii _), congrArg utf8⟩

def issueTokenResponse (config : Config) (s : IdpState) (user : SeedUser) (clientId : JsString)
    (scopes : List JsString) (includeIdToken includeRefresh : Bool) (nowMs : ℤ) (drawn : Drawn) :
    IdpState × Reply TokenResponse :=
  let issued := issueAccessToken config.jose
    { issuer := config.issuer, user, clientId, audience := clientId, scopes
      ttlSeconds := config.accessTokenTtl } nowMs drawn.jti
  let response : TokenResponse :=
    { accessToken := issued.token
      expiresIn := config.accessTokenTtl
      scope := joinScopes scopes
      idToken := includeIdToken
      refreshToken := if includeRefresh then some drawn.refresh else none }
  if includeRefresh then
    let grant : RefreshGrant := ⟨user.id, clientId, scopes, nowMs + refreshTtlMs⟩
    ({ s with refreshTokens := s.refreshTokens.set drawn.refresh grant }, .sent response)
  else (s, .sent response)

def handleAuthorizationCode (config : Config) (s : IdpState) (body : CodeBody)
    (clientId : JsString) (nowMs : ℤ) (drawn : Drawn) : IdpState × Reply TokenResponse :=
  match present body.code, present body.codeVerifier with
  | some code, some verifier =>
    -- a code is consumed before it is checked
    let consumed := { s with codes := s.codes.delete code }
    match s.codes.get code with
    | none => (consumed, badRequest "invalid_grant" "Unknown or already-used code")
    | some grant =>
      if grant.expiresAt < nowMs then
        (consumed, badRequest "invalid_grant" "Authorization code has expired")
      else if grant.clientId ≠ clientId then
        (consumed, badRequest "invalid_grant" "Code was issued to a different client")
      else if body.redirectUri.any fun uri => decide (uri ≠ grant.redirectUri) then
        (consumed, badRequest "invalid_grant" "redirect_uri mismatch")
      else if ¬ verifyPkce verifier grant.codeChallenge then
        (consumed, badRequest "invalid_grant" "PKCE verification failed")
      else match config.seed.findUserById grant.userId with
        | none => (consumed, badRequest "invalid_grant" "Subject no longer exists")
        | some user =>
          issueTokenResponse config consumed user clientId grant.scopes
            (grant.scopes.contains (js "openid")) (grant.scopes.contains (js "offline_access"))
            nowMs drawn
  | _, _ => (s, badRequest "invalid_request" "code and code_verifier are required")

/-- Rotate on use: the presented token goes whether or not the request succeeds. -/
def handleRefresh (config : Config) (s : IdpState) (refreshToken : Option JsString)
    (clientId : JsString) (nowMs : ℤ) (drawn : Drawn) : IdpState × Reply TokenResponse :=
  match present refreshToken with
  | none => (s, badRequest "invalid_request" "refresh_token is required")
  | some token =>
    let rotated := { s with refreshTokens := s.refreshTokens.delete token }
    match s.refreshTokens.get token with
    | none => (rotated, badRequest "invalid_grant" "Refresh token is not valid")
    | some grant =>
      if grant.expiresAt < nowMs then
        (rotated, badRequest "invalid_grant" "Refresh token is not valid")
      else if grant.clientId ≠ clientId then
        (rotated, badRequest "invalid_grant" "Refresh token belongs to another client")
      else match config.seed.findUserById grant.userId with
        | none => (rotated, badRequest "invalid_grant" "Subject no longer exists")
        | some user =>
          issueTokenResponse config rotated user clientId grant.scopes false true nowMs drawn

/-- The sweeper: expired codes and refresh grants go. -/
def sweep (s : IdpState) (nowMs : ℤ) : IdpState where
  codes := ⟨s.codes.entries.filter fun e => !decide (e.2.expiresAt < nowMs)⟩
  refreshTokens := ⟨s.refreshTokens.entries.filter fun e => !decide (e.2.expiresAt < nowMs)⟩

-- ---------------------------------------------------------------------------
-- The token exchange grant
-- ---------------------------------------------------------------------------

def accessTokenType : JsString := js "urn:ietf:params:oauth:token-type:access_token"

structure ExchangeBody where
  subjectToken : Option JsString
  subjectTokenType : Option JsString
  audience : Option JsString
  scope : Option JsString
  deriving DecidableEq, Repr

structure ExchangeResponse where
  accessToken : JsString
  expiresIn : ℤ
  scope : JsString
  deriving DecidableEq, Repr

def exchangedTtl (config : Config) : ℤ := min config.accessTokenTtl 300

def subjectEntitlements (config : Config) (claims : JwtPayload) (user : SeedUser) : List JsString :=
  (parseScopeParam claims.scope).filter (config.seed.entitlementsFor user).contains

def grantExchange (config : Config) (clientId : JsString) (clientAllowed : List JsString)
    (claims : JwtPayload) (user : SeedUser) (audience : JsString) (scope : Option JsString)
    (nowMs : ℤ) (jti : JsString) : Reply ExchangeResponse :=
  match narrowScopes (parseScopeParam scope) (subjectEntitlements config claims user) clientAllowed
      (config.seed.namespacesFor audience) with
  | .error e => .threw e
  | .ok [] => .refused ⟨400, js "invalid_scope",
      js "Subject holds no scopes valid for audience '" ++ audience ++ js "'"⟩
  | .ok (first :: rest) =>
    let granted := first :: rest
    let issued := issueAccessToken config.jose
      { issuer := config.issuer, user, clientId, audience, scopes := granted
        ttlSeconds := exchangedTtl config, actor := some clientId } nowMs jti
    .sent
      { accessToken := issued.token
        expiresIn := exchangedTtl config
        scope := joinScopes granted }

def handleTokenExchange (config : Config) (clientId : JsString) (clientAllowed : List JsString)
    (body : ExchangeBody) (nowMs : ℤ) (jti : JsString) : Reply ExchangeResponse :=
  match present body.subjectToken, present body.audience with
  | some subjectToken, some audience =>
    if body.subjectTokenType ≠ some accessTokenType then
      badRequest "invalid_request" "Unsupported subject_token_type"
    else match config.jose.jwtVerify config.issuer (nowMs / 1000) subjectToken with
      | none => badRequest "invalid_grant" "subject_token is not valid"
      | some claims =>
        match claims.sub.bind config.seed.findUserById with
        | none => badRequest "invalid_grant" "Unknown subject"
        | some user =>
          grantExchange config clientId clientAllowed claims user audience body.scope nowMs jti
  | _, _ => badRequest "invalid_request" "subject_token and audience are required"

end McpGateway.Idp
