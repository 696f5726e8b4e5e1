import McpGateway.Idp.Runs

/-!
# Authorization codes

A code yields one token response at most, and only to a request that is entitled
to it. A request that the code grant does not read, for want of a verifier or of
a client that may ask, leaves the code as it is; every other presentation of the
code makes all later ones fail.
-/

namespace McpGateway.Idp

open Js Shared History

-- ---------------------------------------------------------------------------
-- What is claimed of a run
-- ---------------------------------------------------------------------------

def Event.drawnCode : Event → Option JsString
  | .authorize _ _ code => some code
  | _ => none

/-- No code is drawn twice. -/
def FreshCodes (events : List Event) : Prop := (events.filterMap Event.drawnCode).Nodup

instance (events : List Event) : Decidable (FreshCodes events) :=
  inferInstanceAs (Decidable (List.Nodup _))

def CodeIssuedAt (h : List Entry) (i : Nat) (body : AuthorizeBody) (issuedAt : ℤ)
    (code : JsString) : Prop :=
  h[i]? = some (.authorize body issuedAt code, .code (.sent code))

def PresentsCode (h : List Entry) (j : Nat) (request : TokenRequest) (nowMs : ℤ)
    (code : JsString) : Prop :=
  request.body.grantType = some authorizationCodeGrant ∧ request.body.code = some code ∧
    ∃ jti answer, h[j]? = some (.token request nowMs jti, answer)

def Presentation (code : JsString) (e : Entry) : Prop :=
  ∃ request nowMs jti, e.1 = .token request nowMs jti ∧
    request.body.grantType = some authorizationCodeGrant ∧ request.body.code = some code

structure Entitled (config : Config) (decode : Decoders) (body : AuthorizeBody) (issuedAt : ℤ)
    (request : TokenRequest) (nowMs : ℤ) (response : TokenResponse) (client : SeedClient)
    (user : SeedUser) : Prop where
  registered : config.seed.findClient body.clientId = some client
  authenticated : ∃ credentials,
    resolveClientCredentials decode request.authorization request.body = .ok credentials ∧
    credentials.clientId = some body.clientId ∧
    (client.confidential = true → ∃ secret presented, client.clientSecret = some secret ∧
      credentials.clientSecret = some presented ∧ constantTimeEquals secret presented = true)
  inTime : nowMs - issuedAt ≤ 60 * 1000
  verifier : ∃ verifier, request.body.codeVerifier = some verifier ∧
    base64Url (sha256Bytes (asciiBytes verifier)) = body.codeChallenge
  redirectUri : request.body.redirectUri = none ∨ request.body.redirectUri = some body.redirectUri
  subject : config.seed.findUserByEmail body.email = some user ∧
    constantTimeEquals user.password body.password = true
  token : ∃ claims scopes, response.accessToken = config.jose.sign claims ∧
    claims.sub = some user.id ∧ claims.scope = some (joinScopes scopes) ∧
    ∀ scope ∈ scopes, scope ∈ config.seed.entitlementsFor user ∧ scope ∈ client.allowedScopes

/-- Each code yields one token response at most. -/
def OneResponse (h : List Entry) : Prop :=
  ∀ code j j' k k' request request' nowMs nowMs' p p' response response',
    PresentsCode h j request nowMs code → PresentsCode h j' request' nowMs' code →
    Answers h k j p response → Answers h k' j' p' response' → j = j' ∧ k = k'

/-- Whoever is given tokens for a code is entitled to them. -/
def OnlyEntitled (config : Config) (decode : Decoders) (h : List Entry) : Prop :=
  ∀ code j k request nowMs p response, PresentsCode h j request nowMs code →
    Answers h k j p response → ∃ i body issuedAt client user, i < j ∧
      CodeIssuedAt h i body issuedAt code ∧
      Entitled config decode body issuedAt request nowMs response client user

/-- After a presentation of a code that meets a condition, no later one is given tokens. -/
def LaterFail (h : List Entry) (condition : JsString → Entry → Prop) : Prop :=
  ∀ code i j k body issuedAt e request nowMs, CodeIssuedAt h i body issuedAt code → i < j →
    h[j]? = some e → condition code e → j < k → PresentsCode h k request nowMs code →
    ∀ l p response, ¬ Answers h l k p response

-- ---------------------------------------------------------------------------
-- Every run
-- ---------------------------------------------------------------------------

section
variable {config : Config} {decode : Decoders} {events : List Event}

theorem codes_issued_once (hfresh : FreshCodes events) (code : JsString) :
    IssuedOnce (history config decode events) fun e => ∃ grant, IssuesCode config code grant e := by
  rintro i i' x x' hx hx' ⟨_, body, nowMs, _, _, rfl, -⟩ ⟨_, body', nowMs', _, _, rfl, -⟩
  exact drawn_once hfresh (event_at hx) (event_at hx') rfl rfl

theorem signing_of_code {j : Nat} {request : TokenRequest} {nowMs : ℤ} {code : JsString}
    {p : Signing} (hpresents : PresentsCode (history config decode events) j request nowMs code)
    (hsigns : Signs (history config decode events) j p) :
    ∃ client verifier grant user jti,
      admitClient config decode request = .ok (client, authorizationCodeGrant) ∧
      (history config decode events)[j]? = some (.token request nowMs jti, .signing p) ∧
      present request.body.code = some code ∧ present request.body.codeVerifier = some verifier ∧
      (providerAt config decode events j).idp.codes.get code = some grant ∧
      Outstanding ((history config decode events).take j) (IssuesCode config code grant)
        (RedeemsCode config decode code) ∧
      nowMs ≤ grant.expiresAt ∧ grant.clientId = client.clientId ∧
      (∀ uri, request.body.redirectUri = some uri → uri = grant.redirectUri) ∧
      verifyPkce verifier grant.codeChallenge = true ∧
      config.seed.findUserById grant.userId = some user ∧
      p = beginTokenResponse config user client.clientId grant.scopes client.clientId
        (grant.scopes.contains (js "openid")) (grant.scopes.contains (js "offline_access"))
        nowMs jti := by
  obtain ⟨hgrant, hcode, jti, answer, hat⟩ := hpresents
  obtain ⟨_, _, _, hat'⟩ := hsigns
  cases hat.symm.trans hat'
  obtain ⟨client, code', verifier, grant, user, hadmit, hcode', hrest⟩ := code_signing hat hgrant
  have hsame : code' = code := by
    have hraw := (Option.filter_eq_some_iff.mp hcode').1
    exact Option.some.inj (hraw.symm.trans hcode)
  subst hsame
  exact ⟨client, verifier, grant, user, jti, hadmit, hat, hcode', hrest⟩

theorem redeems_of_signs {j : Nat} {request : TokenRequest} {nowMs : ℤ} {code : JsString}
    {p : Signing} (hpresents : PresentsCode (history config decode events) j request nowMs code)
    (hsigns : Signs (history config decode events) j p) :
    (∃ e, (history config decode events)[j]? = some e ∧ RedeemsCode config decode code e) ∧
      Outstanding ((history config decode events).take j)
        (fun e => ∃ grant, IssuesCode config code grant e) (RedeemsCode config decode code) := by
  obtain ⟨client, verifier, grant, user, jti, hadmit, hat, hcode, hverifier, -, ⟨i, x, hx, hissued,
    hunspent⟩, -⟩ := signing_of_code hpresents hsigns
  exact ⟨⟨_, hat, request, nowMs, jti, rfl, client, verifier, hadmit, hcode, hverifier⟩,
    i, x, hx, ⟨grant, hissued⟩, hunspent⟩

theorem one_response (hfresh : FreshCodes events) : OneResponse (history config decode events) := by
  intro code j j' k k' request request' nowMs nowMs' p p' response response' hj hj' hk hk'
  have hsigns := (response_of_answers hk).1
  have hsigns' := (response_of_answers hk').1
  obtain ⟨⟨e, he⟩, hout⟩ := redeems_of_signs hj hsigns
  obtain ⟨⟨e', he'⟩, hout'⟩ := redeems_of_signs hj' hsigns'
  have hsame : j = j' := spent_once (codes_issued_once hfresh code) he he' hout hout'
  subst hsame
  exact ⟨rfl, (answers_unique hk hk').symm⟩

theorem only_entitled : OnlyEntitled config decode (history config decode events) := by
  intro code j k request nowMs p response hj hk
  obtain ⟨hsigns, -, haccess, -⟩ := response_of_answers hk
  obtain ⟨client, verifier, grant, user, jti, hadmit, hat, hcode, hverifier, -,
    ⟨i, x, hx, hissued, -⟩, hlive, hclient, huri, hpkce, huser, rfl⟩ := signing_of_code hj hsigns
  obtain ⟨hij, hx⟩ := at_take.mp hx
  obtain ⟨body, issuedAt, issuedTo, subject, rfl, hsign⟩ := hissued
  obtain ⟨⟨credentials, hresolve, hauth⟩, -⟩ := admitClient_ok hadmit
  obtain ⟨⟨clientId, hnamed, hfound⟩, hsecret⟩ := authenticateClient_ok hauth
  have hregistered := hsign.registered
  have hid : clientId = body.clientId := by
    calc clientId = client.clientId := (Seed.findClient_clientId hfound).symm
      _ = issuedTo.clientId := hclient.symm.trans hsign.clientId
      _ = body.clientId := Seed.findClient_clientId hregistered
  subst hid
  have hsame : issuedTo = client := Option.some.inj (hregistered.symm.trans hfound)
  subst hsame
  refine ⟨i, body, issuedAt, issuedTo, subject, hij, hx, hregistered,
    ⟨credentials, hresolve, hnamed, hsecret⟩, ?_, ?_, ?_, ⟨hsign.known, hsign.password⟩, ?_⟩
  · have hexpires := hsign.expires
    unfold authCodeTtlMs at hexpires
    omega
  · exact ⟨verifier, (Option.filter_eq_some_iff.mp hverifier).1,
      (verifyPkce_iff.mp hpkce).trans hsign.challenge⟩
  · cases hredirect : request.body.redirectUri with
    | none => exact .inl rfl
    | some uri => exact .inr (congrArg some ((huri uri hredirect).trans hsign.redirect))
  · refine ⟨_, grant.scopes, haccess, ?_, rfl, ?_⟩
    · exact congrArg some ((Seed.findUserById_id huser).trans hsign.userId)
    · intro scope hscope
      have hgranted := (narrowScopes_ok hsign.scopes scope).mp hscope
      exact ⟨hgranted.2.1, hgranted.2.2.1⟩

theorem later_fail (hfresh : FreshCodes events) :
    LaterFail (history config decode events) (RedeemsCode config decode) := by
  intro code i j k body issuedAt e request nowMs hissued hij hat hspent hjk hk l p response hl
  obtain ⟨-, i', x, hx, hissued', hunspent⟩ := redeems_of_signs hk (response_of_answers hl).1
  obtain ⟨-, hx⟩ := at_take.mp hx
  obtain ⟨grant, body', nowMs', client, user, rfl, hsign⟩ := hissued'
  have hsame : i' = i := drawn_once hfresh (event_at hx) (event_at hissued) rfl rfl
  subst hsame
  exact hunspent j e hij (at_take.mpr ⟨hjk, hat⟩) hspent

end

def dashboard : SeedClient where
  clientId := js "dashboard-bff"
  clientSecret := some (js "secret")
  confidential := true
  redirectUris := [js "http://localhost:3000/auth/callback"]
  allowedScopes := [js "openid", js "offline_access", js "salesforce:read"]
  allowedGrants := [authorizationCodeGrant, refreshTokenGrant]

def alice : SeedUser where
  id := js "usr_alice"
  email := js "alice.chen@acme-corp.com"
  password := js "Passw0rd!"
  name := js "Alice Chen"
  tenantId := js "acme-corp"
  role := .analyst
  territory := some (js "West")

def dashboardSeed (scopes : List JsString) : Seed where
  scopeSets := [(js "analyst", scopes)]
  audienceNamespaces := []
  users := [alice]
  clients := [dashboard]

def dashboardConfig (scopes : List JsString) : Config :=
  let signing : Config := ⟨.ofSigned [], dashboardSeed scopes, js "idp", 900⟩
  let granted := (alwaysGranted ++ scopes).filter dashboard.allowedScopes.contains
  { signing with
    jose := .ofSigned [(js "t0", responseClaims signing alice (js "dashboard-bff")
      (sortScopes granted) (js "dashboard-bff") 1010000 (js "j0"))] }

def postedOnly : Decoders := ⟨id, .ok⟩

def aliceSignsIn : AuthorizeBody where
  clientId := js "dashboard-bff"
  redirectUri := js "http://localhost:3000/auth/callback"
  scope := some (js "openid offline_access salesforce:read")
  codeChallenge := base64Url (sha256Bytes (asciiBytes (js "verifier")))
  email := js "Alice.Chen@acme-corp.com"
  password := js "Passw0rd!"

def dashboardRedeems (verifier : Option JsString) : TokenRequest where
  body :=
    { grantType := some authorizationCodeGrant
      clientId := some (js "dashboard-bff")
      clientSecret := some (js "secret")
      code := some (js "c0")
      codeVerifier := verifier }

def retried : List Event :=
  [.authorize aliceSignsIn 990000 (js "c0"), .token (dashboardRedeems none) 1000000 (js "j"),
    .token (dashboardRedeems (some (js "verifier"))) 1010000 (js "j0"),
    .signed 2 1010005 (js "r0")]

def Answer.issued? : Answer → Option JsString
  | .code reply => reply.body?
  | _ => none

def Answer.tokens? : Answer → Option (Signing × TokenResponse)
  | .tokens p response => some (p, response)
  | _ => none

section
variable {config : Config} {decode : Decoders} {events : List Event}

theorem codeIssuedAt_of {i : Nat} {body : AuthorizeBody} {issuedAt : ℤ} {code : JsString}
    (hevent : events[i]? = some (.authorize body issuedAt code))
    (h : ((history config decode events)[i]?.bind fun e => e.2.issued?) = some code) :
    CodeIssuedAt (history config decode events) i body issuedAt code := by
  obtain ⟨answer, hat⟩ : ∃ answer, (history config decode events)[i]? =
    some (.authorize body issuedAt code, answer) := exists_answer _ hevent
  rw [hat] at h
  cases answer with
  | code reply =>
    have hsent := Reply.body?_eq_some.mp h
    rw [hsent] at hat
    exact hat
  | _ => cases h

theorem answers_of {k arrival : Nat} {nowMs : ℤ} {refresh : JsString} {p : Signing}
    {response : TokenResponse} (hevent : events[k]? = some (.signed arrival nowMs refresh))
    (h : ((history config decode events)[k]?.bind fun e => e.2.tokens?) = some (p, response)) :
    Answers (history config decode events) k arrival p response := by
  obtain ⟨answer, hat⟩ : ∃ answer, (history config decode events)[k]? =
    some (.signed arrival nowMs refresh, answer) := exists_answer _ hevent
  rw [hat] at h
  cases answer with
  | tokens q r =>
    cases h
    exact ⟨nowMs, refresh, hat⟩
  | _ => cases h

end

end McpGateway.Idp
