import McpGateway.Idp.AuthorizationCodes

/-!
# Refresh tokens

A refresh token is good for one response, to its own client, and the response
brings the next one. The first is given only to a subject whose entitlements
contain `offline_access`, whatever the client may ask for.
-/

namespace McpGateway.Idp

open Js Shared History

def offlineAccess : JsString := js "offline_access"

-- ---------------------------------------------------------------------------
-- What is claimed of a run
-- ---------------------------------------------------------------------------

def Event.drawnRefresh : Event → Option JsString
  | .signed _ _ refresh => some refresh
  | _ => none

/-- No refresh token is drawn twice. -/
def FreshRefresh (events : List Event) : Prop := (events.filterMap Event.drawnRefresh).Nodup

instance (events : List Event) : Decidable (FreshRefresh events) :=
  inferInstanceAs (Decidable (List.Nodup _))

/-- A sign-in, from the code to the response, that asks for offline access with a client
that may have it. -/
structure OfflineSignIn (config : Config) (h : List Entry) (body : AuthorizeBody)
    (client : SeedClient) (user : SeedUser) (response : TokenResponse) : Prop where
  registered : config.seed.findClient body.clientId = some client
  confidential : client.confidential = true
  grants : authorizationCodeGrant ∈ client.allowedGrants ∧ refreshTokenGrant ∈ client.allowedGrants
  allowed : offlineAccess ∈ client.allowedScopes
  requested : offlineAccess ∈ parseScopeParam body.scope
  known : config.seed.findUserByEmail body.email = some user
  answered : ∃ code i j k issuedAt nowMs request p, CodeIssuedAt h i body issuedAt code ∧
    PresentsCode h j request nowMs code ∧ Answers h k j p response

def StaysSignedIn (config : Config) (h : List Entry) : Prop :=
  ∀ body client user response, OfflineSignIn config h body client user response →
    response.refreshToken.isSome = true

def RefreshIssuedAt (h : List Entry) (i : Nat) (issuedAt : ℤ) (response : TokenResponse)
    (refreshToken : JsString) : Prop :=
  ∃ arrival p, h[i]? = some (.signed arrival issuedAt refreshToken, .tokens p response) ∧
    response.refreshToken = some refreshToken

def PresentsRefresh (h : List Entry) (j : Nat) (request : TokenRequest) (nowMs : ℤ)
    (refreshToken : JsString) : Prop :=
  request.body.grantType = some refreshTokenGrant ∧
    request.body.refreshToken = some refreshToken ∧
    ∃ jti answer, h[j]? = some (.token request nowMs jti, answer)

def OneRefresh (h : List Entry) : Prop :=
  ∀ token j j' k k' request request' nowMs nowMs' p p' response response',
    PresentsRefresh h j request nowMs token → PresentsRefresh h j' request' nowMs' token →
    Answers h k j p response → Answers h k' j' p' response' → j = j' ∧ k = k'

/-- The request comes from the client the token was issued to, before it expires; the
response names the same subject and scopes and brings one token that is new. -/
structure Rotation (config : Config) (decode : Decoders) (h : List Entry) (issuedAt : ℤ)
    (first : TokenResponse) (request : TokenRequest) (nowMs : ℤ) (k : Nat)
    (response : TokenResponse) : Prop where
  inTime : ¬ issuedAt + 8 * 60 * 60 * 1000 < nowMs
  claims : ∃ before after credentials client, first.accessToken = config.jose.sign before ∧
    response.accessToken = config.jose.sign after ∧ after.sub = before.sub ∧
    after.scope = before.scope ∧ response.scope = first.scope ∧
    resolveClientCredentials decode request.authorization request.body = .ok credentials ∧
    authenticateClient config credentials = .ok client ∧
    before.clientId = some client.clientId ∧ after.clientId = some client.clientId
  renewed : ∃ new, response.refreshToken = some new ∧
    ∀ l arrival t answer, h[l]? = some (.signed arrival t new, answer) → l = k

def OnlyRotation (config : Config) (decode : Decoders) (h : List Entry) : Prop :=
  ∀ token j k request nowMs p response, PresentsRefresh h j request nowMs token →
    Answers h k j p response → ∃ i issuedAt first, i < j ∧
      RefreshIssuedAt h i issuedAt first token ∧
      Rotation config decode h issuedAt first request nowMs k response

/-- After the token has been revoked no request with it is given tokens. -/
def NoneAfterRevocation (h : List Entry) : Prop :=
  ∀ token i l j issuedAt first revoked answer request nowMs,
    RefreshIssuedAt h i issuedAt first token → i < l → h[l]? = some (.revoke revoked, answer) →
    present revoked = some token → l < j → PresentsRefresh h j request nowMs token →
    ∀ k p response, ¬ Answers h k j p response

-- ---------------------------------------------------------------------------
-- Every run
-- ---------------------------------------------------------------------------

section
variable {config : Config} {decode : Decoders} {events : List Event}

theorem offline_granted_iff {body : AuthorizeBody} {issuedAt : ℤ} {client : SeedClient}
    {user : SeedUser} {grant : AuthorizationCode} (hsign : SignIn config body issuedAt client user grant)
    (hallowed : offlineAccess ∈ client.allowedScopes)
    (hrequested : offlineAccess ∈ parseScopeParam body.scope) :
    offlineAccess ∈ grant.scopes ↔ offlineAccess ∈ config.seed.entitlementsFor user := by
  have hcandidates : offlineAccess ∈
      candidates (parseScopeParam body.scope) (config.seed.entitlementsFor user) := by
    unfold candidates
    rwa [if_pos (List.length_pos_of_mem hrequested)]
  have hopen : namespaceFilter (.array []) offlineAccess = .ok true := rfl
  rw [narrowScopes_ok hsign.scopes]
  simp only [hcandidates, hallowed, hopen, true_and, and_true]

theorem refresh_iff_entitled (hfresh : FreshCodes events) {body : AuthorizeBody}
    {client : SeedClient} {user : SeedUser} {response : TokenResponse}
    (h : OfflineSignIn config (history config decode events) body client user response) :
    response.refreshToken.isSome = true ↔
      offlineAccess ∈ config.seed.entitlementsFor user := by
  obtain ⟨code, i, j, k, issuedAt, nowMs, request, p, hissued, hpresents, hanswers⟩ := h.answered
  obtain ⟨hsigns, -, -, -, _, refresh, hrefresh, -⟩ := response_of_answers hanswers
  obtain ⟨_, _, grant, _, _, -, -, -, -, -, ⟨i', x, hx, hx', -⟩, -, -, -, -, -, rfl⟩ :=
    signing_of_code hpresents hsigns
  obtain ⟨-, hx⟩ := at_take.mp hx
  obtain ⟨body', issuedAt', client', user', rfl, hsign⟩ := hx'
  have hsame : i' = i := drawn_once hfresh (event_at hx) (event_at hissued) rfl rfl
  subst hsame
  cases hx.symm.trans hissued
  cases h.registered.symm.trans hsign.registered
  cases h.known.symm.trans hsign.known
  rw [← offline_granted_iff hsign h.allowed h.requested, hrefresh, ← List.contains_iff_mem]
  show (if grant.scopes.contains offlineAccess then some refresh else none).isSome = true ↔ _
  split <;> simp_all

/-- Whoever is given a refresh token has an access token with the same claims. -/
theorem signing_claims {arrival : Nat} {p : Signing}
    (h : Signs (history config decode events) arrival p) (hrefresh : p.includeRefresh = true) :
    ∃ nowMs jti, p.accessToken = config.jose.sign
      (responseClaims config p.user p.clientId p.scopes p.clientId nowMs jti) := by
  obtain ⟨request, nowMs, jti, hat⟩ := h
  obtain ⟨idp, hstep⟩ := token_at hat
  generalize hanswer : Answer.signing p = answer at hstep
  cases hstep with
  | redeemed client code verifier hadmit hcode hverifier =>
    obtain ⟨-, hgrant, -⟩ := admitClient_ok hadmit
    obtain ⟨_, _, _, _, _, -, -, -, -, -, -, -, -, -, -, rfl⟩ := code_signing hat hgrant
    exact ⟨nowMs, jti, rfl⟩
  | rotated client refreshToken hadmit htoken =>
    obtain ⟨-, hgrant, -⟩ := admitClient_ok hadmit
    obtain ⟨_, _, _, _, -, -, -, -, -, -, rfl⟩ := refresh_signing hat hgrant
    exact ⟨nowMs, jti, rfl⟩
  | other _ hcode hnot hother =>
    rw [(hother p hanswer.symm).1] at hrefresh
    cases hrefresh

theorem signing_of_refresh {j : Nat} {request : TokenRequest} {nowMs : ℤ} {token : JsString}
    {p : Signing}
    (hpresents : PresentsRefresh (history config decode events) j request nowMs token)
    (hsigns : Signs (history config decode events) j p) :
    ∃ client grant user jti,
      admitClient config decode request = .ok (client, refreshTokenGrant) ∧
      (history config decode events)[j]? = some (.token request nowMs jti, .signing p) ∧
      present request.body.refreshToken = some token ∧
      Outstanding ((history config decode events).take j) (IssuesRefresh token grant)
        (SpendsRefresh config decode token) ∧
      nowMs ≤ grant.expiresAt ∧ grant.clientId = client.clientId ∧
      config.seed.findUserById grant.userId = some user ∧
      p = beginTokenResponse config user client.clientId grant.scopes client.clientId false true
        nowMs jti := by
  obtain ⟨hgrant, htoken, jti, answer, hat⟩ := hpresents
  obtain ⟨_, _, _, hat'⟩ := hsigns
  cases hat.symm.trans hat'
  obtain ⟨client, token', grant, user, hadmit, htoken', hrest⟩ := refresh_signing hat hgrant
  have hsame : token' = token := by
    have hraw := (Option.filter_eq_some_iff.mp htoken').1
    exact Option.some.inj (hraw.symm.trans htoken)
  subst hsame
  exact ⟨client, grant, user, jti, hadmit, hat, htoken', hrest⟩

theorem refresh_issued_once (hfresh : FreshRefresh events) (token : JsString) :
    IssuedOnce (history config decode events) fun e => ∃ grant, IssuesRefresh token grant e := by
  rintro i i' x x' hx hx' ⟨_, _, _, _, _, rfl, -⟩ ⟨_, _, _, _, _, rfl, -⟩
  exact drawn_once hfresh (event_at hx) (event_at hx') rfl rfl

theorem spends_of_signs {j : Nat} {request : TokenRequest} {nowMs : ℤ} {token : JsString}
    {p : Signing}
    (hpresents : PresentsRefresh (history config decode events) j request nowMs token)
    (hsigns : Signs (history config decode events) j p) :
    (∃ e, (history config decode events)[j]? = some e ∧ SpendsRefresh config decode token e) ∧
      Outstanding ((history config decode events).take j)
        (fun e => ∃ grant, IssuesRefresh token grant e)
        (SpendsRefresh config decode token) := by
  obtain ⟨client, grant, user, jti, hadmit, hat, htoken, ⟨i, x, hx, hissued, hunspent⟩, -⟩ :=
    signing_of_refresh hpresents hsigns
  exact ⟨⟨_, hat, .inl ⟨request, nowMs, jti, rfl, client, hadmit, htoken⟩⟩,
    i, x, hx, ⟨grant, hissued⟩, hunspent⟩

theorem one_refresh (hfresh : FreshRefresh events) : OneRefresh (history config decode events) := by
  intro token j j' k k' request request' nowMs nowMs' p p' response response' hj hj' hk hk'
  obtain ⟨⟨e, he⟩, hout⟩ := spends_of_signs hj (response_of_answers hk).1
  obtain ⟨⟨e', he'⟩, hout'⟩ := spends_of_signs hj' (response_of_answers hk').1
  have hsame : j = j' := spent_once (refresh_issued_once hfresh token) he he' hout hout'
  subst hsame
  exact ⟨rfl, (answers_unique hk hk').symm⟩

theorem only_rotation (hfresh : FreshRefresh events) :
    OnlyRotation config decode (history config decode events) := by
  intro token j k request nowMs p response hj hk
  obtain ⟨hsigns, -, haccess, hscope, t, new, hnew, hat⟩ := response_of_answers hk
  obtain ⟨client, grant, user, jti, hadmit, -, htoken, ⟨i, x, hx, hissued, -⟩, hlive, hclient,
    huser, rfl⟩ := signing_of_refresh hj hsigns
  obtain ⟨hij, hx⟩ := at_take.mp hx
  obtain ⟨arrival, issuedAt, q, first, rfl, hinclude, rfl⟩ := hissued
  obtain ⟨hqsigns, -, hqaccess, hqscope, _, token', hqrefresh, hqat⟩ :=
    response_of_answers ⟨issuedAt, token, hx⟩
  cases hx.symm.trans hqat
  rw [if_pos hinclude] at hqrefresh
  obtain ⟨t', jti', hclaims⟩ := signing_claims hqsigns hinclude
  obtain ⟨⟨credentials, hresolve, hauth⟩, -⟩ := admitClient_ok hadmit
  have hsub : user.id = q.user.id := Seed.findUserById_id huser
  refine ⟨i, issuedAt, first, hij, ⟨arrival, q, hx, hqrefresh⟩, not_lt.mpr hlive,
    ⟨_, _, credentials, client, hqaccess.trans hclaims, haccess, congrArg some hsub, rfl,
      hscope.trans hqscope.symm, hresolve, hauth, congrArg some hclient, rfl⟩, new, hnew, ?_⟩
  intro l arrival' t'' answer hl
  exact drawn_once hfresh (event_at hl) (event_at hat) rfl rfl

theorem none_after_revocation (hfresh : FreshRefresh events) :
    NoneAfterRevocation (history config decode events) := by
  rintro token i l j issuedAt first revoked answer request nowMs ⟨_, _, hissued, -⟩ hil hl hrevoked
    hlj hj k p response hk
  obtain ⟨-, i', x, hx, ⟨grant, _, _, _, _, rfl, -⟩, hunspent⟩ :=
    spends_of_signs hj (response_of_answers hk).1
  obtain ⟨-, hx⟩ := at_take.mp hx
  have hsame : i' = i := drawn_once hfresh (event_at hx) (event_at hissued) rfl rfl
  subst hsame
  exact hunspent l _ hil (at_take.mpr ⟨hlj, hl⟩) (.inr ⟨revoked, rfl, hrevoked⟩)

end

/-- A sign-in with offline access returns a refresh token exactly when the subject is
entitled to the scope; from there on refresh tokens rotate, in every run. -/
theorem refresh_token_iff_entitled_to_offline_access (config : Config) (decode : Decoders)
    (events : List Event) (hcodes : FreshCodes events) (hrefresh : FreshRefresh events) :
    (∀ body client user response,
      OfflineSignIn config (history config decode events) body client user response →
      (response.refreshToken.isSome = true ↔
        offlineAccess ∈ config.seed.entitlementsFor user)) ∧
      OneRefresh (history config decode events) ∧
      OnlyRotation config decode (history config decode events) ∧
      NoneAfterRevocation (history config decode events) :=
  ⟨fun _ _ _ _ => refresh_iff_entitled hcodes, one_refresh hrefresh, only_rotation hrefresh,
    none_after_revocation hrefresh⟩

/-- Alice signs in for offline access; when she has it, the dashboard refreshes and revokes. -/
def signsIn : List Event :=
  [.authorize aliceSignsIn 990000 (js "c0"),
    .token (dashboardRedeems (some (js "verifier"))) 1010000 (js "j0"),
    .signed 1 1010005 (js "r0")]

def dashboardRefreshes (refreshToken : JsString) : TokenRequest where
  body :=
    { grantType := some refreshTokenGrant
      clientId := some (js "dashboard-bff")
      clientSecret := some (js "secret")
      refreshToken := some refreshToken }

def staysAndLeaves : List Event :=
  signsIn ++
    [.token (dashboardRefreshes (js "r0")) 1800000 (js "j1"), .signed 3 1800005 (js "r1"),
      .revoke (some (js "r1")), .token (dashboardRefreshes (js "r1")) 1900000 (js "j2")]

/-- No role lists `offline_access`, so Alice is given no refresh token. -/
theorem alice_is_not_kept_signed_in :
    FreshCodes signsIn ∧ FreshRefresh signsIn ∧ ¬ StaysSignedIn
      (dashboardConfig [js "salesforce:read"])
      (history (dashboardConfig [js "salesforce:read"]) postedOnly signsIn) := by
  refine ⟨by decide +kernel, by decide +kernel, fun hstays => ?_⟩
  have hissued : CodeIssuedAt (history (dashboardConfig [js "salesforce:read"]) postedOnly signsIn) 0
      aliceSignsIn 990000 (js "c0") := codeIssuedAt_of rfl (by decide +kernel)
  obtain ⟨answer, htoken⟩ : ∃ answer, (history (dashboardConfig [js "salesforce:read"]) postedOnly
      signsIn)[1]? = some (.token (dashboardRedeems (some (js "verifier"))) 1010000 (js "j0"),
        answer) :=
    exists_answer _ rfl
  have htokens : (((history (dashboardConfig [js "salesforce:read"]) postedOnly signsIn)[2]?.bind
      fun e => e.2.tokens?).map fun r => r.2.refreshToken) = some none := by
    decide +kernel
  obtain ⟨⟨p, response⟩, hresponse, hnone⟩ := Option.map_eq_some_iff.mp htokens
  have hsome := hstays aliceSignsIn dashboard alice response
    ⟨by decide +kernel, rfl, by decide +kernel, by decide +kernel, by decide +kernel,
      by decide +kernel, js "c0", 0, 1, 2, 990000, 1010000, _, p, hissued,
      ⟨rfl, rfl, js "j0", answer, htoken⟩, answers_of rfl hresponse⟩
  rw [show response.refreshToken = none from hnone] at hsome
  cases hsome

theorem offline_analyst_stays_signed_in :
    let config := dashboardConfig [js "salesforce:read", js "offline_access"]
    let h := history config postedOnly staysAndLeaves
    (∀ body client user response, OfflineSignIn config h body client user response →
      (response.refreshToken.isSome = true ↔ offlineAccess ∈ config.seed.entitlementsFor user)) ∧
      OneRefresh h ∧ OnlyRotation config postedOnly h ∧ NoneAfterRevocation h :=
  refresh_token_iff_entitled_to_offline_access _ _ staysAndLeaves (by decide +kernel)
    (by decide +kernel)

end McpGateway.Idp
