import McpGateway.Idp.Endpoints

/-!
# Runs of the provider

Codes and refresh tokens are values that are issued and spent. In every run what
is kept in the store is outstanding, and a request whose tokens are signed is
answered once.
-/

namespace McpGateway.Idp

open Js Shared History Outcome

-- ---------------------------------------------------------------------------
-- What requests do
-- ---------------------------------------------------------------------------

structure SignIn (config : Config) (body : AuthorizeBody) (issuedAt : ℤ) (client : SeedClient)
    (user : SeedUser) (grant : AuthorizationCode) : Prop where
  registered : config.seed.findClient body.clientId = some client
  redirectUri : client.redirectUris.contains body.redirectUri = true
  known : config.seed.findUserByEmail body.email = some user
  password : constantTimeEquals user.password body.password = true
  scopes : narrowScopes (parseScopeParam body.scope) (config.seed.entitlementsFor user)
    client.allowedScopes (.array []) = .ok grant.scopes
  userId : grant.userId = user.id
  clientId : grant.clientId = client.clientId
  redirect : grant.redirectUri = body.redirectUri
  challenge : grant.codeChallenge = body.codeChallenge
  expires : grant.expiresAt = issuedAt + authCodeTtlMs

/-- The request redeems the code: it reaches the code grant with the code and a verifier. -/
def Redeems (config : Config) (decode : Decoders) (request : TokenRequest) (code : JsString) :
    Prop :=
  ∃ client verifier, admitClient config decode request = .ok (client, authorizationCodeGrant) ∧
    present request.body.code = some code ∧ present request.body.codeVerifier = some verifier

def Rotates (config : Config) (decode : Decoders) (request : TokenRequest)
    (refreshToken : JsString) : Prop :=
  ∃ client, admitClient config decode request = .ok (client, refreshTokenGrant) ∧
    present request.body.refreshToken = some refreshToken

inductive TokenStep (config : Config) (decode : Decoders) (s : IdpState) (request : TokenRequest)
    (nowMs : ℤ) (jti : JsString) : IdpState → Answer → Prop
  | redeemed (client : SeedClient) (code verifier : JsString)
      (hadmitted : admitClient config decode request = .ok (client, authorizationCodeGrant))
      (hcode : present request.body.code = some code)
      (hverifier : present request.body.codeVerifier = some verifier) :
      TokenStep config decode s request nowMs jti { s with codes := s.codes.delete code }
        (.begun (presentCode.checked config
          ⟨request.body.code, request.body.codeVerifier, request.body.redirectUri⟩ client.clientId
          nowMs jti (s.codes.get code) verifier))
  | rotated (client : SeedClient) (refreshToken : JsString)
      (hadmitted : admitClient config decode request = .ok (client, refreshTokenGrant))
      (htoken : present request.body.refreshToken = some refreshToken) :
      TokenStep config decode s request nowMs jti
        { s with refreshTokens := s.refreshTokens.delete refreshToken }
        (.begun (presentRefresh.checked config client.clientId nowMs jti
          (s.refreshTokens.get refreshToken)))
  | other (answer : Answer) (hcode : ∀ code, ¬ Redeems config decode request code)
      (hrefresh : ∀ token, ¬ Rotates config decode request token)
      (hgrant : ∀ p, answer = .signing p → p.includeRefresh = false ∧
        request.body.grantType = some (js "client_credentials")) :
      TokenStep config decode s request nowMs jti s answer

section
variable {config : Config} {decode : Decoders} {s : IdpState} {nowMs : ℤ} {jti : JsString}

theorem authorize_cases (config : Config) (s : IdpState) (body : AuthorizeBody) (nowMs : ℤ)
    (code : JsString) :
    ((authorize config s body nowMs code).1 = s ∧
      ∀ c, (authorize config s body nowMs code).2 ≠ .sent c) ∨
    ∃ client user grant, SignIn config body nowMs client user grant ∧
      authorize config s body nowMs code =
        ({ s with codes := s.codes.set code grant }, .sent code) := by
  unfold authorize
  cases hclient : config.seed.findClient body.clientId with
  | none => exact .inl ⟨rfl, fun _ h => nomatch h⟩
  | some client =>
    dsimp only
    split
    · exact .inl ⟨rfl, fun _ h => nomatch h⟩
    · next huri =>
      split
      · exact .inl ⟨rfl, fun _ h => nomatch h⟩
      · next user huser =>
        obtain ⟨huser, hpassword⟩ := Option.filter_eq_some_iff.mp huser
        split
        · exact .inl ⟨rfl, fun _ h => nomatch h⟩
        · next scopes hscopes =>
          exact .inr ⟨client, user, _, ⟨hclient, not_not.mp huri, huser, hpassword, hscopes, rfl,
            rfl, rfl, rfl, rfl⟩, rfl⟩

theorem admitClient_ok {request : TokenRequest} {client : SeedClient} {grantType : JsString}
    (h : admitClient config decode request = .ok (client, grantType)) :
    (∃ credentials, resolveClientCredentials decode request.authorization request.body =
        .ok credentials ∧ authenticateClient config credentials = .ok client) ∧
      request.body.grantType = some grantType ∧ grantType ∈ client.allowedGrants := by
  unfold admitClient at h
  obtain ⟨credentials, hresolve, h⟩ := bind_eq_ok.mp h
  obtain ⟨found, hauth, h⟩ := bind_eq_ok.mp h
  split at h
  · cases h
  · next g hg =>
    obtain ⟨hgrant, hallowed⟩ := Option.filter_eq_some_iff.mp hg
    cases h
    exact ⟨⟨credentials, mapError_eq_ok.mp hresolve, mapError_eq_ok.mp hauth⟩, hgrant,
      List.contains_iff_mem.mp hallowed⟩

theorem admitClient_error {request : TokenRequest} (p : Signing) :
    admitClient config decode request ≠ .error (.signing p) := by
  unfold admitClient
  cases resolveClientCredentials decode request.authorization request.body with
  | error e => exact fun h => nomatch h
  | ok credentials =>
    dsimp only [Except.mapError, bind, Except.bind]
    cases authenticateClient config credentials with
    | error e => exact fun h => nomatch h
    | ok client =>
      dsimp only
      split <;> exact fun h => nomatch h

theorem handleClientCredentials_signing {body : TokenBody} {clientId : JsString}
    {clientAllowed : List JsString} {p : Signing}
    (h : handleClientCredentials config body clientId clientAllowed nowMs jti = .signing p) :
    p.includeRefresh = false := by
  unfold handleClientCredentials at h
  split at h
  · cases h
  · split at h
    · cases h
    · cases h
      rfl

/-- The client is registered, the credentials name it, and one that is confidential
presented its secret. -/
theorem authenticateClient_ok {credentials : Credentials} {client : SeedClient}
    (h : authenticateClient config credentials = .ok client) :
    (∃ clientId, credentials.clientId = some clientId ∧
      config.seed.findClient clientId = some client) ∧
    (client.confidential = true → ∃ secret presented, client.clientSecret = some secret ∧
      credentials.clientSecret = some presented ∧ constantTimeEquals secret presented = true) := by
  unfold authenticateClient at h
  split at h
  · cases h
  · next found hfound =>
    obtain ⟨clientId, hid, hfound⟩ := Option.bind_eq_some_iff.mp hfound
    have hnamed := (Option.filter_eq_some_iff.mp hid).1
    split at h
    · split at h
      · next presented secret hpresented hsecret =>
        split at h
        · next hequal =>
          cases h
          exact ⟨⟨clientId, hnamed, hfound⟩, fun _ => ⟨secret, presented, hsecret,
            (Option.filter_eq_some_iff.mp hpresented).1, hequal⟩⟩
        · cases h
      · cases h
    · next hpublic =>
      cases h
      exact ⟨⟨clientId, hnamed, hfound⟩, fun hconfidential => absurd hconfidential hpublic⟩

theorem Redeems.not_rotates {request : TokenRequest} {code refreshToken : JsString}
    (hcode : Redeems config decode request code) :
    ¬ Rotates config decode request refreshToken := by
  rintro ⟨client, hadmitted, -⟩
  obtain ⟨_, _, hadmitted', -⟩ := hcode
  cases hadmitted.symm.trans hadmitted'

theorem Redeems.code_unique {request : TokenRequest} {code code' : JsString}
    (h : Redeems config decode request code) (h' : Redeems config decode request code') :
    code = code' := by
  obtain ⟨_, _, _, hcode, -⟩ := h
  obtain ⟨_, _, _, hcode', -⟩ := h'
  exact Option.some.inj (hcode.symm.trans hcode')

/-- The code grant without a code or without a verifier, and the refresh grant without a
token, leave the store as it is. -/
theorem token_step (config : Config) (decode : Decoders) (s : IdpState) (request : TokenRequest)
    (nowMs : ℤ) (jti : JsString) : TokenStep config decode s request nowMs jti
      (token config decode s request nowMs jti).1 (token config decode s request nowMs jti).2 := by
  unfold token
  cases hadmitted : admitClient config decode request with
  | error refusal =>
    refine .other _ ?_ ?_ ?_
    · rintro code ⟨_, _, h, -⟩
      cases hadmitted.symm.trans h
    · rintro refreshToken ⟨_, h, -⟩
      cases hadmitted.symm.trans h
    · rintro p rfl
      exact absurd hadmitted (admitClient_error p)
  | ok admitted =>
    obtain ⟨client, grantType⟩ := admitted
    dsimp only
    unfold grant
    split
    · next hgrant =>
      subst hgrant
      unfold presentCode
      dsimp only
      split
      · next code verifier hcode hverifier =>
        exact .redeemed client code verifier hadmitted hcode hverifier
      · next hmissing =>
        refine .other _ ?_ ?_ (fun _ h => nomatch h)
        · rintro code ⟨_, verifier, -, hcode, hverifier⟩
          exact hmissing code verifier hcode hverifier
        · rintro refreshToken ⟨_, h, -⟩
          cases hadmitted.symm.trans h
    · next hcodeGrant =>
      have hcode : ∀ code, ¬ Redeems config decode request code := by
        rintro code ⟨_, _, h, -⟩
        have hpair := Except.ok.inj (hadmitted.symm.trans h)
        exact hcodeGrant (congrArg Prod.snd hpair)
      split
      · next hgrant =>
        subst hgrant
        unfold presentRefresh
        cases htoken : present request.body.refreshToken with
        | none =>
          refine .other _ hcode ?_ (fun _ h => nomatch h)
          rintro refreshToken ⟨_, -, h⟩
          cases htoken.symm.trans h
        | some refreshToken => exact .rotated client refreshToken hadmitted htoken
      · next hrefreshGrant =>
        have hrefresh : ∀ refreshToken, ¬ Rotates config decode request refreshToken := by
          rintro refreshToken ⟨_, h, -⟩
          have hpair := Except.ok.inj (hadmitted.symm.trans h)
          exact hrefreshGrant (congrArg Prod.snd hpair)
        split
        · next hgrant =>
          subst hgrant
          refine .other _ hcode hrefresh fun p hp => ⟨?_, (admitClient_ok hadmitted).2.1⟩
          exact handleClientCredentials_signing hp
        · split
          · exact .other _ hcode hrefresh fun _ h => nomatch h
          · exact .other _ hcode hrefresh fun _ h => nomatch h

/-- A code that is accepted has not expired and is the client's; the redirect URI and the
verifier are those of the sign-in. -/
theorem presentCode_checked {body : CodeBody} {clientId verifier : JsString}
    {kept : Option AuthorizationCode} {p : Signing}
    (h : presentCode.checked config body clientId nowMs jti kept verifier = .ok p) :
    ∃ grant user, kept = some grant ∧ nowMs ≤ grant.expiresAt ∧ grant.clientId = clientId ∧
      (∀ uri, body.redirectUri = some uri → uri = grant.redirectUri) ∧
      verifyPkce verifier grant.codeChallenge = true ∧
      config.seed.findUserById grant.userId = some user ∧
      p = beginTokenResponse config user clientId grant.scopes clientId
        (grant.scopes.contains (js "openid")) (grant.scopes.contains (js "offline_access"))
        nowMs jti := by
  unfold presentCode.checked at h
  cases kept with
  | none => cases h
  | some grant =>
    dsimp only at h
    split at h
    · cases h
    · next hlive =>
      split at h
      · cases h
      · next hclient =>
        split at h
        · cases h
        · next huri =>
          split at h
          · cases h
          · next hpkce =>
            split at h
            · cases h
            · next user huser =>
              refine ⟨grant, user, rfl, not_lt.mp hlive, not_not.mp hclient, ?_,
                not_not.mp hpkce, huser, (Except.ok.inj h).symm⟩
              intro uri heq
              rw [heq] at huri
              simpa using huri

theorem presentRefresh_checked {clientId : JsString} {kept : Option RefreshGrant} {p : Signing}
    (h : presentRefresh.checked config clientId nowMs jti kept = .ok p) :
    ∃ grant user, kept = some grant ∧ nowMs ≤ grant.expiresAt ∧ grant.clientId = clientId ∧
      config.seed.findUserById grant.userId = some user ∧
      p = beginTokenResponse config user clientId grant.scopes clientId false true nowMs jti := by
  unfold presentRefresh.checked at h
  cases kept with
  | none => cases h
  | some grant =>
    dsimp only at h
    split at h
    · cases h
    · next hlive =>
      split at h
      · cases h
      · next hclient =>
        split at h
        · cases h
        · next user huser =>
          exact ⟨grant, user, rfl, not_lt.mp hlive, not_not.mp hclient, huser,
            (Except.ok.inj h).symm⟩

end

-- ---------------------------------------------------------------------------
-- What is kept is outstanding
-- ---------------------------------------------------------------------------

abbrev Entry := Event × Answer

def IssuesCode (config : Config) (code : JsString) (grant : AuthorizationCode) (e : Entry) : Prop :=
  ∃ body issuedAt client user, e = (.authorize body issuedAt code, .code (.sent code)) ∧
    SignIn config body issuedAt client user grant

/-- The entry is a request that redeems the code. -/
def RedeemsCode (config : Config) (decode : Decoders) (code : JsString) (e : Entry) : Prop :=
  ∃ request nowMs jti, e.1 = .token request nowMs jti ∧ Redeems config decode request code

def IssuesRefresh (refreshToken : JsString) (grant : RefreshGrant) (e : Entry) : Prop :=
  ∃ arrival nowMs p response, e = (.signed arrival nowMs refreshToken, .tokens p response) ∧
    p.includeRefresh = true ∧ grant = ⟨p.user.id, p.clientId, p.scopes, nowMs + refreshTtlMs⟩

def SpendsRefresh (config : Config) (decode : Decoders) (refreshToken : JsString) (e : Entry) :
    Prop :=
  (∃ request nowMs jti, e.1 = .token request nowMs jti ∧
    Rotates config decode request refreshToken) ∨
  ∃ revoked, e.1 = .revoke revoked ∧ present revoked = some refreshToken

def CodesOutstanding (config : Config) (decode : Decoders) (h : List Entry) (s : IdpState) : Prop :=
  ∀ e ∈ s.codes.entries,
    Outstanding h (IssuesCode config e.1 e.2) (RedeemsCode config decode e.1)

def RefreshOutstanding (config : Config) (decode : Decoders) (h : List Entry) (s : IdpState) :
    Prop :=
  ∀ e ∈ s.refreshTokens.entries,
    Outstanding h (IssuesRefresh e.1 e.2) (SpendsRefresh config decode e.1)

section
variable {config : Config} {decode : Decoders} {s : Provider} {h : List Entry}

theorem finishTokenResponse_codes (s : IdpState) (p : Signing) (nowMs : ℤ) (refresh : JsString) :
    (finishTokenResponse config s p nowMs refresh).1.codes = s.codes := by
  unfold finishTokenResponse
  cases p.includeRefresh <;> rfl

theorem not_redeems_of_event {code : JsString} {event : Event} {answer : Answer}
    (hevent : ∀ request nowMs jti, event ≠ .token request nowMs jti) :
    ¬ RedeemsCode config decode code (event, answer) := by
  rintro ⟨request, nowMs, jti, heq, -⟩
  exact hevent request nowMs jti heq

theorem codes_step (hs : CodesOutstanding config decode h s.idp) (event : Event) :
    CodesOutstanding config decode (h ++ [(event, (s.step config decode event).2)])
      (s.step config decode event).1.idp := by
  intro e he
  cases event with
  | authorize body nowMs code =>
    have hnot : ¬ RedeemsCode config decode e.1
        (.authorize body nowMs code, (s.step config decode (.authorize body nowMs code)).2) :=
      not_redeems_of_event fun _ _ _ hevent => nomatch hevent
    rcases authorize_cases config s.idp body nowMs code with ⟨hsame, -⟩ |
      ⟨client, user, grant, hsign, heq⟩
    · dsimp only [Provider.step] at he
      rw [hsame] at he
      exact (hs e he).snoc hnot
    · have hanswer : (s.step config decode (.authorize body nowMs code)).2 = .code (.sent code) := by
        dsimp only [Provider.step]
        rw [heq]
      dsimp only [Provider.step] at he
      rw [heq] at he
      rcases JsMap.mem_set he with rfl | he
      · rw [hanswer]
        exact outstanding_issued ⟨body, nowMs, client, user, rfl, hsign⟩
      · exact (hs e he).snoc hnot
  | token request nowMs jti =>
    dsimp only [Provider.step] at he ⊢
    generalize hanswer : (token config decode s.idp request nowMs jti).2 = answer
    generalize hidp : (token config decode s.idp request nowMs jti).1 = idp at he
    have hstep := token_step config decode s.idp request nowMs jti
    rw [hanswer, hidp] at hstep
    cases hstep with
    | redeemed client code verifier hadmitted hcode hverifier =>
      obtain ⟨hkept, hne⟩ := List.mem_filter.mp he
      refine (hs e hkept).snoc ?_
      rintro ⟨_, _, _, heq, hredeems⟩
      cases heq
      exact of_decide_eq_true hne
        (Redeems.code_unique ⟨client, verifier, hadmitted, hcode, hverifier⟩ hredeems)
    | rotated client refreshToken hadmitted htoken =>
      refine (hs e he).snoc ?_
      rintro ⟨_, _, _, heq, hredeems⟩
      cases heq
      exact hredeems.not_rotates ⟨client, hadmitted, htoken⟩
    | other _ hcode hrefresh hgrant =>
      refine (hs e he).snoc ?_
      rintro ⟨_, _, _, heq, hredeems⟩
      cases heq
      exact hcode _ hredeems
  | signed arrival nowMs refresh =>
    have hkept : e ∈ s.idp.codes.entries := by
      dsimp only [Provider.step] at he
      split at he
      · exact he
      · rwa [finishTokenResponse_codes] at he
    exact (hs e hkept).snoc (not_redeems_of_event fun _ _ _ hevent => nomatch hevent)
  | revoke revoked =>
    have hkept : e ∈ s.idp.codes.entries := by
      dsimp only [Provider.step, revoke] at he
      split at he <;> exact he
    exact (hs e hkept).snoc (not_redeems_of_event fun _ _ _ hevent => nomatch hevent)
  | sweep nowMs =>
    exact (hs e (List.mem_filter.mp he).1).snoc
      (not_redeems_of_event fun _ _ _ hevent => nomatch hevent)

theorem authorize_refreshTokens (s : IdpState) (body : AuthorizeBody) (nowMs : ℤ)
    (code : JsString) : (authorize config s body nowMs code).1.refreshTokens = s.refreshTokens := by
  rcases authorize_cases config s body nowMs code with ⟨hsame, -⟩ | ⟨_, _, _, -, heq⟩
  · rw [hsame]
  · rw [heq]

theorem not_spends_of_event {refreshToken : JsString} {event : Event} {answer : Answer}
    (htoken : ∀ request nowMs jti, event ≠ .token request nowMs jti)
    (hrevoke : ∀ revoked, event = .revoke revoked → present revoked ≠ some refreshToken) :
    ¬ SpendsRefresh config decode refreshToken (event, answer) := by
  rintro (⟨request, nowMs, jti, heq, -⟩ | ⟨revoked, heq, hsome⟩)
  · exact htoken request nowMs jti heq
  · exact hrevoke revoked heq hsome

theorem not_spends_of_token {refreshToken : JsString} {request : TokenRequest} {nowMs : ℤ}
    {jti : JsString} {answer : Answer} (hrotates : ¬ Rotates config decode request refreshToken) :
    ¬ SpendsRefresh config decode refreshToken (.token request nowMs jti, answer) := by
  rintro (⟨_, _, _, heq, hrotates'⟩ | ⟨_, heq, -⟩)
  · cases heq
    exact hrotates hrotates'
  · cases heq

theorem refresh_step (hs : RefreshOutstanding config decode h s.idp) (event : Event) :
    RefreshOutstanding config decode (h ++ [(event, (s.step config decode event).2)])
      (s.step config decode event).1.idp := by
  intro e he
  cases event with
  | authorize body nowMs code =>
    dsimp only [Provider.step] at he
    rw [authorize_refreshTokens] at he
    exact (hs e he).snoc (not_spends_of_event (fun _ _ _ h => nomatch h) fun _ h => nomatch h)
  | token request nowMs jti =>
    dsimp only [Provider.step] at he ⊢
    generalize hanswer : (token config decode s.idp request nowMs jti).2 = answer
    generalize hidp : (token config decode s.idp request nowMs jti).1 = idp at he
    have hstep := token_step config decode s.idp request nowMs jti
    rw [hanswer, hidp] at hstep
    cases hstep with
    | redeemed client code verifier hadmitted hcode hverifier =>
      have hredeems : Redeems config decode request code :=
        ⟨client, verifier, hadmitted, hcode, hverifier⟩
      exact (hs e he).snoc (not_spends_of_token hredeems.not_rotates)
    | rotated client refreshToken hadmitted htoken =>
      obtain ⟨hkept, hne⟩ := List.mem_filter.mp he
      refine (hs e hkept).snoc (not_spends_of_token ?_)
      rintro ⟨_, -, htoken'⟩
      exact of_decide_eq_true hne (Option.some.inj (htoken.symm.trans htoken'))
    | other _ hcode hrefresh hgrant =>
      exact (hs e he).snoc (not_spends_of_token (hrefresh _))
  | signed arrival nowMs refresh =>
    dsimp only [Provider.step] at he ⊢
    cases hwaiting : s.waiting.get arrival with
    | none =>
      rw [hwaiting] at he
      exact (hs e he).snoc (not_spends_of_event (fun _ _ _ h => nomatch h) fun _ h => nomatch h)
    | some p =>
      rw [hwaiting] at he
      dsimp only at he ⊢
      unfold finishTokenResponse at he
      dsimp only at he
      split at he
      · next hinclude =>
        rcases JsMap.mem_set he with rfl | he
        · exact outstanding_issued ⟨arrival, nowMs, p, _, rfl, hinclude, rfl⟩
        · exact (hs e he).snoc
            (not_spends_of_event (fun _ _ _ h => nomatch h) fun _ h => nomatch h)
      · exact (hs e he).snoc (not_spends_of_event (fun _ _ _ h => nomatch h) fun _ h => nomatch h)
  | revoke revoked =>
    dsimp only [Provider.step, revoke] at he ⊢
    split at he
    · next hnone =>
      refine (hs e he).snoc (not_spends_of_event (fun _ _ _ h => nomatch h) ?_)
      rintro _ ⟨⟩ hsome
      cases hnone.symm.trans hsome
    · next refreshToken hrevoked =>
      obtain ⟨hkept, hne⟩ := List.mem_filter.mp he
      refine (hs e hkept).snoc (not_spends_of_event (fun _ _ _ h => nomatch h) ?_)
      rintro _ ⟨⟩ hsome
      exact of_decide_eq_true hne (Option.some.inj (hrevoked.symm.trans hsome))
  | sweep nowMs =>
    exact (hs e (List.mem_filter.mp he).1).snoc
      (not_spends_of_event (fun _ _ _ h => nomatch h) fun _ h => nomatch h)

end

-- ---------------------------------------------------------------------------
-- Requests that wait
-- ---------------------------------------------------------------------------

def Signs (h : List Entry) (arrival : Nat) (p : Signing) : Prop :=
  ∃ request nowMs jti, h[arrival]? = some (.token request nowMs jti, .signing p)

/-- The entry at a position answers the request that arrived at another. -/
def Answers (h : List Entry) (k arrival : Nat) (p : Signing) (response : TokenResponse) : Prop :=
  ∃ nowMs refresh, h[k]? = some (.signed arrival nowMs refresh, .tokens p response)

/-- A request waits from its arrival until it is answered, which it is at most once. -/
structure Waiting (h : List Entry) (s : Provider) : Prop where
  events : s.events = h.length
  arrived : ∀ arrival p, s.waiting.get arrival = some p → Signs h arrival p
  unanswered : ∀ arrival p, s.waiting.get arrival = some p → ∀ k q response,
    ¬ Answers h k arrival q response
  answered : ∀ k arrival p response, Answers h k arrival p response →
    arrival < k ∧ Signs h arrival p ∧
      ∀ k' q response', Answers h k' arrival q response' → k' = k

section
variable {config : Config} {decode : Decoders} {s : Provider} {h : List Entry} {e : Entry}
  {arrival k : Nat} {p : Signing} {response : TokenResponse}

theorem Signs.snoc (hp : Signs h arrival p) : Signs (h ++ [e]) arrival p := by
  obtain ⟨request, nowMs, jti, hat⟩ := hp
  exact ⟨request, nowMs, jti, at_snoc.mpr (.inl hat)⟩

theorem answers_snoc : Answers (h ++ [e]) k arrival p response ↔
    Answers h k arrival p response ∨
      k = h.length ∧ ∃ nowMs refresh, e = (.signed arrival nowMs refresh, .tokens p response) := by
  constructor
  · rintro ⟨nowMs, refresh, hat⟩
    rcases at_snoc.mp hat with hat | ⟨hk, he⟩
    · exact .inl ⟨nowMs, refresh, hat⟩
    · exact .inr ⟨hk, nowMs, refresh, he⟩
  · rintro (⟨nowMs, refresh, hat⟩ | ⟨hk, nowMs, refresh, he⟩)
    · exact ⟨nowMs, refresh, at_snoc.mpr (.inl hat)⟩
    · exact ⟨nowMs, refresh, at_snoc.mpr (.inr ⟨hk, he⟩)⟩

theorem answered_snoc (hs : Waiting h s)
    (he : ∀ arrival nowMs refresh q response, e ≠ (.signed arrival nowMs refresh, .tokens q response))
    (hk : Answers (h ++ [e]) k arrival p response) : Answers h k arrival p response ∧
      arrival < k ∧ Signs (h ++ [e]) arrival p ∧
      ∀ k' q response', Answers (h ++ [e]) k' arrival q response' → k' = k := by
  have hold : ∀ k q r, Answers (h ++ [e]) k arrival q r → Answers h k arrival q r := by
    intro k q r hk
    rcases answers_snoc.mp hk with hk | ⟨-, _, _, heq⟩
    · exact hk
    · exact absurd heq (he _ _ _ _ _)
  obtain ⟨hlt, hsigns, hunique⟩ := hs.answered k arrival p response (hold k p response hk)
  exact ⟨hold k p response hk, hlt, hsigns.snoc,
    fun k' q r hk' => hunique k' q r (hold k' q r hk')⟩

theorem Waiting.keep (hs : Waiting h s) {idp : IdpState}
    (he : ∀ arrival nowMs refresh q response,
      e ≠ (.signed arrival nowMs refresh, .tokens q response)) :
    Waiting (h ++ [e]) ⟨idp, s.waiting, s.events + 1⟩ where
  events := by simp [hs.events]
  arrived arrival p hp := (hs.arrived arrival p hp).snoc
  unanswered arrival p hp k q response hk :=
    hs.unanswered arrival p hp k q response (answered_snoc hs he hk).1
  answered k arrival p response hk := (answered_snoc hs he hk).2

theorem waiting_step (hs : Waiting h s) (event : Event) :
    Waiting (h ++ [(event, (s.step config decode event).2)]) (s.step config decode event).1 := by
  cases event with
  | authorize body nowMs code => exact hs.keep (by rintro _ _ _ _ _ ⟨⟩)
  | revoke revoked => exact hs.keep (by rintro _ _ _ _ _ ⟨⟩)
  | sweep nowMs => exact hs.keep (by rintro _ _ _ _ _ ⟨⟩)
  | token request nowMs jti =>
    dsimp only [Provider.step]
    cases hanswer : (token config decode s.idp request nowMs jti).2 with
    | signing p =>
      have hbegun : ∀ arrival nowMs' refresh q response,
          ((.token request nowMs jti, .signing p) : Entry) ≠
            (.signed arrival nowMs' refresh, .tokens q response) := by
        rintro _ _ _ _ _ ⟨⟩
      refine ⟨by simp [hs.events], ?_, ?_, fun k arrival p response hk => (answered_snoc hs hbegun hk).2⟩
      · intro arrival q hq
        rw [JsMap.get_set] at hq
        split at hq
        · next harrival =>
          cases hq
          exact ⟨request, nowMs, jti, at_snoc.mpr (.inr ⟨harrival.trans hs.events, rfl⟩)⟩
        · exact (hs.arrived arrival q hq).snoc
      · intro arrival q hq k q' response hk
        have hold := (answered_snoc hs hbegun hk).1
        rw [JsMap.get_set] at hq
        split at hq
        · -- nothing is answered before it arrives
          next harrival =>
          obtain ⟨-, ⟨_, _, _, hat⟩, -⟩ := hs.answered k arrival q' response hold
          exact absurd (lt_length hat) (by simp [harrival, hs.events])
        · exact hs.unanswered arrival q hq k q' response hold
    | code reply => exact hs.keep (by rintro _ _ _ _ _ ⟨⟩)
    | refused e => exact hs.keep (by rintro _ _ _ _ _ ⟨⟩)
    | threw e => exact hs.keep (by rintro _ _ _ _ _ ⟨⟩)
    | exchanged reply => exact hs.keep (by rintro _ _ _ _ _ ⟨⟩)
    | tokens p response => exact hs.keep (by rintro _ _ _ _ _ ⟨⟩)
    | done => exact hs.keep (by rintro _ _ _ _ _ ⟨⟩)
  | signed arrival nowMs refresh =>
    dsimp only [Provider.step]
    cases hwaiting : s.waiting.get arrival with
    | none => exact hs.keep (by rintro _ _ _ _ _ ⟨⟩)
    | some p =>
      have hsigns := hs.arrived arrival p hwaiting
      have hnone := hs.unanswered arrival p hwaiting
      have hget : ∀ a q, (s.waiting.delete arrival).get a = some q →
          a ≠ arrival ∧ s.waiting.get a = some q := by
        intro a q hq
        rw [JsMap.get_delete] at hq
        split at hq
        · cases hq
        · next hne => exact ⟨hne, hq⟩
      refine ⟨by simp [hs.events], ?_, ?_, ?_⟩
      · intro a q hq
        exact (hs.arrived a q (hget a q hq).2).snoc
      · intro a q hq k q' r hk
        obtain ⟨hne, hq⟩ := hget a q hq
        rcases answers_snoc.mp hk with hk | ⟨-, _, _, heq⟩
        · exact hs.unanswered a q hq k q' r hk
        · cases heq
          exact hne rfl
      · intro k a q r hk
        rcases answers_snoc.mp hk with hbefore | ⟨rfl, _, _, heq⟩
        · have hne : a ≠ arrival := by
            rintro rfl
            exact hnone k q r hbefore
          obtain ⟨hlt, hold, hunique⟩ := hs.answered k a q r hbefore
          refine ⟨hlt, hold.snoc, ?_⟩
          intro k' q' r' hk'
          rcases answers_snoc.mp hk' with hk' | ⟨-, _, _, heq⟩
          · exact hunique k' q' r' hk'
          · cases heq
            exact absurd rfl hne
        · cases heq
          obtain ⟨_, _, _, hat⟩ := id hsigns
          refine ⟨lt_length hat, hsigns.snoc, ?_⟩
          intro k' q' r' hk'
          rcases answers_snoc.mp hk' with hk' | ⟨rfl, -⟩
          · exact absurd hk' (hnone k' q' r')
          · rfl

end

-- ---------------------------------------------------------------------------
-- Histories
-- ---------------------------------------------------------------------------

def providerAt (config : Config) (decode : Decoders) (events : List Event) (j : Nat) : Provider :=
  final (Provider.step config decode) .started (events.take j)

section
variable {config : Config} {decode : Decoders} {events : List Event} {j : Nat}
  {request : TokenRequest} {nowMs : ℤ} {jti : JsString} {p : Signing}

theorem code_ne_refresh : authorizationCodeGrant ≠ refreshTokenGrant := by decide

theorem history_take (j : Nat) : (history config decode events).take j =
    transcript (Provider.step config decode) .started (events.take j) :=
  transcript_take _ _ _

theorem codes_outstanding (j : Nat) : CodesOutstanding config decode
    ((history config decode events).take j) (providerAt config decode events j).idp := by
  rw [history_take]
  have hstarted : CodesOutstanding config decode [] IdpState.started := fun e he => by cases he
  exact transcript_invariant (fun h (s : Provider) => CodesOutstanding config decode h s.idp)
    hstarted (fun _ _ event hs => codes_step hs event) _

theorem refresh_outstanding (j : Nat) : RefreshOutstanding config decode
    ((history config decode events).take j) (providerAt config decode events j).idp := by
  rw [history_take]
  have hstarted : RefreshOutstanding config decode [] IdpState.started := fun e he => by cases he
  exact transcript_invariant (fun h (s : Provider) => RefreshOutstanding config decode h s.idp)
    hstarted (fun _ _ event hs => refresh_step hs event) _

theorem waiting_started : Waiting [] .started where
  events := rfl
  arrived _ _ h := nomatch h
  unanswered _ _ h := nomatch h
  answered := by
    rintro k arrival p response ⟨_, _, h⟩
    cases h

theorem history_waiting (config : Config) (decode : Decoders) (events : List Event) :
    Waiting (history config decode events) (final (Provider.step config decode) .started events) :=
  transcript_invariant Waiting waiting_started (fun _ _ event hs => waiting_step hs event) _

theorem answers_unique {arrival k k' : Nat} {q : Signing} {response response' : TokenResponse}
    (h : Answers (history config decode events) k arrival p response)
    (h' : Answers (history config decode events) k' arrival q response') : k' = k :=
  ((history_waiting config decode events).answered k arrival p response h).2.2 k' q response' h'

theorem response_of_answers {arrival k : Nat} {response : TokenResponse}
    (h : Answers (history config decode events) k arrival p response) :
    Signs (history config decode events) arrival p ∧ arrival < k ∧
      response.accessToken = p.accessToken ∧ response.scope = joinScopes p.scopes ∧
      ∃ nowMs refresh, response.refreshToken = (if p.includeRefresh then some refresh else none) ∧
        (history config decode events)[k]? = some (.signed arrival nowMs refresh, .tokens p response) := by
  obtain ⟨hlt, hsigns, -⟩ := (history_waiting config decode events).answered k arrival p response h
  obtain ⟨nowMs, refresh, hat⟩ := h
  have hanswer := answer_at hat
  dsimp only [Provider.step] at hanswer
  split at hanswer
  · cases hanswer
  · cases hanswer
    refine ⟨hsigns, hlt, ?_, ?_, nowMs, refresh, ?_, hat⟩
    all_goals
      unfold finishTokenResponse
      dsimp only
      split <;> rfl

theorem token_at (h : (history config decode events)[j]? = some (.token request nowMs jti, .signing p)) :
    ∃ idp, TokenStep config decode (providerAt config decode events j).idp request nowMs jti idp
      (.signing p) := by
  have hanswer := answer_at h
  dsimp only [Provider.step] at hanswer
  have hstep := token_step config decode (providerAt config decode events j).idp request nowMs jti
  unfold providerAt at hstep ⊢
  rw [hanswer] at hstep
  exact ⟨_, hstep⟩

theorem code_signing
    (h : (history config decode events)[j]? = some (.token request nowMs jti, .signing p))
    (hgrant : request.body.grantType = some authorizationCodeGrant) :
    ∃ client code verifier grant user,
      admitClient config decode request = .ok (client, authorizationCodeGrant) ∧
      present request.body.code = some code ∧ present request.body.codeVerifier = some verifier ∧
      (providerAt config decode events j).idp.codes.get code = some grant ∧
      Outstanding ((history config decode events).take j) (IssuesCode config code grant)
        (RedeemsCode config decode code) ∧
      nowMs ≤ grant.expiresAt ∧ grant.clientId = client.clientId ∧
      (∀ uri, request.body.redirectUri = some uri → uri = grant.redirectUri) ∧
      verifyPkce verifier grant.codeChallenge = true ∧
      config.seed.findUserById grant.userId = some user ∧
      p = beginTokenResponse config user client.clientId grant.scopes client.clientId
        (grant.scopes.contains (js "openid")) (grant.scopes.contains (js "offline_access"))
        nowMs jti := by
  obtain ⟨idp, hstep⟩ := token_at h
  generalize hanswer : Answer.signing p = answer at hstep
  cases hstep with
  | redeemed client code verifier hadmitted hcode hverifier =>
    obtain ⟨q, hq⟩ : ∃ q, presentCode.checked config
        ⟨request.body.code, request.body.codeVerifier, request.body.redirectUri⟩ client.clientId
        nowMs jti ((providerAt config decode events j).idp.codes.get code) verifier = .ok q := by
      revert hanswer
      cases presentCode.checked config
        ⟨request.body.code, request.body.codeVerifier, request.body.redirectUri⟩ client.clientId
        nowMs jti ((providerAt config decode events j).idp.codes.get code) verifier with
      | error e => exact fun hanswer => nomatch hanswer
      | ok q => exact fun _ => ⟨q, rfl⟩
    rw [hq] at hanswer
    cases hanswer
    obtain ⟨grant, user, hkept, hlive, hclient, huri, hpkce, huser, heq⟩ := presentCode_checked hq
    exact ⟨client, code, verifier, grant, user, hadmitted, hcode, hverifier, hkept,
      codes_outstanding j _ (JsMap.mem_of_get hkept), hlive, hclient, huri, hpkce, huser, heq⟩
  | rotated client refreshToken hadmitted htoken =>
    have hsame := Option.some.inj (hgrant.symm.trans (admitClient_ok hadmitted).2.1)
    exact absurd hsame code_ne_refresh
  | other _ hcode hrefresh hother =>
    have hsame := Option.some.inj (hgrant.symm.trans (hother p hanswer.symm).2)
    exact absurd hsame (by decide)

theorem refresh_signing
    (h : (history config decode events)[j]? = some (.token request nowMs jti, .signing p))
    (hgrant : request.body.grantType = some refreshTokenGrant) :
    ∃ client refreshToken grant user,
      admitClient config decode request = .ok (client, refreshTokenGrant) ∧
      present request.body.refreshToken = some refreshToken ∧
      Outstanding ((history config decode events).take j)
        (IssuesRefresh refreshToken grant) (SpendsRefresh config decode refreshToken) ∧
      nowMs ≤ grant.expiresAt ∧ grant.clientId = client.clientId ∧
      config.seed.findUserById grant.userId = some user ∧
      p = beginTokenResponse config user client.clientId grant.scopes client.clientId false true
        nowMs jti := by
  obtain ⟨idp, hstep⟩ := token_at h
  generalize hanswer : Answer.signing p = answer at hstep
  cases hstep with
  | redeemed client code verifier hadmitted hcode hverifier =>
    have hsame := Option.some.inj (hgrant.symm.trans (admitClient_ok hadmitted).2.1)
    exact absurd hsame.symm code_ne_refresh
  | rotated client refreshToken hadmitted htoken =>
    obtain ⟨q, hq⟩ : ∃ q, presentRefresh.checked config client.clientId nowMs jti
        ((providerAt config decode events j).idp.refreshTokens.get refreshToken) = .ok q := by
      revert hanswer
      cases presentRefresh.checked config client.clientId nowMs jti
        ((providerAt config decode events j).idp.refreshTokens.get refreshToken) with
      | error e => exact fun hanswer => nomatch hanswer
      | ok q => exact fun _ => ⟨q, rfl⟩
    rw [hq] at hanswer
    cases hanswer
    obtain ⟨grant, user, hkept, hlive, hclient, huser, heq⟩ := presentRefresh_checked hq
    exact ⟨client, refreshToken, grant, user, hadmitted, htoken,
      refresh_outstanding j _ (JsMap.mem_of_get hkept), hlive, hclient, huser, heq⟩
  | other _ hcode hrefresh hother =>
    have hsame := Option.some.inj (hgrant.symm.trans (hother p hanswer.symm).2)
    exact absurd hsame (by decide)

end

end McpGateway.Idp
