import McpGateway.Idp.AuthorizationCodes

/-!
# Chains of exchanges

A token that was issued for a code can be exchanged, and the token of the
exchange again. From the first token on no exchange adds a scope or changes the
subject. The scopes of the first are what its claim is read as: a scope of the
directory with a separator in it falls into pieces that nobody registered.
-/

namespace McpGateway.Idp

open Js Shared Words History

/-- A token and the client it was issued to. -/
structure Link where
  client : SeedClient
  token : JsString

/-- The sign-in whose code the store keeps when the event at a position comes. -/
def GoesBackTo (config : Config) (decode : Decoders) (events : List Event) (body : AuthorizeBody)
    (code : JsString) (j : Nat) : Prop :=
  ∃ i issuedAt client user grant, i < j ∧
    CodeIssuedAt (history config decode events) i body issuedAt code ∧
    SignIn config body issuedAt client user grant ∧
    (providerAt config decode events j).idp.codes.get code = some grant

/-- A chain of tokens, the latest first: the first one issued for the code of a sign-in in a
run of the provider, each next one by exchanging the token before it. -/
inductive Chain (config : Config) (decode : Decoders) (events : List Event) (body : AuthorizeBody) :
    List Link → Prop
  | issued (code : JsString) (j k : Nat) (request : TokenRequest) (nowMs : ℤ) (p : Signing)
      (response : TokenResponse) (client : SeedClient)
      (hsignIn : GoesBackTo config decode events body code j)
      (hpresents : PresentsCode (history config decode events) j request nowMs code)
      (hclient : admitClient config decode request = .ok (client, authorizationCodeGrant))
      (hanswers : Answers (history config decode events) k j p response) :
      Chain config decode events body [⟨client, response.accessToken⟩]
  | exchanged (last : Link) (links : List Link) (client : SeedClient) (exchange : ExchangeBody)
      (nowMs : ℤ) (jti : JsString) (response : ExchangeResponse)
      (hchain : Chain config decode events body (last :: links))
      (hclient : config.seed.findClient client.clientId = some client)
      (hpresented : exchange.subjectToken = some last.token)
      (h : handleTokenExchange config client.clientId client.allowedScopes exchange nowMs jti =
        .sent response) :
      Chain config decode events body (⟨client, response.accessToken⟩ :: last :: links)

-- ---------------------------------------------------------------------------
-- What is claimed of a chain
-- ---------------------------------------------------------------------------

def JwtPayload.scopes (p : JwtPayload) : List JsString := parseScopeParam p.scope

def signedLink (jose : Jose) (link : SeedClient × JwtPayload) : Link :=
  ⟨link.1, jose.sign link.2⟩

def Allowed (link : SeedClient × JwtPayload) : Prop :=
  ∀ s ∈ link.2.scopes, s ∈ link.1.allowedScopes

def Narrowed (link before : SeedClient × JwtPayload) : Prop :=
  ∀ s ∈ link.2.scopes, s ∈ before.2.scopes

/-- Each token has scopes its client may ask for and the token before it has, and the
subject and the tenant of the first. -/
def Narrows (jose : Jose) (links : List Link) : Prop :=
  ∃ claims : List (SeedClient × JwtPayload), links = claims.map (signedLink jose) ∧
    (∀ link ∈ claims, Allowed link) ∧ claims.IsChain Narrowed ∧
    ∃ first, claims.getLast? = some first ∧
      ∀ link ∈ claims, link.2.sub = first.2.sub ∧ link.2.tenantId = first.2.tenantId

/-- The sign-in names scopes, or every scope that the user has and the client may ask for is
read as scopes the client may ask for. -/
def KeepsScopes (config : Config) (body : AuthorizeBody) : Prop :=
  parseScopeParam body.scope ≠ [] ∨
    ∀ client user, config.seed.findClient body.clientId = some client →
      config.seed.findUserByEmail body.email = some user →
      ∀ scope ∈ config.seed.entitlementsFor user, scope ∈ client.allowedScopes →
        ∀ piece ∈ parseScopeParam (some scope), piece ∈ client.allowedScopes

-- ---------------------------------------------------------------------------
-- The first token
-- ---------------------------------------------------------------------------

section
variable {config : Config} {decode : Decoders} {events : List Event} {body : AuthorizeBody}
  {code : JsString} {j k : Nat} {request : TokenRequest} {nowMs : ℤ} {p : Signing}
  {response : TokenResponse}

theorem chain_of_answers
    (hpresents : PresentsCode (history config decode events) j request nowMs code)
    (hanswers : Answers (history config decode events) k j p response) :
    ∃ body client issuedAt, .authorize body issuedAt code ∈ events ∧
      admitClient config decode request = .ok (client, authorizationCodeGrant) ∧
      Chain config decode events body [⟨client, response.accessToken⟩] := by
  obtain ⟨client, _, grant, _, _, hadmit, -, -, -, hkept, ⟨i, x, hx, hissued, -⟩, -⟩ :=
    signing_of_code hpresents (response_of_answers hanswers).1
  obtain ⟨hij, hx⟩ := at_take.mp hx
  obtain ⟨body, issuedAt, signedIn, user, rfl, hsign⟩ := hissued
  exact ⟨body, client, issuedAt, List.mem_of_getElem? (event_at hx), hadmit,
    .issued code j k request nowMs p response client
      ⟨i, issuedAt, signedIn, user, grant, hij, hx, hsign, hkept⟩ hpresents hadmit hanswers⟩

theorem issued_claims {client : SeedClient} (hsignIn : GoesBackTo config decode events body code j)
    (hpresents : PresentsCode (history config decode events) j request nowMs code)
    (hclient : admitClient config decode request = .ok (client, authorizationCodeGrant))
    (hanswers : Answers (history config decode events) k j p response) :
    ∃ claims user issuedAt holder grant, response.accessToken = config.jose.sign claims ∧
      SignIn config body issuedAt client holder grant ∧
      claims.scope = some (joinScopes grant.scopes) ∧
      config.seed.findUserById user.id = some user ∧
      claims.sub = some user.id ∧ claims.tenantId = some user.tenantId := by
  obtain ⟨i, issuedAt, signedIn, holder, grant, -, -, hsign, hkept⟩ := hsignIn
  obtain ⟨hsigns, -, haccess, -⟩ := response_of_answers hanswers
  obtain ⟨_, _, _, user, _, hadmit, -, -, -, hkept', -, -, hid, -, -, huser, rfl⟩ :=
    signing_of_code hpresents hsigns
  cases hclient.symm.trans hadmit
  cases hkept.symm.trans hkept'
  obtain ⟨⟨_, -, hauth⟩, -⟩ := admitClient_ok hclient
  obtain ⟨⟨clientId, -, hfound⟩, -⟩ := authenticateClient_ok hauth
  have hsame : clientId = body.clientId := by
    calc clientId = client.clientId := (Seed.findClient_clientId hfound).symm
      _ = signedIn.clientId := hid.symm.trans hsign.clientId
      _ = body.clientId := Seed.findClient_clientId hsign.registered
  subst hsame
  cases hsign.registered.symm.trans hfound
  have huserId := Seed.findUserById_id huser
  exact ⟨_, user, issuedAt, holder, grant, haccess, hsign, rfl, huserId ▸ huser, rfl, rfl⟩

theorem keepsScopes_iff {issuedAt : ℤ} {client : SeedClient} {user : SeedUser}
    {grant : AuthorizationCode} (hsign : SignIn config body issuedAt client user grant) :
    KeepsScopes config body ↔
      ∀ s ∈ parseScopeParam (some (joinScopes grant.scopes)), s ∈ client.allowedScopes := by
  rw [parse_joined]
  constructor
  · intro hkeeps s hs
    obtain ⟨scope, hscope, hread⟩ := List.mem_flatMap.mp hs
    obtain ⟨hcandidate, hentitled, hallowed, -⟩ := (narrowScopes_ok hsign.scopes scope).mp hscope
    rcases hkeeps with hnamed | hpieces
    · -- a scope that was named has no separator
      unfold candidates at hcandidate
      rw [if_pos (List.length_pos_of_ne_nil hnamed)] at hcandidate
      unfold parseScopeParam at hread
      rw [Option.getD_some, words_of_isWord (isWord_of_parsed hcandidate)] at hread
      exact List.mem_singleton.mp hread ▸ hallowed
    · exact hpieces client user hsign.registered hsign.known scope hentitled hallowed s hread
  · intro hread
    by_cases hnamed : parseScopeParam body.scope = []
    · refine .inr fun client' user' hregistered hknown scope hentitled hallowed piece hpiece => ?_
      cases hsign.registered.symm.trans hregistered
      cases hsign.known.symm.trans hknown
      have hgranted : scope ∈ grant.scopes := by
        rw [narrowScopes_ok hsign.scopes, hnamed]
        exact ⟨hentitled, hentitled, hallowed, rfl⟩
      exact hread piece (List.mem_flatMap.mpr ⟨scope, hgranted, hpiece⟩)
    · exact .inl hnamed

end

-- ---------------------------------------------------------------------------
-- Exchanges
-- ---------------------------------------------------------------------------

def Name (user : SeedUser) (claims : List (SeedClient × JwtPayload)) : Prop :=
  ∀ link ∈ claims, link.2.sub = some user.id ∧ link.2.tenantId = some user.tenantId

section
variable {config : Config} {decode : Decoders} {events : List Event} {body : AuthorizeBody}
  {client : SeedClient} {last : JwtPayload} {user : SeedUser} {links : List Link}

theorem exchanged_link (hjose : config.jose.Lawful) {exchange : ExchangeBody} {nowMs : ℤ}
    {jti : JsString} {response : ExchangeResponse}
    (huser : config.seed.findUserById user.id = some user) (hnamed : last.sub = some user.id)
    (hpresented : exchange.subjectToken = some (config.jose.sign last))
    (h : handleTokenExchange config client.clientId client.allowedScopes exchange nowMs jti =
      .sent response) :
    ∃ claims, response.accessToken = config.jose.sign claims ∧
      (∀ s ∈ claims.scopes, s ∈ last.scopes ∧ s ∈ client.allowedScopes) ∧
      claims.sub = some user.id ∧ claims.tenantId = some user.tenantId := by
  obtain ⟨claims, holder, audience, hsubject, -, hgrant⟩ := handleTokenExchange_sent h
  obtain ⟨token, htoken, -, hverify, hholder⟩ := hsubject
  have hsame : token = config.jose.sign last := by
    obtain ⟨hmem, -⟩ := Option.mem_filter_iff.mp htoken
    exact Option.some.inj (hmem.symm.trans hpresented)
  -- what verifies is what was signed
  cases hjose.decode _ _ (hsame ▸ hjose.verify _ _ _ _ hverify)
  rw [hnamed, Option.bind_some, huser] at hholder
  cases hholder
  obtain ⟨granted, -, hnarrow, htoken, hscope, hparse⟩ := grantExchange_sent hgrant
  refine ⟨_, htoken, fun s hs => ?_, rfl, rfl⟩
  have hgranted : s ∈ granted := by
    rw [← hparse, hscope]
    exact hs
  obtain ⟨-, hheld, hallowed, -⟩ := (narrowScopes_ok hnarrow s).mp hgranted
  exact ⟨(mem_subjectEntitlements.mp hheld).1, hallowed⟩

theorem chain_claims (hjose : config.jose.Lawful) (h : Chain config decode events body links) :
    ∃ later first user issuedAt holder grant,
      links = (later ++ [first]).map (signedLink config.jose) ∧
      (later ++ [first]).IsChain Narrowed ∧ (∀ link ∈ later, Allowed link) ∧
      config.seed.findUserById user.id = some user ∧ Name user (later ++ [first]) ∧
      SignIn config body issuedAt first.1 holder grant ∧
      first.2.scope = some (joinScopes grant.scopes) := by
  induction h with
  | issued code j k request nowMs p response client hsignIn hpresents hclient hanswers =>
    obtain ⟨claims, user, issuedAt, holder, grant, htoken, hsign, hscope, huser, hnamed⟩ :=
      issued_claims hsignIn hpresents hclient hanswers
    refine ⟨[], (client, claims), user, issuedAt, holder, grant, ?_, .singleton _, ?_, huser, ?_,
      hsign, hscope⟩
    · rw [htoken]
      rfl
    · intro link hlink
      cases hlink
    · intro link hlink
      obtain rfl := List.mem_singleton.mp hlink
      exact hnamed
  | exchanged last links client exchange nowMs jti response hchain hclient hpresented h ih =>
    obtain ⟨later, first, user, issuedAt, holder, grant, hlinks, hnarrowed, hallowed, huser, hname,
      hsign, hscope⟩ := ih
    obtain ⟨before, rest, hclaims, hlast, -⟩ := List.map_eq_cons_iff.mp hlinks.symm
    have hsub := (hname before (hclaims ▸ List.mem_cons_self)).1
    rw [← hlast] at hpresented
    obtain ⟨claims, htoken, hscopes, hnamed⟩ := exchanged_link hjose huser hsub hpresented h
    refine ⟨(client, claims) :: later, first, user, issuedAt, holder, grant, ?_, ?_, ?_, huser, ?_,
      hsign, hscope⟩
    · rw [htoken, hlinks]
      rfl
    · rw [List.cons_append, hclaims]
      exact .cons_cons (fun s hs => (hscopes s hs).1) (hclaims ▸ hnarrowed)
    · intro link hlink
      rcases List.mem_cons.mp hlink with rfl | hlink
      · exact fun s hs => (hscopes s hs).2
      · exact hallowed link hlink
    · intro link hlink
      rcases List.mem_cons.mp hlink with rfl | hlink
      · exact hnamed
      · exact hname link hlink

end

/-- A token of a chain that narrows has scopes its client may ask for, as it is decoded. -/
theorem Narrows.allowed {jose : Jose} (hjose : jose.Lawful) {links : List Link}
    (h : Narrows jose links) {link : Link} (hlink : link ∈ links) {q : JwtPayload}
    (hread : jose.decodeJwt link.token = some q) : Allowed (link.client, q) := by
  obtain ⟨claims, rfl, hallowed, -⟩ := h
  obtain ⟨signed, hsigned, rfl⟩ := List.mem_map.mp hlink
  cases hjose.decode _ _ hread
  exact hallowed signed hsigned

/-- A chain narrows exactly when the scope claim of its first token is read as scopes its
client may ask for, which is a matter of the sign-in and the directory. -/
theorem exchange_chain_narrows_iff (config : Config) (hjose : config.jose.Lawful)
    (decode : Decoders) (events : List Event) (body : AuthorizeBody) (links : List Link)
    (h : Chain config decode events body links)
    (hread : ∀ link ∈ links, (config.jose.decodeJwt link.token).isSome) :
    Narrows config.jose links ↔ KeepsScopes config body := by
  obtain ⟨later, first, user, issuedAt, holder, grant, rfl, hnarrowed, hallowed, -, hname, hsign,
    hscope⟩ := chain_claims hjose h
  rw [keepsScopes_iff hsign, ← hscope]
  constructor
  · intro hnarrows
    have hlink : signedLink config.jose first ∈ (later ++ [first]).map (signedLink config.jose) :=
      List.mem_map_of_mem (List.mem_append_right later List.mem_cons_self)
    obtain ⟨q, hq⟩ := Option.isSome_iff_exists.mp (hread _ hlink)
    have hfirst := hnarrows.allowed hjose hlink hq
    cases hjose.decode _ _ hq
    exact hfirst
  · intro hfirst
    refine ⟨_, rfl, fun link hlink => ?_, hnarrowed, first, List.getLast?_concat .., ?_⟩
    · rcases List.mem_append.mp hlink with hlink | hlink
      · exact hallowed link hlink
      · obtain rfl := List.mem_singleton.mp hlink
        exact hfirst
    · intro link hlink
      obtain ⟨hsub, htenant⟩ := hname link hlink
      obtain ⟨hsub', htenant'⟩ := hname first (List.mem_append_right later List.mem_cons_self)
      exact ⟨hsub.trans hsub'.symm, htenant.trans htenant'.symm⟩

-- ---------------------------------------------------------------------------
-- Two exchanges
-- ---------------------------------------------------------------------------

def consoleClient (scopes : List JsString) : SeedClient where
  clientId := js "console"
  clientSecret := none
  confidential := false
  redirectUris := [js "http://localhost:3000/callback"]
  allowedScopes := scopes
  allowedGrants := [authorizationCodeGrant, tokenExchangeGrant]

def analyst : SeedUser where
  id := js "usr_1"
  email := js "a@acme.test"
  password := js "pw"
  name := js "Ana"
  tenantId := js "acme"
  role := .analyst
  territory := none

/-- A directory in which the analysts' role and the console have these scopes. -/
def consoleSeed (scopes : List JsString) : Seed where
  scopeSets := [(js "analyst", scopes)]
  audienceNamespaces := [(js "mcp:salesforce", [js "salesforce"])]
  users := [analyst]
  clients := [consoleClient scopes]

def consoleConfig (scopes : List JsString) (signed : List (JsString × JwtPayload)) : Config where
  jose := .ofSigned signed
  seed := consoleSeed scopes
  issuer := js "idp"

def analystSignsIn (scope : Option JsString) : AuthorizeBody where
  clientId := js "console"
  redirectUri := js "http://localhost:3000/callback"
  scope := scope
  codeChallenge := base64Url (sha256Bytes (asciiBytes (js "verifier")))
  email := js "A@acme.test"
  password := js "pw"

def consoleRedeems : TokenRequest where
  body :=
    { grantType := some authorizationCodeGrant
      clientId := some (js "console")
      code := some (js "c0")
      codeVerifier := some (js "verifier") }

def consoleSession (scope : Option JsString) : List Event :=
  [.authorize (analystSignsIn scope) 990000 (js "c0"), .token consoleRedeems 1000000 (js "j0"),
    .signed 1 1000005 (js "r0")]

def analystToken (scopes granted : List JsString) : JsString × JwtPayload :=
  (js "t0", responseClaims (consoleConfig scopes []) analyst (js "console") granted (js "console")
    1000000 (js "j0"))

def salesforceScopes : List JsString := [js "salesforce:read", js "postgres:read"]

def analystTokens : List (JsString × JwtPayload) :=
  [analystToken salesforceScopes [js "postgres:read", js "salesforce:read"],
    (js "t1", exchangedClaims (consoleConfig salesforceScopes []) (js "console") analyst
      (js "mcp:salesforce") [js "salesforce:read"] 1001000 (js "j1"))]

def analystExchanges : ExchangeBody where
  subjectToken := some (js "t0")
  subjectTokenType := some accessTokenType
  audience := some (js "mcp:salesforce")
  scope := some (js "salesforce:read salesforce:write")

theorem chain_of_session {scopes : List JsString} {signed : List (JsString × JwtPayload)}
    {scope : Option JsString}
    (h : ((history (consoleConfig scopes signed) postedOnly (consoleSession scope))[2]?.bind
      fun e => e.2.tokens?).map (fun r => r.2.accessToken) = some (js "t0"))
    (hauth : (admitClient (consoleConfig scopes signed) postedOnly consoleRedeems).toOption =
      some (consoleClient scopes, authorizationCodeGrant)) :
    Chain (consoleConfig scopes signed) postedOnly (consoleSession scope) (analystSignsIn scope)
      [⟨consoleClient scopes, js "t0"⟩] := by
  obtain ⟨⟨p, response⟩, hresponse, htoken⟩ := Option.map_eq_some_iff.mp h
  obtain ⟨answer, hat⟩ : ∃ answer, (history (consoleConfig scopes signed) postedOnly
      (consoleSession scope))[1]? = some (.token consoleRedeems 1000000 (js "j0"), answer) :=
    exists_answer _ rfl
  have hanswers := answers_of rfl hresponse
  obtain ⟨body, client, issuedAt, hmem, hclient, hchain⟩ :=
    chain_of_answers ⟨rfl, rfl, js "j0", answer, hat⟩ hanswers
  obtain ⟨hbody, -⟩ : body = analystSignsIn scope ∧ issuedAt = 990000 := by
    simpa [consoleSession] using hmem
  rw [hclient] at hauth
  cases hauth
  exact hbody ▸ htoken ▸ hchain

theorem exchange_chain_narrows_once :
    Narrows (consoleConfig salesforceScopes analystTokens).jose
      [⟨consoleClient salesforceScopes, js "t1"⟩, ⟨consoleClient salesforceScopes, js "t0"⟩] := by
  have hissued : Chain (consoleConfig salesforceScopes analystTokens) postedOnly
      (consoleSession (some (js "salesforce:read postgres:read salesforce:write")))
      (analystSignsIn (some (js "salesforce:read postgres:read salesforce:write")))
      [⟨consoleClient salesforceScopes, js "t0"⟩] :=
    chain_of_session (by decide +kernel) (by decide +kernel)
  have hclient : (consoleSeed salesforceScopes).findClient (js "console") =
      some (consoleClient salesforceScopes) := by
    decide +kernel
  have hexchanged : (handleTokenExchange (consoleConfig salesforceScopes analystTokens)
      (js "console") (consoleClient salesforceScopes).allowedScopes analystExchanges 1001000
      (js "j1")).body? = some ⟨js "t1", 300, js "salesforce:read"⟩ := by
    decide +kernel
  have hchain := Chain.exchanged _ _ (consoleClient salesforceScopes) analystExchanges 1001000
    (js "j1") _ hissued hclient rfl (Reply.body?_eq_some.mp hexchanged)
  exact (exchange_chain_narrows_iff _ (Jose.ofSigned_lawful (by decide)) _ _ _ _ hchain
    (by decide +kernel)).mpr (.inl (by decide +kernel))

-- ---------------------------------------------------------------------------
-- A scope that is read as two
-- ---------------------------------------------------------------------------

/-- The role and the console have one scope, and the analyst signs in without naming any:
the token is read as two scopes, neither of which the console may ask for. -/
theorem bundled_scope_widens :
    Chain (consoleConfig [js "crm:read+write"]
        [analystToken [js "crm:read+write"] [js "crm:read+write"]]) postedOnly (consoleSession none)
        (analystSignsIn none) [⟨consoleClient [js "crm:read+write"], js "t0"⟩] ∧
      ¬ Narrows (consoleConfig [js "crm:read+write"]
        [analystToken [js "crm:read+write"] [js "crm:read+write"]]).jose
        [⟨consoleClient [js "crm:read+write"], js "t0"⟩] := by
  refine ⟨chain_of_session (by decide +kernel) (by decide +kernel), fun hnarrows => ?_⟩
  have hallowed := hnarrows.allowed (Jose.ofSigned_lawful (by decide)) List.mem_cons_self
    (show _ = some (analystToken [js "crm:read+write"] [js "crm:read+write"]).2 by decide +kernel)
  exact absurd (hallowed (js "write") (by decide +kernel)) (by decide +kernel)

end McpGateway.Idp
