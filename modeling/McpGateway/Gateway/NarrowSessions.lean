import McpGateway.Auth.MintedTokens
import McpGateway.Gateway.Mints
import McpGateway.Idp.Narrowing
import McpGateway.Js.NumberText

/-!
# Sessions with few scopes

The cache key has the subject, the audience and the scopes asked for, not what the
token that is presented carries. A call that gets a token without asking the
provider is given no more than its own token carries when it asks for scopes of its
own token, and for something. The tool path does; the policy stage and the console
ask for fixed scopes.
-/

namespace McpGateway.Gateway

open Js Shared Auth Idp Words Outcome Transition

def carried (jose : Jose) (token : JsString) : List JsString :=
  parseScopeParam ((jose.decodeJwt token).bind (·.scope))

def asked (input : MintInput) : List JsString := parseScopeParam (exchangeBody input).scope

def AsksWithin (jose : Jose) (input : MintInput) : Prop :=
  asked input ≠ [] ∧ ∀ s ∈ asked input, s ∈ carried jose input.subjectToken

instance (jose : Jose) (input : MintInput) : Decidable (AsksWithin jose input) :=
  inferInstanceAs (Decidable (_ ∧ _))

-- ---------------------------------------------------------------------------
-- What is asked for
-- ---------------------------------------------------------------------------

theorem asked_eq (input : MintInput) :
    asked input = parseScopeParam (some (joinScopes input.scopes)) := by
  unfold asked exchangeBody
  cases input.scopes <;> rfl

theorem mem_parse_normalised (scopes : List JsString) (s : JsString) :
    s ∈ parseScopeParam (some (joinScopes (normalised scopes))) ↔
      s ∈ parseScopeParam (some (joinScopes scopes)) := by
  have hmem : ∀ scope, scope ∈ normalised scopes ↔ scope ∈ scopes ∧ 0 < scope.length := by
    intro scope
    unfold normalised
    rw [(List.perm_insertionSort _ _).mem_iff, List.mem_eraseDups, List.mem_filter,
      decide_eq_true_iff]
  rw [parse_joined, parse_joined, List.mem_flatMap, List.mem_flatMap]
  constructor
  · rintro ⟨scope, hscope, hs⟩
    exact ⟨scope, ((hmem scope).mp hscope).1, hs⟩
  · rintro ⟨scope, hscope, hs⟩
    refine ⟨scope, (hmem scope).mpr ⟨hscope, List.length_pos_iff.mpr ?_⟩, hs⟩
    rintro rfl
    cases hs

def digestText (scopes : List JsString) : JsString := joinScopes (normalised scopes)

theorem asked_of_digestText {input input' : MintInput}
    (h : digestText input.scopes = digestText input'.scopes) (s : JsString) :
    s ∈ asked input ↔ s ∈ asked input' := by
  unfold digestText at h
  rw [asked_eq, asked_eq, ← mem_parse_normalised input.scopes, h, mem_parse_normalised]

theorem toolMint_within {jose : Jose} {payload : JwtPayload} {principal : Principal}
    {token : JsString} (hdecode : jose.decodeJwt token = some payload)
    (hprincipal : principalFromClaims payload = .ok principal) (target : McpTarget)
    (hrequested : requestedScopes principal target ≠ []) :
    AsksWithin jose (toolMint principal (some token) target) := by
  unfold AsksWithin
  rw [asked_eq, parse_joined]
  constructor
  · obtain ⟨scope, hscope⟩ := List.exists_mem_of_ne_nil _ hrequested
    obtain ⟨rest, rfl⟩ := List.isPrefixOf_iff_prefix.mp (List.mem_filter.mp hscope).2
    have hcolon : colon ∈ target.namespace ++ js ":" ++ rest := by
      simp [show js ":" = [colon] from rfl]
    have hword : parseScopeParam (some (target.namespace ++ js ":" ++ rest)) ≠ [] :=
      words_ne_nil hcolon (by decide)
    obtain ⟨word, hword⟩ := List.exists_mem_of_ne_nil _ hword
    exact List.ne_nil_of_mem (List.mem_flatMap.mpr ⟨_, hscope, hword⟩)
  · intro s hs
    obtain ⟨scope, hscope, hs⟩ := List.mem_flatMap.mp hs
    obtain ⟨hscopes, -⟩ := principalFromClaims_scopes hprincipal
    have hmem : scope ∈ parseScope payload.scope := hscopes ▸ (List.mem_filter.mp hscope).1
    have hspace : ∀ c, isSpace c = true → isScopeSeparator c = true := by
      intro c hc
      simp [isScopeSeparator, hc]
    change s ∈ parseScopeParam ((jose.decodeJwt token).bind (·.scope))
    rw [hdecode]
    change s ∈ words isScopeSeparator (payload.scope.getD [])
    rw [← words_flatMap_words hspace, List.mem_flatMap]
    exact ⟨scope, hmem, hs⟩

-- ---------------------------------------------------------------------------
-- What is minted
-- ---------------------------------------------------------------------------

section
variable {config : Config} {clientId : JsString} {clientAllowed : List JsString}
  {input : MintInput} {token : MirroredToken}

/-- The token has no more scopes than the token of the call it is minted for, and none the
call has not asked for. -/
def Narrows (jose : Jose) (input : MintInput) (token : MirroredToken) : Prop :=
  token.audience = input.audience ∧ ∀ s ∈ carried jose token.accessToken,
    s ∈ carried jose input.subjectToken ∧ (asked input ≠ [] → s ∈ asked input)

theorem providerAnswer_response {reply : Reply ExchangeResponse} {r : ProviderResponse}
    (h : (providerAnswer reply).response? = some r) :
    ∃ response, reply = .sent response ∧ r.accessToken = response.accessToken := by
  cases reply with
  | sent response =>
    cases h
    exact ⟨response, rfl, rfl⟩
  | _ => cases h

theorem exchange_narrows (hjose : config.jose.Lawful) {nowMs : ℤ} {jti : JsString}
    {response : ExchangeResponse}
    (h : handleTokenExchange config clientId clientAllowed (exchangeBody input) nowMs jti =
      .sent response) {s : JsString} (hs : s ∈ carried config.jose response.accessToken) :
    s ∈ carried config.jose input.subjectToken ∧ (asked input ≠ [] → s ∈ asked input) := by
  obtain ⟨claims, user, audience, ⟨subjectToken, htoken, -, hverify, -⟩, -, hgrant⟩ :=
    handleTokenExchange_sent h
  obtain ⟨granted, -, hnarrow, haccess, hscope, hparse⟩ := grantExchange_sent hgrant
  have hpresented : subjectToken = input.subjectToken :=
    (Option.some.inj (Option.mem_filter_iff.mp htoken).1).symm
  unfold carried at hs
  rw [haccess] at hs
  cases hdecode : config.jose.decodeJwt (config.jose.sign
      (exchangedClaims config clientId user audience granted nowMs jti)) with
  | none =>
    rw [hdecode] at hs
    cases hs
  | some payload =>
    rw [hdecode] at hs
    cases hjose.decode _ _ hdecode
    have hmem : s ∈ granted := by
      rw [← hparse, hscope]
      exact hs
    obtain ⟨hcandidate, hheld, -, -⟩ := (narrowScopes_ok hnarrow s).mp hmem
    constructor
    · unfold carried
      rw [← hpresented, hjose.verify _ _ _ _ hverify]
      exact (mem_subjectEntitlements.mp hheld).1
    · intro hasked
      unfold candidates at hcandidate
      unfold asked at hasked ⊢
      rwa [if_pos (List.length_pos_iff.mpr hasked)] at hcandidate

theorem mirrored_narrows (hjose : config.jose.Lawful) {answer : ProviderAnswer} {now nowMs : ℤ}
    {jti : JsString}
    (hanswer : ∀ r ∈ answer.response?, (providerAnswer (handleTokenExchange config clientId
      clientAllowed (exchangeBody input) nowMs jti)).response? = some r)
    (h : mirrored (decodeClaims config.jose) input answer now = .ok token) :
    Narrows config.jose input token := by
  unfold mirrored at h
  split at h
  · cases h
  · cases h
  · next r =>
    obtain ⟨claims, -, h⟩ := bind_eq_ok.mp h
    split at h
    · cases h
    · cases h
      obtain ⟨response, hsent, haccess⟩ := providerAnswer_response (hanswer r rfl)
      exact ⟨rfl, fun s hs => exchange_narrows hjose hsent (haccess ▸ hs)⟩

end

-- ---------------------------------------------------------------------------
-- Runs
-- ---------------------------------------------------------------------------

/-- The answers to the calls are those of the provider, at some time and with some token id
for each call, or there is none. -/
def FromProvider (config : Config) (clientId : JsString) (clientAllowed : List JsString)
    (drawn : Nat → ℤ × JsString) (s : TokenExchange) : MintEvent → Prop
  | .answers c answer _ => ∀ call ∈ s.calls c, ∀ r ∈ answer.response?,
      (providerAnswer (handleTokenExchange config clientId clientAllowed (exchangeBody call.input)
        (drawn c).1 (drawn c).2)).response? = some r
  | _ => True

/-- A call that gets a token it has not asked the provider for asks within its own token. -/
def SharesWithin (options : TokenExchangeOptions) (jose : Jose) (s : TokenExchange)
    (event : MintEvent) : Prop :=
  ∀ call ∈ s.sharing options event, AsksWithin jose call.input

instance (config : Config) (clientId : JsString) (clientAllowed : List JsString)
    (drawn : Nat → ℤ × JsString) (s : TokenExchange) :
    ∀ event, Decidable (FromProvider config clientId clientAllowed drawn s event)
  | .answers _ _ _ => inferInstanceAs (Decidable (∀ call ∈ _, _))
  | .mint .. | .reads .. | .resumes .. | .dropped _ | .wrote _ | .finishes _ | .shares _
  | .stores _ | .expires _ => .isTrue trivial

instance (options : TokenExchangeOptions) (jose : Jose) (s : TokenExchange) (event : MintEvent) :
    Decidable (SharesWithin options jose s event) := inferInstanceAs (Decidable (∀ call ∈ _, _))

/-- The event starts a call. -/
def Asks (events : List MintEvent) (input : MintInput) : Prop :=
  ∃ c, MintEvent.mint c input ∈ events

/-- Different scopes that are asked for have different digests. -/
def DigestsTell (events : List MintEvent) : Prop :=
  ∀ input input', Asks events input → Asks events input' →
    scopeDigest input.scopes = scopeDigest input'.scopes →
    digestText input.scopes = digestText input'.scopes

def FromGateway (jose : Jose) (input : MintInput) : Prop :=
  ∃ payload principal token, jose.decodeJwt token = some payload ∧
    principalFromClaims payload = .ok principal ∧
    (input = policyStageMint principal (some token) ∨
      input = listPoliciesMint principal (some token) ∨
      input = tryPolicyMint principal (some token) ∨
      ∃ target, requestedScopes principal target ≠ [] ∧
        input = toolMint principal (some token) target)

def sessionTerms (numberText : ℚ → JsString) (hnum : NumberText numberText)
    (options : TokenExchangeOptions) (jose : Jose) (events : List MintEvent) : Terms where
  numberText := numberText
  options := options
  decodeJwt := decodeClaims jose
  asks := fun input => IsTarget input.audience ∧ Asks events input
  good := Narrows jose
  may := AsksWithin jose
  isNumberText := hnum
  target := fun _ h => h.1
  labelled := fun _ _ h => h.1

/-- A token that was minted for a call with the same key has scopes both have asked for. -/
theorem obtained_narrow {numberText : ℚ → JsString} {hnum : NumberText numberText}
    {options : TokenExchangeOptions} {jose : Jose} {events : List MintEvent} {input : MintInput}
    {token : MirroredToken} (hdigests : DigestsTell events)
    (hasks : (sessionTerms numberText hnum options jose events).asks input)
    (h : (sessionTerms numberText hnum options jose events).Obtained input token) {s : JsString}
    (hs : s ∈ carried jose token.accessToken) : s ∈ carried jose input.subjectToken := by
  obtain ⟨-, hown⟩ | ⟨⟨hsome, hwithin⟩, hunder, -⟩ := h
  · exact (hown s hs).1
  · obtain ⟨input', minted, hasks', hkey, ⟨-, hminted⟩, htoken, -, -⟩ := hunder
    obtain ⟨-, -, hdigest⟩ := keyOf_inj hkey hasks'.1 hasks.1
    have hsame := asked_of_digestText (hdigests input' input hasks'.2 hasks.2 hdigest)
    have hne : asked input' ≠ [] := by
      obtain ⟨scope, hscope⟩ := List.exists_mem_of_ne_nil _ hsome
      exact List.ne_nil_of_mem ((hsame scope).mpr hscope)
    have hasked := (hminted s (htoken ▸ hs)).2 hne
    exact hwithin s ((hsame s).mp hasked)

/-- In every run in which calls that get a token they have not asked the provider for ask
within their own, and digests tell scopes apart, a token has only scopes that the token
presented for it carries. -/
theorem mint_never_widens (config : Config) (hjose : config.jose.Lawful) (clientId : JsString)
    (clientAllowed : List JsString) (numberText : ℚ → JsString) (hnum : NumberText numberText)
    (options : TokenExchangeOptions) (drawn : Nat → ℤ × JsString) (events : List MintEvent)
    (s : TokenExchange) (htargets : ∀ input, Asks events input → IsTarget input.audience)
    (hdigests : DigestsTell events)
    (hprovider : Along (TokenExchange.step numberText options (decodeClaims config.jose))
      (FromProvider config clientId clientAllowed drawn) .created events)
    (hwithin : Along (TokenExchange.step numberText options (decodeClaims config.jose))
      (SharesWithin options config.jose) .created events)
    (hrun : run (TokenExchange.step numberText options (decodeClaims config.jose)) .created events =
      some s) (c : Nat) (call : MintCall) (token : MirroredToken) (hcall : s.calls c = some call)
    (hphase : call.phase = .settled (.ok token)) :
    ∀ scope ∈ carried config.jose token.accessToken,
      scope ∈ carried config.jose call.input.subjectToken := by
  have hasks : Along (TokenExchange.step numberText options (decodeClaims config.jose))
      (fun _ event => event ∈ events) .created events := along_of_forall fun _ h => h
  have hok : (sessionTerms numberText hnum options config.jose events).Ok s := by
    refine run_invariant_along _ _ ?_ ok_created (along_and hasks (along_and hprovider hwithin)) hrun
    rintro s event s' hs ⟨hmem, hanswer, hmay⟩ hstep
    refine ok_step hs event ⟨?_, ?_, hmay⟩ hstep
    · rintro c input rfl
      exact ⟨htargets input ⟨c, hmem⟩, c, hmem⟩
    · rintro c answer now call token rfl hcall hminted
      exact mirrored_narrows hjose (hanswer call hcall) hminted
  have hfits := hok.fits c call hcall
  unfold Terms.Fits at hfits
  rw [hphase] at hfits
  exact fun scope hscope => obtained_narrow hdigests (hok.asks c call hcall) (hfits token rfl) hscope

-- ---------------------------------------------------------------------------
-- Two sessions of one person
-- ---------------------------------------------------------------------------

def sessionSeed : Seed where
  scopeSets := [(js "analyst", [js "salesforce:read"])]
  audienceNamespaces := [(js "mcp:salesforce", [js "salesforce"]), (js "mcp:policy-engine", [js "policy"])]
  users :=
    [{ id := js "usr_1", email := js "a@acme.test", password := js "pw", name := js "Ana"
       tenantId := js "acme", role := .analyst, territory := none }]
  clients := []

def gatewayScopes : List JsString := [js "salesforce:read", js "policy:evaluate"]

def session (jti scope : String) : JwtPayload where
  iss := js "idp"
  sub := some (js "usr_1")
  aud := js "console"
  iat := 1000
  nbf := 1000
  exp := 1900
  jti := js jti
  scope := some (js scope)
  tenantId := some (js "acme")

def exchanged (audience scope : String) : JwtPayload where
  iss := js "idp"
  sub := some (js "usr_1")
  aud := js audience
  iat := 1000
  nbf := 1000
  exp := 1300
  jti := js "j9"
  scope := some (js scope)
  clientId := some (js "gateway")
  tenantId := some (js "acme")
  role := some (js "analyst")
  email := some (js "a@acme.test")
  name := some (js "Ana")
  actor := some (js "gateway")

def sessionConfig : Config where
  jose := .ofSigned [(js "broad", session "j1" "policy:evaluate salesforce:read"),
    (js "narrow", session "j2" "salesforce:read"),
    (js "policy", exchanged "mcp:policy-engine" "policy:evaluate"),
    (js "crm", exchanged "mcp:salesforce" "salesforce:read")]
  seed := sessionSeed
  issuer := js "idp"

def callerOf (jti scope : String) : Principal where
  subject := js "usr_1"
  tenantId := js "acme"
  role := .viewer
  scopes := parseScope (some (js scope))
  tokenId := js jti
  clientId := js "unknown"
  expiresAt := 1900
  email := none
  name := none

def oneAfterOther (first second : MintInput) (token scope : String) : List MintEvent :=
  [.mint 0 first, .reads 0 false, .resumes 0 1000000,
    .answers 0 (.response ⟨js token, some (.finite 300), some (js scope)⟩) 1000000,
    .stores 0, .wrote 0, .finishes 0, .mint 1 second, .reads 1 false, .resumes 1 1001000]

def broadPolicy : MintInput :=
  policyStageMint (callerOf "j1" "policy:evaluate salesforce:read") (some (js "broad"))

def narrowPolicy : MintInput := policyStageMint (callerOf "j2" "salesforce:read") (some (js "narrow"))

def broadTool : MintInput :=
  toolMint (callerOf "j1" "policy:evaluate salesforce:read") (some (js "broad")) .salesforce

def narrowTool : MintInput :=
  toolMint (callerOf "j2" "salesforce:read") (some (js "narrow")) .salesforce

def drawnOnce (_ : Nat) : ℤ × JsString := (1000000, js "j9")

def mintedFor (token audience scope : String) : MirroredToken :=
  ⟨js token, js audience, [js scope], .finite 1300, js "usr_1", true⟩

/-- The narrow session's tool call gets the token minted for the broad one's. -/
theorem mint_never_widens_tool :
    ∃ s, run (TokenExchange.step fractionText {} (decodeClaims sessionConfig.jose)) .created
        (oneAfterOther broadTool narrowTool "crm" "salesforce:read") = some s ∧
      s.HasToken 1 narrowTool (mintedFor "crm" "mcp:salesforce" "salesforce:read") ∧
      ∀ scope ∈ carried sessionConfig.jose (js "crm"),
        scope ∈ carried sessionConfig.jose (js "narrow") := by
  have hend : (run (TokenExchange.step fractionText {} (decodeClaims sessionConfig.jose)) .created
      (oneAfterOther broadTool narrowTool "crm" "salesforce:read")).any (fun s =>
        decide (s.HasToken 1 narrowTool (mintedFor "crm" "mcp:salesforce" "salesforce:read"))) =
          true := by
    decide +kernel
  obtain ⟨s, hrun, hs⟩ := (Option.any_eq_true _ _).mp hend
  have htoken := of_decide_eq_true hs
  obtain ⟨call, hcall, hinput, hphase⟩ := of_hasToken htoken
  have hinputs : ∀ input, Asks (oneAfterOther broadTool narrowTool "crm" "salesforce:read") input →
      input = broadTool ∨ input = narrowTool := by
    rintro input ⟨c, hmem⟩
    simp only [oneAfterOther, List.mem_cons, List.not_mem_nil, MintEvent.mint.injEq, or_false,
      reduceCtorEq, false_or] at hmem
    exact hmem.imp And.right And.right
  have hsame : broadTool.scopes = narrowTool.scopes := by decide +kernel
  refine ⟨s, hrun, htoken, ?_⟩
  have hwithin := mint_never_widens sessionConfig (Jose.ofSigned_lawful (by decide)) (js "gateway")
    gatewayScopes fractionText numberText_fractionText {} drawnOnce
    (oneAfterOther broadTool narrowTool "crm" "salesforce:read") s ?_ ?_ (by decide +kernel)
    (by decide +kernel) hrun 1 call _ hcall hphase
  · rw [hinput] at hwithin
    exact hwithin
  · intro input hasks
    obtain rfl | rfl := hinputs input hasks <;> exact ⟨.salesforce, rfl⟩
  · intro input input' hasks hasks' _
    have hscopes : ∀ input, Asks (oneAfterOther broadTool narrowTool "crm" "salesforce:read") input →
        input.scopes = narrowTool.scopes := by
      intro input hasks
      obtain rfl | rfl := hinputs input hasks
      · exact hsame
      · rfl
    rw [hscopes input hasks, hscopes input' hasks']

/-- The narrow session's policy stage gets the token minted for the broad one's. -/
theorem mint_widens :
    ¬ ∀ (config : Config) (clientId : JsString) (clientAllowed : List JsString)
      (drawn : Nat → ℤ × JsString) (events : List MintEvent) (s : TokenExchange),
      config.jose.Lawful → (∀ input, Asks events input → FromGateway config.jose input) →
      Along (TokenExchange.step fractionText {} (decodeClaims config.jose))
        (FromProvider config clientId clientAllowed drawn) .created events →
      run (TokenExchange.step fractionText {} (decodeClaims config.jose)) .created events = some s →
      ∀ c call token, s.calls c = some call → call.phase = .settled (.ok token) →
      ∀ scope ∈ carried config.jose token.accessToken,
        scope ∈ carried config.jose call.input.subjectToken := by
  intro hclaim
  have hend : (run (TokenExchange.step fractionText {} (decodeClaims sessionConfig.jose)) .created
      (oneAfterOther broadPolicy narrowPolicy "policy" "policy:evaluate")).any (fun s =>
        decide (s.HasToken 1 narrowPolicy
          (mintedFor "policy" "mcp:policy-engine" "policy:evaluate"))) = true := by
    decide +kernel
  obtain ⟨s, hrun, hs⟩ := (Option.any_eq_true _ _).mp hend
  obtain ⟨call, hcall, hinput, hphase⟩ := of_hasToken (of_decide_eq_true hs)
  have hwidens : js "policy:evaluate" ∈ carried sessionConfig.jose (js "policy") ∧
      js "policy:evaluate" ∉ carried sessionConfig.jose (js "narrow") := by
    decide +kernel
  have hmem := hclaim sessionConfig (js "gateway") gatewayScopes drawnOnce
    (oneAfterOther broadPolicy narrowPolicy "policy" "policy:evaluate") s
    (Jose.ofSigned_lawful (by decide)) ?_ (by decide +kernel) hrun 1 call _ hcall hphase
    (js "policy:evaluate") hwidens.1
  · rw [hinput] at hmem
    exact hwidens.2 hmem
  · rintro input ⟨c, hmem⟩
    simp only [oneAfterOther, List.mem_cons, List.not_mem_nil, MintEvent.mint.injEq, or_false,
      reduceCtorEq, false_or] at hmem
    obtain ⟨-, rfl⟩ | ⟨-, rfl⟩ := hmem
    · exact ⟨session "j1" "policy:evaluate salesforce:read", _, js "broad", by decide +kernel, rfl,
        .inl rfl⟩
    · exact ⟨session "j2" "salesforce:read", _, js "narrow", by decide +kernel, rfl, .inl rfl⟩

end McpGateway.Gateway
