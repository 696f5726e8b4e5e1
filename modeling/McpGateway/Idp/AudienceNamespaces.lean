import McpGateway.Idp.Narrowing

/-!
# Audiences and namespaces

A token is minted for one audience, and the directory lists the namespaces an
audience may receive. An audience it does not list has the empty list, which
restricts nothing.
-/

namespace McpGateway.Idp

open Js Shared Words Outcome

def Seed.Permits (seed : Seed) (audience scope : JsString) : Prop :=
  ∃ names, seed.audienceNamespaces.lookup audience = some names ∧ namespaceOf scope ∈ names

/-- At least one namespace is listed for the audience. -/
def Seed.Restricts (seed : Seed) (audience : JsString) : Prop :=
  ∃ name names, seed.audienceNamespaces.lookup audience = some (name :: names)

section
variable (config : Config) (clientId : JsString) (clientAllowed : List JsString)
  (body : ExchangeBody) (audience : JsString) (nowMs : ℤ) (jti : JsString)

/-- A token that is sent has only scopes that the directory permits its audience, the
subject token carries, the subject is entitled to and the client may ask for; and an
audience the directory does not know gets an `invalid_scope`. -/
structure AudienceConfined : Prop where
  confined : ∀ response,
    handleTokenExchange config clientId clientAllowed body nowMs jti = .sent response →
    ∃ claims user payload, SubjectIs config body nowMs claims user ∧
      response.accessToken = config.jose.sign payload ∧ payload.scope = some response.scope ∧
      ∀ s ∈ parseScopeParam payload.scope, config.seed.Permits audience s ∧
        s ∈ parseScopeParam claims.scope ∧ s ∈ config.seed.entitlementsFor user ∧
        s ∈ clientAllowed
  refused : ∀ claims user, SubjectIs config body nowMs claims user →
    ¬ config.seed.Knows audience → ∃ description,
    handleTokenExchange config clientId clientAllowed body nowMs jti =
      .refused ⟨400, js "invalid_scope", description⟩

end

section
variable {config : Config} {clientId : JsString} {clientAllowed : List JsString}
  {body : ExchangeBody} {audience : JsString} {nowMs : ℤ} {jti : JsString} {claims : JwtPayload}
  {user : SeedUser} {seed : Seed}

theorem namespacesFor_known {names : List JsString}
    (h : seed.audienceNamespaces.lookup audience = some names) :
    seed.namespacesFor audience = .array names := by
  unfold Seed.namespacesFor
  rw [h]

/-- What an audience that is not restricted is asked: nothing, or a property that has no
`includes`. -/
theorem namespaceFilter_unrestricted (h : ¬ seed.Restricts audience) :
    (∀ s, namespaceFilter (seed.namespacesFor audience) s = .ok true) ∨
      ¬ seed.Knows audience ∧ ∃ e, ∀ s, namespaceFilter (seed.namespacesFor audience) s = .error e := by
  cases hlookup : seed.audienceNamespaces.lookup audience with
  | some names =>
    rw [namespacesFor_known hlookup]
    cases names with
    | nil => exact .inl fun _ => rfl
    | cons name names => exact absurd ⟨name, names, hlookup⟩ h
  | none =>
    have hunknown : ¬ seed.Knows audience := by simp [Seed.Knows, hlookup]
    unfold Seed.namespacesFor
    rw [hlookup]
    cases objectPrototype.lookup audience with
    | none => exact .inl fun _ => rfl
    | some length =>
      match length with
      | none => exact .inr ⟨hunknown, _, fun _ => rfl⟩
      | some 0 => exact .inl fun _ => rfl
      | some (_ + 1) => exact .inr ⟨hunknown, _, fun _ => rfl⟩

theorem permits_of_filter (h : seed.Restricts audience) {s : JsString}
    (hs : namespaceFilter (seed.namespacesFor audience) s = .ok true) :
    seed.Permits audience s := by
  obtain ⟨name, names, hlookup⟩ := h
  rw [namespacesFor_known hlookup] at hs
  exact ⟨name :: names, hlookup, by simpa [namespaceFilter, pure, Except.pure] using hs⟩

theorem Seed.Restricts.knows (h : seed.Restricts audience) : seed.Knows audience := by
  obtain ⟨name, names, hlookup⟩ := h
  simp [Seed.Knows, hlookup]

def leftFor (config : Config) (clientAllowed : List JsString) (body : ExchangeBody)
    (claims : JwtPayload) (user : SeedUser) : List JsString :=
  grantable (parseScopeParam body.scope) (subjectEntitlements config claims user) clientAllowed

theorem grantExchange_nothing (hleft : leftFor config clientAllowed body claims user = []) :
    grantExchange config clientId clientAllowed claims user audience body.scope nowMs jti =
      .refused ⟨400, js "invalid_scope",
        js "Subject holds no scopes valid for audience '" ++ audience ++ js "'"⟩ := by
  unfold grantExchange
  rw [narrowScopes_nothing _ hleft]

theorem grantExchange_returns {granted : List JsString}
    (hnarrow : narrowScopes (parseScopeParam body.scope) (subjectEntitlements config claims user)
      clientAllowed (config.seed.namespacesFor audience) = .ok granted) (hne : granted ≠ []) :
    ∃ response, grantExchange config clientId clientAllowed claims user audience body.scope nowMs
      jti = .sent response := by
  obtain ⟨first, rest, rfl⟩ := List.exists_cons_of_ne_nil hne
  unfold grantExchange
  rw [hnarrow]
  exact ⟨_, rfl⟩

theorem grantExchange_unrestricted
    (hopen : ∀ s, namespaceFilter (config.seed.namespacesFor audience) s = .ok true)
    {scope : JsString} (hscope : scope ∈ leftFor config clientAllowed body claims user) :
    ∃ response, grantExchange config clientId clientAllowed claims user audience body.scope nowMs
      jti = .sent response ∧ scope ∈ parseScopeParam (some response.scope) := by
  have hnarrow : narrowScopes (parseScopeParam body.scope) (subjectEntitlements config claims user)
      clientAllowed (config.seed.namespacesFor audience) = _ := narrowScopes_returns hopen
  obtain ⟨hasked, hheld, hallowed⟩ := mem_grantable.mp hscope
  have hgranted := (narrowScopes_ok hnarrow scope).mpr ⟨hasked, hheld, hallowed, hopen scope⟩
  obtain ⟨response, hsent⟩ := grantExchange_returns hnarrow (List.ne_nil_of_mem hgranted)
  obtain ⟨granted, -, hsame, -, -, hparse⟩ := grantExchange_sent hsent
  rw [hnarrow] at hsame
  cases hsame
  exact ⟨response, hsent, hparse ▸ hgranted⟩

/-- An audience without `includes` ends the request of a subject that is left with a
scope. -/
theorem grantExchange_throws {e : Thrown}
    (hthrows : ∀ s, namespaceFilter (config.seed.namespacesFor audience) s = .error e)
    (hleft : leftFor config clientAllowed body claims user ≠ []) :
    grantExchange config clientId clientAllowed claims user audience body.scope nowMs jti =
      .threw e := by
  unfold grantExchange
  rw [narrowScopes_throws hthrows hleft]

/-- Whatever audience is asked for, an exchange keeps to the directory exactly when the
directory lists a namespace for it or the other filters leave nothing. -/
theorem audience_confined_iff (config : Config) (clientId : JsString)
    (clientAllowed : List JsString) (body : ExchangeBody) (audience : JsString) (nowMs : ℤ)
    (jti : JsString) (haudience : present body.audience = some audience) :
    AudienceConfined config clientId clientAllowed body audience nowMs jti ↔
      ∀ claims user, SubjectIs config body nowMs claims user →
        config.seed.Restricts audience ∨ leftFor config clientAllowed body claims user = [] := by
  constructor
  · intro hconfined claims user hsubject
    by_contra hneither
    obtain ⟨hopen, hleft⟩ := not_or.mp hneither
    have hreply : handleTokenExchange config clientId clientAllowed body nowMs jti = _ :=
      handleTokenExchange_of_subject hsubject haudience
    obtain hall | ⟨hunknown, e, hthrows⟩ := namespaceFilter_unrestricted hopen
    · obtain ⟨scope, hscope⟩ := List.exists_mem_of_ne_nil _ hleft
      obtain ⟨response, hsent, hgranted⟩ := grantExchange_unrestricted hall hscope
      obtain ⟨_, _, payload, -, -, hpayload, hpermits⟩ :=
        hconfined.confined response (hreply.trans hsent)
      obtain ⟨⟨names, hlookup, hname⟩, -⟩ := hpermits scope (hpayload ▸ hgranted)
      cases names with
      | nil => cases hname
      | cons name names => exact hopen ⟨name, names, hlookup⟩
    · obtain ⟨_, hrefused⟩ := hconfined.refused claims user hsubject hunknown
      rw [hreply, grantExchange_throws hthrows hleft] at hrefused
      cases hrefused
  · intro hcondition
    constructor
    · intro response hsent
      obtain ⟨claims, user, audience', hsubject, haudience', hgrant⟩ :=
        handleTokenExchange_sent hsent
      cases haudience.symm.trans haudience'
      obtain ⟨granted, hne, hnarrow, htoken, hscope, hparse⟩ := grantExchange_sent hgrant
      refine ⟨claims, user, _, hsubject, htoken, congrArg some hscope.symm, fun s hs => ?_⟩
      have hmem : s ∈ granted := hparse ▸ hscope ▸ hs
      obtain ⟨hasked, hheld, hallowed, hfilter⟩ := (narrowScopes_ok hnarrow s).mp hmem
      have hleft : s ∈ leftFor config clientAllowed body claims user :=
        mem_grantable.mpr ⟨hasked, hheld, hallowed⟩
      obtain ⟨hcarried, hentitled⟩ := mem_subjectEntitlements.mp hheld
      refine ⟨?_, hcarried, hentitled, hallowed⟩
      obtain hrestricts | hnone := hcondition claims user hsubject
      · exact permits_of_filter hrestricts hfilter
      · rw [hnone] at hleft
        cases hleft
    · intro claims user hsubject hunknown
      rw [handleTokenExchange_of_subject hsubject haudience]
      obtain hrestricts | hnone := hcondition claims user hsubject
      · exact absurd hrestricts.knows hunknown
      · exact ⟨_, grantExchange_nothing hnone⟩

end

-- ---------------------------------------------------------------------------
-- Two audiences
-- ---------------------------------------------------------------------------

def smallSeed : Seed where
  scopeSets := [(js "analyst", [js "salesforce:read", js "postgres:read"])]
  audienceNamespaces := [(js "mcp:salesforce", [js "salesforce"]),
    (js "mcp:postgres", [js "postgres"])]
  users :=
    [{ id := js "usr_1", email := js "a@acme.test", password := js "pw", name := js "Ana"
       tenantId := js "acme", role := .analyst, territory := none }]
  clients :=
    [{ clientId := js "gateway", clientSecret := some (js "s"), confidential := true
       redirectUris := [], allowedScopes := [js "salesforce:read", js "postgres:read"]
       allowedGrants := [accessTokenType] }]

def signedIn : JwtPayload where
  iss := js "idp"
  sub := some (js "usr_1")
  aud := js "gateway"
  iat := 1000
  nbf := 1000
  exp := 1900
  jti := js "j0"
  scope := some (js "postgres:read salesforce:read")

def smallConfig : Config where
  jose := .ofSigned [(js "t0", signedIn)]
  seed := smallSeed
  issuer := js "idp"

def exchangeFor (audience : String) : ExchangeBody where
  subjectToken := some (js "t0")
  subjectTokenType := some accessTokenType
  audience := some (js audience)
  scope := none

theorem audience_confined_known :
    AudienceConfined smallConfig (js "gateway") [js "salesforce:read", js "postgres:read"]
      (exchangeFor "mcp:salesforce") (js "mcp:salesforce") 1000000 (js "j1") :=
  (audience_confined_iff smallConfig (js "gateway") _ (exchangeFor "mcp:salesforce")
    (js "mcp:salesforce") 1000000 (js "j1") (by decide)).mpr
    fun _ _ _ => .inl ⟨js "salesforce", [], by decide⟩

/-- The analyst's token is exchanged whole for an audience the directory does not know. -/
theorem audience_not_confined :
    ¬ ∀ (config : Config) (clientId : JsString) (clientAllowed : List JsString)
      (body : ExchangeBody) (audience : JsString) (nowMs : ℤ) (jti : JsString),
      present body.audience = some audience →
      AudienceConfined config clientId clientAllowed body audience nowMs jti := by
  intro hclaim
  have hconfined := hclaim smallConfig (js "gateway") [js "salesforce:read", js "postgres:read"]
    (exchangeFor "mcp:payroll") (js "mcp:payroll") 1000000 (js "j1") (by decide)
  obtain ⟨user, huser⟩ := Option.isSome_iff_exists.mp
    (show (signedIn.sub.bind smallSeed.findUserById).isSome = true by decide)
  obtain ⟨_, hrefused⟩ := hconfined.refused signedIn user
    ⟨js "t0", by decide, rfl, by decide, huser⟩ (by unfold Seed.Knows; decide)
  have hsent : (handleTokenExchange smallConfig (js "gateway")
      [js "salesforce:read", js "postgres:read"] (exchangeFor "mcp:payroll") 1000000
      (js "j1")).body?.isSome = true := by
    decide +kernel
  rw [hrefused] at hsent
  cases hsent

end McpGateway.Idp
