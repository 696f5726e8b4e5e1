import McpGateway.Idp.AudienceNamespaces

/-!
# Requests that can be granted in part

An exchange is refused only when nothing of what was asked for is left. A request
for a scope that cannot be granted, next to one that can, is answered with a token
for the other one.
-/

namespace McpGateway.Idp

open Js Shared Words Outcome

/-- The scope passes all four tests: the subject token carries it, the subject is entitled
to it, the client may ask for it and the audience may receive it. -/
structure MayBeGranted (config : Config) (clientAllowed : List JsString) (claims : JwtPayload)
    (user : SeedUser) (audience scope : JsString) : Prop where
  carried : scope ∈ parseScopeParam claims.scope
  entitled : scope ∈ config.seed.entitlementsFor user
  allowed : scope ∈ clientAllowed
  permitted : config.seed.Permits audience scope

/-- A request with a scope that may not be granted gets an `invalid_scope`; one that is
answered with a token gets the scopes it asked for. -/
structure AllOrNothing (config : Config) (clientId : JsString) (clientAllowed : List JsString)
    (body : ExchangeBody) (nowMs : ℤ) (jti : JsString) (claims : JwtPayload) (user : SeedUser)
    (audience : JsString) : Prop where
  refused : (∃ s ∈ parseScopeParam body.scope,
      ¬ MayBeGranted config clientAllowed claims user audience s) → ∃ description,
    handleTokenExchange config clientId clientAllowed body nowMs jti =
      .refused ⟨400, js "invalid_scope", description⟩
  whole : ∀ response,
    handleTokenExchange config clientId clientAllowed body nowMs jti = .sent response →
    ∀ s, s ∈ parseScopeParam (some response.scope) ↔ s ∈ parseScopeParam body.scope

/-- Of what is left for the audience, the filter lets nothing through and does not throw. -/
def NothingPasses (config : Config) (clientAllowed : List JsString) (body : ExchangeBody)
    (claims : JwtPayload) (user : SeedUser) (audience : JsString) : Prop :=
  ∀ s ∈ leftFor config clientAllowed body claims user,
    namespaceFilter (config.seed.namespacesFor audience) s = .ok false

section
variable {config : Config} {clientId : JsString} {clientAllowed : List JsString}
  {body : ExchangeBody} {audience : JsString} {nowMs : ℤ} {jti : JsString} {claims : JwtPayload}
  {user : SeedUser}

theorem filter_of_permits {s : JsString} (h : config.seed.Permits audience s) :
    namespaceFilter (config.seed.namespacesFor audience) s = .ok true := by
  obtain ⟨names, hlookup, hname⟩ := h
  rw [namespacesFor_known hlookup]
  cases names with
  | nil => cases hname
  | cons name names =>
    show Except.ok ((name :: names).contains (namespaceOf s)) = _
    rw [List.contains_iff_mem.mpr hname]

theorem filter_returns {s : JsString}
    (h : namespaceFilter (config.seed.namespacesFor audience) s = .ok true) (s' : JsString) :
    Returns (namespaceFilter (config.seed.namespacesFor audience) s') := by
  by_cases hrestricts : config.seed.Restricts audience
  · obtain ⟨name, names, hlookup⟩ := hrestricts
    rw [namespacesFor_known hlookup]
    exact returns_ok _
  · obtain hopen | ⟨-, e, hthrows⟩ := namespaceFilter_unrestricted hrestricts
    · rw [hopen]
      exact returns_ok _
    · rw [hthrows] at h
      cases h

theorem narrowScopes_nil_iff : narrowScopes (parseScopeParam body.scope)
      (subjectEntitlements config claims user) clientAllowed (config.seed.namespacesFor audience) =
        .ok [] ↔ NothingPasses config clientAllowed body claims user audience := by
  unfold NothingPasses
  rw [narrowScopes_eq, bind_eq_ok]
  constructor
  · rintro ⟨kept, hkept, hsorted⟩ s hs
    obtain ⟨hreturns, -⟩ := filterExcept_eq_ok.mp hkept
    have hempty : kept = [] := by
      have hperm := List.perm_insertionSort (· ≤ ·) kept
      rw [show List.insertionSort (· ≤ ·) kept = [] from pure_eq_ok.mp hsorted] at hperm
      exact hperm.symm.eq_nil
    obtain ⟨passes, hpasses⟩ := hreturns s hs
    cases passes with
    | false => exact hpasses
    | true =>
      have hin := (mem_filterExcept hkept s).mpr ⟨hs, hpasses⟩
      rw [hempty] at hin
      cases hin
  · intro hall
    refine ⟨[], ?_, rfl⟩
    have hfiltered : filterExcept (namespaceFilter (config.seed.namespacesFor audience))
        (leftFor config clientAllowed body claims user) = .ok (List.filter (fun _ => false)
          (leftFor config clientAllowed body claims user)) := filterExcept_of_ok hall
    rw [List.filter_false] at hfiltered
    exact hfiltered

theorem grantExchange_refused_iff (clientId : JsString) (nowMs : ℤ) (jti : JsString) :
    (∃ description, grantExchange config clientId clientAllowed claims user audience body.scope
        nowMs jti = .refused ⟨400, js "invalid_scope", description⟩) ↔
      NothingPasses config clientAllowed body claims user audience := by
  rw [← narrowScopes_nil_iff]
  unfold grantExchange
  split
  · next e he =>
    rw [he]
    exact ⟨nofun, nofun⟩
  · next hnone =>
    rw [hnone]
    exact ⟨fun _ => rfl, fun _ => ⟨_, rfl⟩⟩
  · next first rest hsome =>
    rw [hsome]
    exact ⟨nofun, nofun⟩

theorem mem_sent {response : ExchangeResponse}
    (h : grantExchange config clientId clientAllowed claims user audience body.scope nowMs jti =
      .sent response) (s : JsString) :
    s ∈ parseScopeParam (some response.scope) ↔
      s ∈ leftFor config clientAllowed body claims user ∧
        namespaceFilter (config.seed.namespacesFor audience) s = .ok true := by
  obtain ⟨granted, -, hnarrow, -, -, hparse⟩ := grantExchange_sent h
  rw [hparse, narrowScopes_ok hnarrow]
  unfold leftFor
  rw [mem_grantable]
  tauto

theorem sent_of_passes (clientId : JsString) (nowMs : ℤ) (jti : JsString) {s : JsString}
    (hs : s ∈ leftFor config clientAllowed body claims user)
    (hpasses : namespaceFilter (config.seed.namespacesFor audience) s = .ok true) :
    ∃ response, grantExchange config clientId clientAllowed claims user audience body.scope nowMs
      jti = .sent response := by
  obtain ⟨kept, hkept⟩ : ∃ kept, filterExcept
      (namespaceFilter (config.seed.namespacesFor audience))
      (leftFor config clientAllowed body claims user) = .ok kept :=
    ⟨_, filterExcept_eq_ok.mpr ⟨fun s' _ => filter_returns hpasses s', rfl⟩⟩
  have hnarrow : narrowScopes (parseScopeParam body.scope) (subjectEntitlements config claims user)
      clientAllowed (config.seed.namespacesFor audience) = .ok (sortScopes kept) := by
    rw [narrowScopes_eq]
    exact bind_eq_ok.mpr ⟨kept, hkept, rfl⟩
  refine grantExchange_returns hnarrow ?_
  have hgranted : s ∈ sortScopes kept := by
    obtain ⟨hasked, hheld, hallowed⟩ := mem_grantable.mp hs
    exact (narrowScopes_ok hnarrow s).mpr ⟨hasked, hheld, hallowed, hpasses⟩
  exact List.ne_nil_of_mem hgranted

end

/-- For a verified subject token and an audience: a request for scopes is granted whole or
refused exactly when every scope passes the four tests, or nothing of what was asked for
passes the filters; and one of separators only, which asks for everything, when nothing
passes either. -/
theorem all_or_nothing_iff (config : Config) (clientId : JsString) (clientAllowed : List JsString)
    (body : ExchangeBody) (nowMs : ℤ) (jti : JsString) (claims : JwtPayload) (user : SeedUser)
    (audience : JsString) (hsubject : SubjectIs config body nowMs claims user)
    (haudience : present body.audience = some audience) :
    AllOrNothing config clientId clientAllowed body nowMs jti claims user audience ↔
      if parseScopeParam body.scope = [] then
        ∀ s ∈ leftFor config clientAllowed body claims user,
          namespaceFilter (config.seed.namespacesFor audience) s ≠ .ok true
      else
        (∀ s ∈ parseScopeParam body.scope,
          MayBeGranted config clientAllowed claims user audience s) ∨
        NothingPasses config clientAllowed body claims user audience := by
  have hreply : handleTokenExchange config clientId clientAllowed body nowMs jti =
      grantExchange config clientId clientAllowed claims user audience body.scope nowMs jti :=
    handleTokenExchange_of_subject hsubject haudience
  constructor
  · intro h
    split
    · next hempty =>
      intro s hs hpasses
      obtain ⟨response, hsent⟩ := sent_of_passes clientId nowMs jti hs hpasses
      have hgranted := (h.whole response (hreply.trans hsent) s).mp
        ((mem_sent hsent s).mpr ⟨hs, hpasses⟩)
      rw [hempty] at hgranted
      cases hgranted
    · by_cases hall : ∀ s ∈ parseScopeParam body.scope,
          MayBeGranted config clientAllowed claims user audience s
      · exact .inl hall
      · obtain ⟨s, hs, hnot⟩ : ∃ s ∈ parseScopeParam body.scope,
            ¬ MayBeGranted config clientAllowed claims user audience s := by
          simpa only [not_forall, exists_prop] using hall
        obtain ⟨description, hrefused⟩ := h.refused ⟨s, hs, hnot⟩
        exact .inr ((grantExchange_refused_iff clientId nowMs jti).mp
          ⟨description, hreply.symm.trans hrefused⟩)
  · intro hcondition
    have hrefuses : NothingPasses config clientAllowed body claims user audience →
        AllOrNothing config clientId clientAllowed body nowMs jti claims user audience := by
      intro hnothing
      obtain ⟨description, hrefused⟩ := (grantExchange_refused_iff clientId nowMs jti).mpr hnothing
      refine ⟨fun _ => ⟨description, hreply.trans hrefused⟩, fun response hsent => ?_⟩
      rw [hreply, hrefused] at hsent
      cases hsent
    split at hcondition
    · next hempty =>
      constructor
      · rintro ⟨s, hs, -⟩
        rw [hempty] at hs
        cases hs
      · intro response hsent s
        rw [hreply] at hsent
        rw [mem_sent hsent, hempty]
        exact ⟨fun hgranted => absurd hgranted.2 (hcondition s hgranted.1), nofun⟩
    · next hasks =>
      obtain hall | hnothing := hcondition
      · constructor
        · rintro ⟨s, hs, hnot⟩
          exact absurd (hall s hs) hnot
        · intro response hsent s
          rw [hreply] at hsent
          rw [mem_sent hsent]
          have hcandidates : candidates (parseScopeParam body.scope)
              (subjectEntitlements config claims user) = parseScopeParam body.scope :=
            if_pos (List.length_pos_iff.mpr hasks)
          unfold leftFor
          rw [mem_grantable, hcandidates]
          refine ⟨fun hgranted => hgranted.1.1, fun hs => ?_⟩
          have hmay := hall s hs
          exact ⟨⟨hs, mem_subjectEntitlements.mpr ⟨hmay.carried, hmay.entitled⟩, hmay.allowed⟩,
            filter_of_permits hmay.permitted⟩
      · exact hrefuses hnothing

def requestFor (scope : String) : ExchangeBody where
  subjectToken := some (js "t0")
  subjectTokenType := some accessTokenType
  audience := some (js "mcp:salesforce")
  scope := some (js scope)

def smallAnalyst : SeedUser where
  id := js "usr_1"
  email := js "a@acme.test"
  password := js "pw"
  name := js "Ana"
  tenantId := js "acme"
  role := .analyst
  territory := none

theorem all_or_nothing_one_scope :
    AllOrNothing smallConfig (js "gateway") [js "salesforce:read", js "postgres:read"]
      (requestFor "salesforce:read") 1000000 (js "j1") signedIn smallAnalyst (js "mcp:salesforce") :=
  (all_or_nothing_iff smallConfig (js "gateway") [js "salesforce:read", js "postgres:read"]
    (requestFor "salesforce:read") 1000000 (js "j1") signedIn smallAnalyst (js "mcp:salesforce")
    ⟨js "t0", by decide, rfl, by decide, by decide⟩ (by decide)).mpr (by
      rw [if_neg (by decide)]
      refine .inl fun s hs => ?_
      have hone : parseScopeParam (requestFor "salesforce:read").scope = [js "salesforce:read"] := by
        decide
      rw [hone, List.mem_singleton] at hs
      subst hs
      exact ⟨by decide, by decide, by decide, [js "salesforce"], by decide, by decide⟩)

/-- Asked for reading and writing, the analyst gets a token for reading. -/
theorem downgraded_to_reading :
    ¬ ∀ (config : Config) (clientId : JsString) (clientAllowed : List JsString)
      (body : ExchangeBody) (nowMs : ℤ) (jti : JsString) (claims : JwtPayload) (user : SeedUser)
      (audience : JsString), SubjectIs config body nowMs claims user →
      present body.audience = some audience → (present body.scope).isSome = true →
      AllOrNothing config clientId clientAllowed body nowMs jti claims user audience := by
  intro hclaim
  have hall := hclaim smallConfig (js "gateway") [js "salesforce:read", js "postgres:read"]
    (requestFor "salesforce:read salesforce:write") 1000000 (js "j1") signedIn smallAnalyst
    (js "mcp:salesforce") ⟨js "t0", by decide, rfl, by decide, by decide⟩ (by decide) (by decide)
  obtain ⟨description, hrefused⟩ := hall.refused ⟨js "salesforce:write", by decide, fun h =>
    absurd h.carried (by decide)⟩
  have hsent : (handleTokenExchange smallConfig (js "gateway")
      [js "salesforce:read", js "postgres:read"] (requestFor "salesforce:read salesforce:write")
      1000000 (js "j1")).body?.map ExchangeResponse.scope = some (js "salesforce:read") := by
    decide +kernel
  rw [hrefused] at hsent
  cases hsent

end McpGateway.Idp
