import McpGateway.Idp.Server

/-!
# What an exchange grants

The scopes of an exchanged token are among those of the subject token, the
subject's entitlements and the client's registration. The audience restricts
them only when the directory lists namespaces for it: an empty list lets every
scope through, also that of an audience the directory does not know.
-/

namespace McpGateway.Idp

open Js Shared Words Outcome

section
variable {config : Config} {clientId : JsString} {clientAllowed : List JsString}

-- ---------------------------------------------------------------------------
-- Scope parameters
-- ---------------------------------------------------------------------------

theorem isWord_of_parsed {value : Option JsString} {scope : JsString}
    (h : scope ∈ parseScopeParam value) : IsWord isScopeSeparator scope := isWord_of_mem h

theorem parse_join {scopes : List JsString} (h : ∀ s ∈ scopes, IsWord isScopeSeparator s) :
    parseScopeParam (some (joinScopes scopes)) = scopes :=
  words_intercalate_of_isWord rfl h

theorem parse_joined (scopes : List JsString) : parseScopeParam (some (joinScopes scopes)) =
    scopes.flatMap fun s => parseScopeParam (some s) := words_intercalate rfl scopes

-- ---------------------------------------------------------------------------
-- The three filters
-- ---------------------------------------------------------------------------

def candidates (requested entitlements : List JsString) : List JsString :=
  if requested.length > 0 then requested else entitlements

def grantable (requested entitlements clientAllowed : List JsString) : List JsString :=
  ((candidates requested entitlements).eraseDups.filter entitlements.contains).filter
    clientAllowed.contains

section
variable {requested entitlements granted : List JsString} {ns : Namespaces}

theorem mem_grantable {s : JsString} : s ∈ grantable requested entitlements clientAllowed ↔
    s ∈ candidates requested entitlements ∧ s ∈ entitlements ∧ s ∈ clientAllowed := by
  unfold grantable
  simp only [List.mem_filter, List.mem_eraseDups, List.contains_iff_mem, and_assoc]

theorem narrowScopes_eq (requested entitlements clientAllowed : List JsString) (ns : Namespaces) :
    narrowScopes requested entitlements clientAllowed ns =
      (filterExcept (namespaceFilter ns) (grantable requested entitlements clientAllowed) >>=
        fun kept => return sortScopes kept) := rfl

theorem narrowScopes_ok
    (h : narrowScopes requested entitlements clientAllowed ns = .ok granted) (s : JsString) :
    s ∈ granted ↔ s ∈ candidates requested entitlements ∧ s ∈ entitlements ∧ s ∈ clientAllowed ∧
      namespaceFilter ns s = .ok true := by
  rw [narrowScopes_eq] at h
  obtain ⟨kept, hkept, h⟩ := bind_eq_ok.mp h
  cases h
  unfold sortScopes
  rw [(List.perm_insertionSort _ kept).mem_iff, mem_filterExcept hkept, mem_grantable, and_assoc,
    and_assoc]

theorem narrowScopes_nothing (ns : Namespaces)
    (h : grantable requested entitlements clientAllowed = []) :
    narrowScopes requested entitlements clientAllowed ns = .ok [] := by
  rw [narrowScopes_eq, h]
  rfl

theorem narrowScopes_returns {q : JsString → Bool} (h : ∀ s, namespaceFilter ns s = .ok (q s)) :
    narrowScopes requested entitlements clientAllowed ns =
      .ok (sortScopes ((grantable requested entitlements clientAllowed).filter q)) := by
  rw [narrowScopes_eq, filterExcept_of_ok fun s _ => h s]
  rfl

theorem narrowScopes_throws {e : Thrown} (h : ∀ s, namespaceFilter ns s = .error e)
    (hleft : grantable requested entitlements clientAllowed ≠ []) :
    narrowScopes requested entitlements clientAllowed ns = .error e := by
  rw [narrowScopes_eq, filterExcept_of_error h hleft]
  rfl

end

-- ---------------------------------------------------------------------------
-- Exchanges
-- ---------------------------------------------------------------------------

/-- The subject token of a request verifies with these claims and names this user. -/
def SubjectIs (config : Config) (body : ExchangeBody) (nowMs : ℤ) (claims : JwtPayload)
    (user : SeedUser) : Prop :=
  ∃ token, present body.subjectToken = some token ∧
    body.subjectTokenType = some accessTokenType ∧
    config.jose.jwtVerify config.issuer (nowMs / 1000) token = some claims ∧
    claims.sub.bind config.seed.findUserById = some user

variable {body : ExchangeBody} {nowMs : ℤ} {jti audience : JsString} {claims : JwtPayload}
  {user : SeedUser} {response : ExchangeResponse}

theorem handleTokenExchange_of_subject (hsubject : SubjectIs config body nowMs claims user)
    (haudience : present body.audience = some audience) :
    handleTokenExchange config clientId clientAllowed body nowMs jti =
      grantExchange config clientId clientAllowed claims user audience body.scope nowMs jti := by
  obtain ⟨token, htoken, htype, hverify, huser⟩ := hsubject
  unfold handleTokenExchange
  rw [htoken, haudience]
  dsimp only
  rw [if_neg (not_not.mpr htype), hverify]
  dsimp only
  rw [huser]

theorem handleTokenExchange_sent
    (h : handleTokenExchange config clientId clientAllowed body nowMs jti = .sent response) :
    ∃ claims user audience, SubjectIs config body nowMs claims user ∧
      present body.audience = some audience ∧
      grantExchange config clientId clientAllowed claims user audience body.scope nowMs jti =
        .sent response := by
  unfold handleTokenExchange at h
  split at h
  · next token audience htoken haudience =>
    split at h
    · cases h
    · next htype =>
      split at h
      · cases h
      · next claims hverify =>
        split at h
        · cases h
        · next user huser =>
          exact ⟨claims, user, audience, ⟨token, htoken, not_not.mp htype, hverify, huser⟩,
            haudience, h⟩
  · cases h

def exchangedClaims (config : Config) (clientId : JsString) (user : SeedUser)
    (audience : JsString) (granted : List JsString) (nowMs : ℤ) (jti : JsString) : JwtPayload :=
  accessTokenClaims
    { issuer := config.issuer, user, clientId, audience, scopes := granted
      ttlSeconds := exchangedTtl config, actor := some clientId } nowMs jti

theorem grantExchange_sent
    (h : grantExchange config clientId clientAllowed claims user audience scope nowMs jti =
      .sent response) :
    ∃ granted, granted ≠ [] ∧
      narrowScopes (parseScopeParam scope) (subjectEntitlements config claims user) clientAllowed
        (config.seed.namespacesFor audience) = .ok granted ∧
      response.accessToken =
        config.jose.sign (exchangedClaims config clientId user audience granted nowMs jti) ∧
      response.scope = joinScopes granted ∧
      parseScopeParam (some response.scope) = granted := by
  unfold grantExchange at h
  split at h
  · cases h
  · cases h
  · next first rest hnarrow =>
    cases h
    refine ⟨first :: rest, List.cons_ne_nil _ _, hnarrow, rfl, rfl, parse_join fun s hs => ?_⟩
    have hheld := ((narrowScopes_ok hnarrow s).mp hs).2.1
    exact isWord_of_parsed (List.mem_filter.mp hheld).1

theorem mem_subjectEntitlements {s : JsString} : s ∈ subjectEntitlements config claims user ↔
    s ∈ parseScopeParam claims.scope ∧ s ∈ config.seed.entitlementsFor user := by
  unfold subjectEntitlements
  rw [List.mem_filter, List.contains_iff_mem]

end

end McpGateway.Idp
