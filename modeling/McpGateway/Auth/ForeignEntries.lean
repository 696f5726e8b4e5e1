import McpGateway.Auth.ExchangeCache
import McpGateway.Js.Convert

/-!
# Cache entries of any shape

What a call of `mint` makes of whatever text the cache has under its key. The text
is parsed and taken for an entry without a look at it, so a value that is not one can
end the call, or be returned as a token.
-/

namespace McpGateway.Auth

open Js Shared

/-- A token as it is read from a cached value: whatever stands where its parts should. -/
structure CachedToken where
  accessToken : Value
  audience : JsString
  scopes : Value
  expiresAt : Value
  subject : Value

/-- What `mint` returns. -/
inductive Minted
  | cached (token : CachedToken)
  | exchanged (token : MirroredToken)

section
variable (engine : Engine) (options : TokenExchangeOptions)

/-- The rest of `readCache`, once the text is parsed. -/
def readValue (audience : JsString) (v : Json) (now : ℤ) : Except Thrown (Option CachedToken) :=
  match v with
  | .null => throw (.other (some (js "Cannot read properties of null (reading 'e')")))
  | v => do
    let entry : Value := .json v
    let e ← converted ((entry.member (js "e")).toNumber engine)
    if (e.sub (.finite options.earlyRefreshSeconds)).le (seconds now) then return none
    return some
      { accessToken := entry.member (js "t")
        audience
        scopes := entry.member (js "s")
        expiresAt := entry.member (js "e")
        subject := entry.member (js "a") }

/-- `readCache`, for what `cache.get` has returned; `none` too when it rejects. -/
def readText (audience : JsString) (raw : Option JsString) (now : ℤ) :
    Except Thrown (Option CachedToken) :=
  match raw with
  | none | some [] => return none
  | some text =>
    match Json.parse text with
    | none => return none
    | some v => readValue engine options audience v now

/-- `mint`: the cached token, or the exchange in flight for the key, or one of its own. -/
def mint (decodeJwt : JsString → Except Thrown DecodedClaims) (input : MintInput)
    (raw : Option JsString) (now : ℤ) (inFlight : Option (Except Thrown MirroredToken))
    (answer : ProviderAnswer) (answeredAt : ℤ) : Except Thrown Minted := do
  match ← readText engine options input.audience raw now with
  | some token => return .cached token
  | none => Minted.exchanged <$> inFlight.getD (mirrored decodeJwt input answer answeredAt)

end

-- ---------------------------------------------------------------------------
-- Entries
-- ---------------------------------------------------------------------------

/-- The value is an object with the strings, the list of strings and the number of an
entry. -/
def IsEntry (v : Json) (entry : CacheEntry) : Prop :=
  ∃ props, v = .object props ∧ props.lookup (js "t") = some (.string entry.t) ∧
    props.lookup (js "a") = some (.string entry.a) ∧
    props.lookup (js "s") = some (.array (entry.s.map .string)) ∧
    props.lookup (js "e") = some (.number entry.e)

def CacheEntry.token (entry : CacheEntry) (audience : JsString) : CachedToken where
  accessToken := .json (.string entry.t)
  audience := audience
  scopes := .json (.array (entry.s.map .string))
  expiresAt := .json (.number entry.e)
  subject := .json (.string entry.a)

def Later (options : TokenExchangeOptions) (now : ℤ) (e : JsNumber) : Prop :=
  (seconds now).lt (e.sub (.finite options.earlyRefreshSeconds)) = true

def Stale (engine : Engine) (options : TokenExchangeOptions) (now : ℤ) (v : Json) : Prop :=
  ∃ n, (Value.member (.json v) (js "e")).toNumber engine = some n ∧
    (n.sub (.finite options.earlyRefreshSeconds)).le (seconds now) = true

section
variable {engine : Engine} {options : TokenExchangeOptions} {audience : JsString} {v : Json}
  {entry : CacheEntry} {now : ℤ} {raw : Option JsString}

theorem readValue_entry (h : IsEntry v entry) (audience : JsString) (now : ℤ) :
    readValue engine options audience v now =
      .ok (if (entry.e.sub (.finite options.earlyRefreshSeconds)).le (seconds now) then none
        else some (entry.token audience)) := by
  obtain ⟨props, rfl, ht, ha, hs, he⟩ := h
  have hmember : ∀ name w, props.lookup name = some w →
      Value.member (.json (.object props)) name = .json w := by
    intro name w hw
    show property props name = .json w
    unfold property
    rw [hw]
  unfold readValue
  dsimp only
  rw [hmember _ _ he, hmember _ _ ht, hmember _ _ ha, hmember _ _ hs]
  have hnumber : converted ((Value.json (.number entry.e)).toNumber engine) = .ok entry.e := rfl
  rw [hnumber]
  dsimp only [bind, Except.bind]
  split <;> rfl

theorem readText_miss (h : raw = none ∨ raw = some [] ∨ raw.bind Json.parse = none) :
    readText engine options audience raw now = .ok none := by
  unfold readText
  split
  · rfl
  · rfl
  · next text hne =>
    obtain h | h | h := h
    · cases h
    · cases h
      exact absurd rfl hne
    · rw [Option.bind_some] at h
      rw [h]
      rfl

theorem readText_parsed {text : JsString} (hne : text ≠ []) (h : Json.parse text = some v) :
    readText engine options audience (some text) now =
      readValue engine options audience v now := by
  unfold readText
  split
  · next heq => cases heq
  · next heq =>
    cases heq
    exact absurd rfl hne
  · next text' heq =>
    cases heq
    rw [h]

theorem readValue_cases (engine : Engine) (options : TokenExchangeOptions) (audience : JsString)
    (v : Json) (now : ℤ) :
    (∃ e, readValue engine options audience v now = .error e ∧
        (v = .null ∨ (Value.member (.json v) (js "e")).toNumber engine = none)) ∨
      (readValue engine options audience v now = .ok none ∧ v ≠ .null ∧
        Stale engine options now v) ∨
      (∃ token, readValue engine options audience v now = .ok (some token) ∧ v ≠ .null ∧
        ¬ Stale engine options now v) := by
  by_cases hnull : v = .null
  · subst hnull
    exact .inl ⟨_, rfl, .inl rfl⟩
  · have hvalue : readValue engine options audience v now = (do
        let e ← converted ((Value.member (.json v) (js "e")).toNumber engine)
        if (e.sub (.finite options.earlyRefreshSeconds)).le (seconds now) then return none
        return some
          { accessToken := Value.member (.json v) (js "t")
            audience
            scopes := Value.member (.json v) (js "s")
            expiresAt := Value.member (.json v) (js "e")
            subject := Value.member (.json v) (js "a") }) := by
      unfold readValue
      split
      · exact absurd rfl hnull
      · rfl
    rw [hvalue]
    cases hn : (Value.member (.json v) (js "e")).toNumber engine with
    | none => exact .inl ⟨_, rfl, .inr rfl⟩
    | some n =>
      right
      have hok : converted (some n) = .ok n := rfl
      rw [hok]
      dsimp only [bind, Except.bind]
      by_cases hstale : (n.sub (.finite options.earlyRefreshSeconds)).le (seconds now) = true
      · rw [if_pos hstale]
        exact .inl ⟨rfl, hnull, n, hn, hstale⟩
      · rw [if_neg hstale]
        refine .inr ⟨_, rfl, hnull, ?_⟩
        rintro ⟨n', hn', hstale'⟩
        rw [hn] at hn'
        cases hn'
        exact hstale hstale'

end

-- ---------------------------------------------------------------------------
-- How a call of mint settles
-- ---------------------------------------------------------------------------

/-- Every call of `mint` that finds the text returns the token of an entry with a later
expiry, or settles as the exchange does that is in flight, or its own. -/
def SettlesWell (engine : Engine) (options : TokenExchangeOptions) (raw : Option JsString)
    (now : ℤ) : Prop :=
  ∀ (decodeJwt : JsString → Except Thrown DecodedClaims) (input : MintInput)
    (inFlight : Option (Except Thrown MirroredToken)) (answer : ProviderAnswer) (answeredAt : ℤ),
    (∃ text v entry, raw = some text ∧ Json.parse text = some v ∧ IsEntry v entry ∧
        Later options now entry.e ∧
        mint engine options decodeJwt input raw now inFlight answer answeredAt =
          .ok (.cached (entry.token input.audience))) ∨
      mint engine options decodeJwt input raw now inFlight answer answeredAt =
        Minted.exchanged <$> inFlight.getD (mirrored decodeJwt input answer answeredAt)

/-- The text is no value that `mint` could mistake for an entry with a later expiry. -/
def NotMistakable (engine : Engine) (options : TokenExchangeOptions) (raw : Option JsString)
    (now : ℤ) : Prop :=
  ∀ text ∈ raw, text ≠ [] → ∀ v ∈ Json.parse text, v ≠ .null ∧
    (Stale engine options now v ∨ ∃ entry, IsEntry v entry ∧ Later options now entry.e)

section
variable {engine : Engine} {options : TokenExchangeOptions} {raw : Option JsString} {now : ℤ}

theorem mint_miss (h : ∀ audience, readText engine options audience raw now = .ok none) :
    SettlesWell engine options raw now := by
  intro decodeJwt input inFlight answer answeredAt
  right
  unfold mint
  rw [h]
  rfl

/-- Where every call settles well, a text that is not passed over is an entry with a later
expiry. -/
theorem entry_of_settlesWell (hwell : SettlesWell engine options raw now) (audience : JsString)
    (h : readText engine options audience raw now ≠ .ok none) :
    ∃ text v entry, raw = some text ∧ Json.parse text = some v ∧ IsEntry v entry ∧
      Later options now entry.e := by
  -- an exchange in flight that succeeds, whatever its token
  let token : MirroredToken := ⟨[], [], [], .nan, [], false⟩
  have hsettles := hwell (fun _ => throw (.other none)) ⟨[], [], audience, []⟩ (some (.ok token))
    (.failed (.other none)) 0
  obtain ⟨text, v, entry, hraw, hparse, hentry, hlater, -⟩ | hexchange := hsettles
  · exact ⟨text, v, entry, hraw, hparse, hentry, hlater⟩
  · unfold mint at hexchange
    dsimp only at hexchange
    cases hread : readText engine options audience raw now with
    | error e =>
      rw [hread] at hexchange
      cases hexchange
    | ok found =>
      cases found with
      | none => exact absurd hread h
      | some t =>
        rw [hread] at hexchange
        cases hexchange

theorem settlesWell_parsed {text : JsString} {v : Json} (hne : text ≠ [])
    (hparse : Json.parse text = some v) :
    SettlesWell engine options (some text) now ↔
      v ≠ .null ∧
        (Stale engine options now v ∨ ∃ entry, IsEntry v entry ∧ Later options now entry.e) := by
  have hread : ∀ audience, readText engine options audience (some text) now =
      readValue engine options audience v now := fun audience => readText_parsed hne hparse
  constructor
  · intro hwell
    have hentry : readText engine options [] (some text) now ≠ .ok none →
        ∃ entry, IsEntry v entry ∧ Later options now entry.e := by
      intro h
      obtain ⟨text', v', entry, hraw, hparse', hentry, hlater⟩ := entry_of_settlesWell hwell [] h
      cases hraw
      rw [hparse] at hparse'
      cases hparse'
      exact ⟨entry, hentry, hlater⟩
    rw [hread] at hentry
    obtain ⟨e, he, -⟩ | ⟨-, hnull, hstale⟩ | ⟨token, htoken, hnull, -⟩ :=
      readValue_cases engine options [] v now
    · -- an entry is read without a throw
      obtain ⟨entry, hv, -⟩ := hentry (by rw [he]; nofun)
      rw [readValue_entry hv] at he
      cases he
    · exact ⟨hnull, .inl hstale⟩
    · exact ⟨hnull, .inr (hentry (by rw [htoken]; nofun))⟩
  · rintro ⟨hnull, hstale | ⟨entry, hentry, hlater⟩⟩
    · refine mint_miss fun audience => ?_
      rw [hread]
      obtain ⟨e, -, hthrows⟩ | ⟨hnone, -⟩ | ⟨token, -, -, hfresh⟩ :=
        readValue_cases engine options audience v now
      · obtain ⟨n, hn, -⟩ := hstale
        obtain hv | hnumber := hthrows
        · exact absurd hv hnull
        · rw [hn] at hnumber
          cases hnumber
      · exact hnone
      · exact absurd hstale hfresh
    · intro decodeJwt input inFlight answer answeredAt
      refine .inl ⟨text, v, entry, rfl, hparse, hentry, hlater, ?_⟩
      have hfresh : ¬ (entry.e.sub (.finite options.earlyRefreshSeconds)).le (seconds now) = true := by
        have hlt := hlater
        unfold Later JsNumber.lt at hlt
        rw [Bool.and_eq_true, Bool.not_eq_true'] at hlt
        rw [hlt.2]
        exact Bool.false_ne_true
      unfold mint
      rw [hread, readValue_entry hentry, if_neg hfresh]
      rfl

end

/-- Every call of `mint` settles well with a cached text, exactly when the text is not
JSON, or a value with a stale expiry, or an entry with a later one. -/
theorem mint_settles_well_iff (engine : Engine) (options : TokenExchangeOptions)
    (raw : Option JsString) (now : ℤ) :
    SettlesWell engine options raw now ↔ NotMistakable engine options raw now := by
  cases raw with
  | none => exact ⟨fun _ => nofun, fun _ => mint_miss fun _ => readText_miss (.inl rfl)⟩
  | some text =>
    by_cases hne : text = []
    · subst hne
      refine ⟨fun _ => ?_, fun _ => mint_miss fun _ => readText_miss (.inr (.inl rfl))⟩
      rintro _ ⟨⟩ hempty
      exact absurd rfl hempty
    · cases hparse : Json.parse text with
      | none =>
        refine ⟨fun _ => ?_, fun _ => mint_miss fun _ => readText_miss (.inr (.inr hparse))⟩
        rintro _ ⟨⟩ - v hv
        rw [hparse] at hv
        cases hv
      | some v =>
        rw [settlesWell_parsed hne hparse]
        unfold NotMistakable
        constructor
        · rintro h _ ⟨⟩ - v' hv'
          rw [hparse] at hv'
          cases hv'
          exact h
        · intro h
          exact h text rfl hne v hparse

/-- An empty object is returned as a token that is `undefined`. -/
theorem mint_returns_undefined :
    readText plainEngine { } (js "mcp:salesforce") (some (js "\x7b\x7d")) 1700000000000 =
        .ok (some ⟨.undefined, js "mcp:salesforce", .undefined, .undefined, .undefined⟩) ∧
      ¬ ∀ (engine : Engine) (options : TokenExchangeOptions) (raw : Option JsString) (now : ℤ),
        SettlesWell engine options raw now := by
  have hparse : Json.parse (js "\x7b\x7d") = some (.object []) := rfl
  refine ⟨?_, fun hclaim => ?_⟩
  · rw [readText_parsed (by decide) hparse]
    rfl
  · obtain ⟨-, hstale | ⟨entry, ⟨props, hprops, ht, -⟩, -⟩⟩ :=
      (settlesWell_parsed (by decide) hparse).mp
        (hclaim plainEngine { } (some (js "\x7b\x7d")) 1700000000000)
    · obtain ⟨n, hn, hle⟩ := hstale
      cases hn
      cases hle
    · cases hprops
      cases ht

end McpGateway.Auth
