import McpGateway.Auth.ExchangeCache

/-!
# Where a minted token comes from

A call of `mint` has the token of its own exchange, or one that was minted for a
call with the same key: through the cache or by sharing an exchange. One call at
a time performs the exchange of a key.
-/

namespace McpGateway.Auth

open Js Shared Transition

/-- One of the configured targets has the audience. -/
def IsTarget (audience : JsString) : Prop := ∃ target : McpTarget, audience = target.audience

theorem keyOf_inj {options : TokenExchangeOptions} {input input' : MintInput}
    (h : options.keyOf input = options.keyOf input') (ht : IsTarget input.audience)
    (ht' : IsTarget input'.audience) :
    input.subject = input'.subject ∧ input.audience = input'.audience ∧
      scopeDigest input.scopes = scopeDigest input'.scopes := by
  obtain ⟨t, ht⟩ := ht
  obtain ⟨t', ht'⟩ := ht'
  unfold TokenExchangeOptions.keyOf at h
  rw [ht, ht'] at h
  obtain ⟨hsubject, rfl, hdigest⟩ := cacheKey_inj h
  exact ⟨hsubject, ht.trans ht'.symm, hdigest⟩

/-- What a run may rest on: `asks` holds of what calls ask for, `good` of the tokens that
exchanges mint, `may` of the calls that get a token without an exchange of their own. -/
structure Terms where
  numberText : ℚ → JsString
  options : TokenExchangeOptions
  decodeJwt : JsString → Except Thrown DecodedClaims
  asks : MintInput → Prop
  good : MintInput → MirroredToken → Prop
  may : MintInput → Prop
  isNumberText : NumberText numberText
  target : ∀ input, asks input → IsTarget input.audience
  labelled : ∀ input token, good input token → token.audience = input.audience

namespace Terms

variable (T : Terms)

def UnderKey (key : JsString) (token : MirroredToken) : Prop :=
  ∃ input minted, T.asks input ∧ T.options.keyOf input = key ∧ T.good input minted ∧
    token.accessToken = minted.accessToken ∧ token.subject = minted.subject ∧
    token.scopes = minted.scopes

def Written (key value : JsString) : Prop :=
  ∃ input minted, T.asks input ∧ T.options.keyOf input = key ∧ T.good input minted ∧
    value = Json.stringify T.numberText minted.entry.toJson

def Obtained (input : MintInput) (token : MirroredToken) : Prop :=
  T.good input token ∨
    T.may input ∧ T.UnderKey (T.options.keyOf input) token ∧ token.audience = input.audience

def Fits (s : TokenExchange) (call : MintCall) : Prop :=
  match call.phase with
  | .reading | .dropping | .exchanging => True
  | .received raw => ∀ value ∈ raw, T.Written (T.options.keyOf call.input) value
  | .sharing l => T.may call.input ∧ ∃ leader, s.calls l = some leader ∧
      T.options.keyOf leader.input = T.options.keyOf call.input ∧
      (leader.phase.Leads ∨ ∃ result, leader.phase = .settled result)
  | .writing token => T.good call.input token
  | .settling result => ∀ token, result = .ok token → T.good call.input token
  | .settled result => ∀ token, result = .ok token → T.Obtained call.input token

structure Ok (s : TokenExchange) : Prop where
  asks : ∀ c call, s.calls c = some call → T.asks call.input
  cache : ∀ e ∈ s.cache.entries, T.Written e.1 e.2
  sets : ∀ command ∈ s.sets, T.Written command.key command.value
  fits : ∀ c call, s.calls c = some call → T.Fits s call
  /-- A call that performs an exchange is the one in flight for its key. -/
  known : ∀ c call, s.calls c = some call → call.phase.Leads →
    s.inFlight.get (T.options.keyOf call.input) = some c
  leads : ∀ key c, s.inFlight.get key = some c →
    ∃ call, s.calls c = some call ∧ T.options.keyOf call.input = key ∧ call.phase.Leads

end Terms

section
variable {T : Terms} {s s' : TokenExchange} {c c' : Nat} {call : MintCall} {phase : MintPhase}

theorem ok_created : T.Ok .created where
  asks := nofun
  cache := nofun
  sets := nofun
  fits := nofun
  known := nofun
  leads := nofun

-- ---------------------------------------------------------------------------
-- One change at a time
-- ---------------------------------------------------------------------------

theorem calls_setCall (s : TokenExchange) (c : Nat) (call : MintCall) (c' : Nat) :
    (s.setCall c call).calls c' = if c' = c then some call else s.calls c' :=
  Function.update_apply ..

/-- What is known of a call stays known when a call that has not settled goes on. -/
theorem fits_toPhase (hcall : s.calls c = some call) (hopen : ∀ result, call.phase ≠ .settled result)
    (hnext : call.phase.Leads → phase.Leads ∨ ∃ result, phase = .settled result)
    {other : MintCall} (h : T.Fits s other) : T.Fits (s.toPhase c call phase) other := by
  obtain ⟨input, otherPhase⟩ := other
  cases otherPhase with
  | sharing l =>
    obtain ⟨hmay, leader, hleader, hkey, hphase⟩ := h
    refine ⟨hmay, ?_⟩
    by_cases hl : l = c
    · subst hl
      cases hcall.symm.trans hleader
      refine ⟨{ call with phase }, ?_, hkey, ?_⟩
      · exact (calls_setCall ..).trans (if_pos rfl)
      · obtain hleads | ⟨result, hresult⟩ := hphase
        · exact hnext hleads
        · exact absurd hresult (hopen result)
    · exact ⟨leader, (calls_setCall ..).trans ((if_neg hl).trans hleader), hkey, hphase⟩
  | _ => exact h

theorem Terms.Ok.fits_calls (hs : T.Ok s) (hcall : s.calls c = some call)
    (hopen : ∀ result, call.phase ≠ .settled result)
    (hnext : call.phase.Leads → phase.Leads ∨ ∃ result, phase = .settled result)
    (hfits : T.Fits s { call with phase }) :
    ∀ c' call', (s.toPhase c call phase).calls c' = some call' →
      T.asks call'.input ∧ T.Fits (s.toPhase c call phase) call' := by
  intro c' call' hcall'
  have heq := hcall'
  rw [TokenExchange.toPhase, calls_setCall] at heq
  split at heq
  · cases heq
    exact ⟨hs.asks c call hcall, fits_toPhase hcall hopen hnext hfits⟩
  · exact ⟨hs.asks c' call' heq, fits_toPhase hcall hopen hnext (hs.fits c' call' heq)⟩

theorem Terms.Ok.toPhase (hs : T.Ok s) (hcall : s.calls c = some call)
    (hopen : ∀ result, call.phase ≠ .settled result) (hleads : phase.Leads ↔ call.phase.Leads)
    (hfits : T.Fits s { call with phase }) : T.Ok (s.toPhase c call phase) := by
  have hcalls := hs.fits_calls hcall hopen (fun h => .inl (hleads.mpr h)) hfits
  constructor
  · exact fun c' call' h => (hcalls c' call' h).1
  · exact hs.cache
  · exact hs.sets
  · exact fun c' call' h => (hcalls c' call' h).2
  · intro c' call' h hphase
    rw [TokenExchange.toPhase, calls_setCall] at h
    split at h
    · next heq =>
      cases h
      rw [heq]
      exact hs.known c call hcall (hleads.mp hphase)
    · exact hs.known c' call' h hphase
  · intro key c' h
    obtain ⟨call', hcall', hkey, hphase⟩ := hs.leads key c' h
    by_cases hc : c' = c
    · subst hc
      cases hcall.symm.trans hcall'
      exact ⟨_, (calls_setCall ..).trans (if_pos rfl), hkey, hleads.mpr hphase⟩
    · exact ⟨call', (calls_setCall ..).trans ((if_neg hc).trans hcall'), hkey, hphase⟩

theorem Terms.Ok.start (hs : T.Ok s) (hcall : s.calls c = some call)
    (hopen : ∀ result, call.phase ≠ .settled result) (hleads : ¬ call.phase.Leads)
    (hfree : s.inFlight.get (T.options.keyOf call.input) = none) :
    T.Ok { s.toPhase c call .exchanging with
      inFlight := s.inFlight.set (T.options.keyOf call.input) c } := by
  have hcalls : ∀ c' call', (s.toPhase c call .exchanging).calls c' = some call' → _ :=
    hs.fits_calls hcall hopen (fun h => absurd h hleads) trivial
  constructor
  · exact fun c' call' h => (hcalls c' call' h).1
  · exact hs.cache
  · exact hs.sets
  · exact fun c' call' h => (hcalls c' call' h).2
  · intro c' call' h hphase
    change (s.setCall c _).calls c' = _ at h
    rw [calls_setCall] at h
    split at h
    · next heq =>
      cases h
      rw [heq]
      exact JsMap.get_set_self ..
    · have hknown := hs.known c' call' h hphase
      refine (JsMap.get_set_of_ne _ _ fun heq => ?_).trans hknown
      rw [heq, hfree] at hknown
      cases hknown
  · intro key c' h
    change (s.inFlight.set _ c).get key = _ at h
    rw [JsMap.get_set] at h
    split at h
    · next heq =>
      cases h
      exact ⟨_, (calls_setCall ..).trans (if_pos rfl), heq.symm, trivial⟩
    · obtain ⟨call', hcall', hkey, hphase⟩ := hs.leads key c' h
      have hc : c' ≠ c := by
        rintro rfl
        cases hcall.symm.trans hcall'
        exact hleads hphase
      exact ⟨call', (calls_setCall ..).trans ((if_neg hc).trans hcall'), hkey, hphase⟩

theorem Terms.Ok.finish (hs : T.Ok s) (hcall : s.calls c = some call)
    {result : Except Thrown MirroredToken} (hphase : call.phase = .settling result) :
    T.Ok { s.toPhase c call (.settled result) with
      inFlight := s.inFlight.delete (T.options.keyOf call.input) } := by
  have hleads : call.phase.Leads := by
    rw [hphase]
    trivial
  have hknown := hs.known c call hcall hleads
  have hfits : T.Fits s { call with phase := .settled result } := by
    have hgood := hs.fits c call hcall
    unfold Terms.Fits at hgood
    rw [hphase] at hgood
    exact fun token htoken => .inl (hgood token htoken)
  have hopen : ∀ other, call.phase ≠ .settled other := by
    rw [hphase]
    nofun
  have hcalls := hs.fits_calls hcall hopen (fun _ => .inr ⟨result, rfl⟩) hfits
  constructor
  · exact fun c' call' h => (hcalls c' call' h).1
  · exact hs.cache
  · exact hs.sets
  · exact fun c' call' h => (hcalls c' call' h).2
  · intro c' call' h hphase'
    change (s.setCall c _).calls c' = _ at h
    rw [calls_setCall] at h
    split at h
    · cases h
      exact hphase'.elim
    · next hc =>
      have hknown' := hs.known c' call' h hphase'
      refine (JsMap.get_delete ..).trans ((if_neg fun heq => hc ?_).trans hknown')
      rw [heq, hknown] at hknown'
      exact (Option.some.inj hknown').symm
  · intro key c' h
    change (s.inFlight.delete _).get key = _ at h
    rw [JsMap.get_delete] at h
    split at h
    · cases h
    · next hkey =>
      obtain ⟨call', hcall', hkey', hphase'⟩ := hs.leads key c' h
      have hc : c' ≠ c := by
        rintro rfl
        cases hcall.symm.trans hcall'
        exact hkey hkey'.symm
      exact ⟨call', (calls_setCall ..).trans ((if_neg hc).trans hcall'), hkey', hphase'⟩

-- ---------------------------------------------------------------------------
-- Steps
-- ---------------------------------------------------------------------------

theorem Terms.Ok.mint (hs : T.Ok s) (hfree : s.calls c = none) (input : MintInput)
    (hasks : T.asks input) : T.Ok (s.setCall c ⟨input, .reading⟩) := by
  have hkeep : ∀ {c' call'}, s.calls c' = some call' →
      (s.setCall c ⟨input, .reading⟩).calls c' = some call' := by
    intro c' call' h
    have hne : c' ≠ c := by
      rintro rfl
      rw [hfree] at h
      cases h
    exact (calls_setCall ..).trans ((if_neg hne).trans h)
  constructor
  · intro c' call' h
    rw [calls_setCall] at h
    split at h
    · cases h
      exact hasks
    · exact hs.asks c' call' h
  · exact hs.cache
  · exact hs.sets
  · intro c' call' h
    rw [calls_setCall] at h
    split at h
    · cases h
      trivial
    · have hfits := hs.fits c' call' h
      obtain ⟨input', phase'⟩ := call'
      cases phase' with
      | sharing l =>
        obtain ⟨hmay, leader, hleader, hrest⟩ := hfits
        exact ⟨hmay, leader, hkeep hleader, hrest⟩
      | _ => exact hfits
  · intro c' call' h hphase
    rw [calls_setCall] at h
    split at h
    · cases h
      exact hphase.elim
    · exact hs.known c' call' h hphase
  · intro key c' h
    obtain ⟨call', hcall', hrest⟩ := hs.leads key c' h
    exact ⟨call', hkeep hcall', hrest⟩

theorem Terms.underKey_of_hit {key audience value : JsString} {now : ℤ} {token : MirroredToken}
    (hwritten : T.Written key value)
    (h : readCache T.options audience (some value) now = .hit token) :
    T.UnderKey key token ∧ token.audience = audience := by
  obtain ⟨input, minted, hasks, hkey, hgood, rfl⟩ := hwritten
  obtain ⟨htoken, hsubject, hscopes, haudience⟩ := readCache_entry T.isNumberText h
  exact ⟨⟨input, minted, hasks, hkey, hgood, htoken, hsubject, hscopes⟩, haudience⟩

theorem Terms.underKey_of_obtained {input : MintInput} {token : MirroredToken}
    (hasks : T.asks input) (h : T.Obtained input token) :
    T.UnderKey (T.options.keyOf input) token ∧ token.audience = input.audience := by
  obtain hgood | ⟨-, hunder, haudience⟩ := h
  · exact ⟨⟨input, token, hasks, rfl, hgood, rfl, rfl, rfl⟩, T.labelled input token hgood⟩
  · exact ⟨hunder, haudience⟩

/-- The call that the event gives a token it has not asked the provider for: an entry of
the cache, or the exchange of another call. -/
def TokenExchange.sharing (options : TokenExchangeOptions) (s : TokenExchange) :
    MintEvent → Option MintCall
  | .resumes c now => (s.calls c).filter fun call =>
    match call.phase with
    | .received raw =>
      match readCache options call.input.audience raw now with
      | .hit _ => true
      | .miss => (s.inFlight.get (options.keyOf call.input)).isSome
      | .corrupt => false
    | _ => false
  | .dropped c => (s.calls c).filter fun call =>
    match call.phase with
    | .dropping => (s.inFlight.get (options.keyOf call.input)).isSome
    | _ => false
  | _ => none

structure Terms.Allows (T : Terms) (s : TokenExchange) (event : MintEvent) : Prop where
  asks : ∀ c input, event = .mint c input → T.asks input
  good : ∀ c answer now call token, event = .answers c answer now → s.calls c = some call →
    mirrored T.decodeJwt call.input answer now = .ok token → T.good call.input token
  may : ∀ call ∈ s.sharing T.options event, T.may call.input

theorem Terms.Ok.missed (hs : T.Ok s) (hcall : s.calls c = some call)
    (hopen : ∀ result, call.phase ≠ .settled result) (hleads : ¬ call.phase.Leads)
    (hmay : (s.inFlight.get (T.options.keyOf call.input)).isSome → T.may call.input) :
    T.Ok (s.missed T.options c call) := by
  unfold TokenExchange.missed
  split
  · next l hl =>
    obtain ⟨leader, hleader, hkey, hphase⟩ := hs.leads _ l hl
    refine hs.toPhase hcall hopen ?_ ⟨hmay ?_, leader, hleader, hkey, .inl hphase⟩
    · exact ⟨False.elim, fun h => absurd h hleads⟩
    · rw [hl]
      rfl
  · next hfree => exact hs.start hcall hopen hleads hfree

theorem Terms.Ok.answered (hs : T.Ok s) (hcall : s.calls c = some call)
    (hphase : call.phase = .exchanging) (answer : ProviderAnswer) (now : ℤ)
    (hgood : ∀ token, mirrored T.decodeJwt call.input answer now = .ok token →
      T.good call.input token) :
    T.Ok (s.answered T.numberText T.options T.decodeJwt c call answer now) := by
  have hopen : ∀ result, call.phase ≠ .settled result := by
    rw [hphase]
    nofun
  have hleads : call.phase.Leads := by
    rw [hphase]
    trivial
  unfold TokenExchange.answered
  split
  · exact hs.toPhase hcall hopen ⟨fun _ => hleads, fun _ => trivial⟩ nofun
  · next token htoken =>
    split
    · refine hs.toPhase hcall hopen ⟨fun _ => hleads, fun _ => trivial⟩ fun token' h => ?_
      cases h
      exact hgood token htoken
    · next command hcommand =>
      have hnext : T.Ok (s.toPhase c call (.writing token)) :=
        hs.toPhase hcall hopen ⟨fun _ => hleads, fun _ => trivial⟩ (hgood token htoken)
      refine ⟨hnext.asks, hnext.cache, fun command' hmem => ?_, hnext.fits, hnext.known,
        hnext.leads⟩
      obtain hmem | hmem := List.mem_append.mp hmem
      · exact hs.sets command' hmem
      · obtain rfl := List.mem_singleton.mp hmem
        unfold writeCache at hcommand
        dsimp only at hcommand
        split at hcommand
        · cases hcommand
        · cases hcommand
          exact ⟨call.input, token, hs.asks c call hcall, rfl, hgood token htoken, rfl⟩

theorem goOn_some {next : MintCall → Option TokenExchange} :
    s.goOn c next = some s' ↔ ∃ call, s.calls c = some call ∧ next call = some s' :=
  Option.bind_eq_some_iff

theorem ok_step (hs : T.Ok s) (event : MintEvent) (hallowed : T.Allows s event)
    (h : s.step T.numberText T.options T.decodeJwt event = some s') : T.Ok s' := by
  cases event with
  | mint c input =>
    dsimp only [TokenExchange.step] at h
    split at h
    · cases h
    · next hfree =>
      cases h
      exact hs.mint (Option.not_isSome_iff_eq_none.mp hfree) input (hallowed.asks c input rfl)
  | reads c failed =>
    dsimp only [TokenExchange.step] at h
    obtain ⟨call, hcall, h⟩ := goOn_some.mp h
    split at h
    · next hphase =>
      cases h
      refine hs.toPhase hcall (by rw [hphase]; rintro _ ⟨⟩) (by rw [hphase]; rfl) fun value hvalue => ?_
      unfold TokenExchange.cacheGet at hvalue
      split at hvalue
      · cases hvalue
      · exact hs.cache _ (JsMap.mem_of_get hvalue)
    · cases h
  | resumes c now =>
    dsimp only [TokenExchange.step] at h
    obtain ⟨call, hcall, h⟩ := goOn_some.mp h
    split at h
    · next raw hphase =>
      have hopen : ∀ result, call.phase ≠ .settled result := by
        rw [hphase]
        rintro _ ⟨⟩
      have hleads : ¬ call.phase.Leads := by
        rw [hphase]
        exact id
      have hfits := hs.fits c call hcall
      unfold Terms.Fits at hfits
      rw [hphase] at hfits
      split at h
      · next token hread =>
        cases h
        refine hs.toPhase hcall hopen ⟨False.elim, fun h => absurd h hleads⟩ fun token' h => ?_
        cases h
        cases raw with
        | none => cases hread
        | some value =>
          have hmay := hallowed.may call (by simp [TokenExchange.sharing, hcall, hphase, hread])
          exact .inr ⟨hmay, T.underKey_of_hit (hfits value rfl) hread⟩
      · next hread =>
        cases h
        refine hs.missed hcall hopen hleads fun hflight => hallowed.may call ?_
        simp [TokenExchange.sharing, hcall, hphase, hread, hflight]
      · cases h
        exact hs.toPhase hcall hopen ⟨False.elim, fun h => absurd h hleads⟩ trivial
    · cases h
  | dropped c =>
    dsimp only [TokenExchange.step] at h
    obtain ⟨call, hcall, h⟩ := goOn_some.mp h
    split at h
    · next hphase =>
      cases h
      refine hs.missed hcall (by rw [hphase]; rintro _ ⟨⟩) (by rw [hphase]; exact id) fun hflight => ?_
      exact hallowed.may call (by simp [TokenExchange.sharing, hcall, hphase, hflight])
    · cases h
  | answers c answer now =>
    dsimp only [TokenExchange.step] at h
    obtain ⟨call, hcall, h⟩ := goOn_some.mp h
    split at h
    · next hphase =>
      cases h
      exact hs.answered hcall hphase answer now fun token htoken =>
        hallowed.good c answer now call token rfl hcall htoken
    · cases h
  | wrote c =>
    dsimp only [TokenExchange.step] at h
    obtain ⟨call, hcall, h⟩ := goOn_some.mp h
    split at h
    · next token hphase =>
      cases h
      have hfits := hs.fits c call hcall
      unfold Terms.Fits at hfits
      rw [hphase] at hfits
      refine hs.toPhase hcall (by rw [hphase]; rintro _ ⟨⟩) (by rw [hphase]; rfl) fun token' h => ?_
      cases h
      exact hfits
    · cases h
  | finishes c =>
    dsimp only [TokenExchange.step] at h
    obtain ⟨call, hcall, h⟩ := goOn_some.mp h
    split at h
    · next result hphase =>
      cases h
      exact hs.finish hcall hphase
    · cases h
  | shares c =>
    dsimp only [TokenExchange.step] at h
    obtain ⟨call, hcall, h⟩ := goOn_some.mp h
    split at h
    · next l hphase =>
      obtain ⟨leader, hleader, h⟩ := goOn_some.mp h
      split at h
      · next result hresult =>
        cases h
        have hfits := hs.fits c call hcall
        unfold Terms.Fits at hfits
        rw [hphase] at hfits
        obtain ⟨hmay, leader', hleader', hkey, -⟩ := hfits
        cases hleader.symm.trans hleader'
        have hobtained := hs.fits l leader hleader
        unfold Terms.Fits at hobtained
        rw [hresult] at hobtained
        refine hs.toPhase hcall (by rw [hphase]; rintro _ ⟨⟩) (by rw [hphase]; rfl) fun token htoken => ?_
        have hasks := hs.asks l leader hleader
        obtain ⟨hunder, haudience⟩ := T.underKey_of_obtained hasks (hobtained token htoken)
        have hsame := (keyOf_inj hkey (T.target _ hasks) (T.target _ (hs.asks c call hcall))).2.1
        exact .inr ⟨hmay, hkey ▸ hunder, haudience.trans hsame⟩
      · cases h
    · cases h
  | stores n =>
    obtain ⟨command, hcommand, rfl⟩ := Option.map_eq_some_iff.mp h
    refine ⟨hs.asks, fun e he => ?_, hs.sets, hs.fits, hs.known, hs.leads⟩
    obtain rfl | he := JsMap.mem_set he
    · exact hs.sets command (List.mem_of_getElem? hcommand)
    · exact hs.cache e he
  | expires key =>
    cases h
    exact ⟨hs.asks, fun e he => hs.cache e (JsMap.mem_delete he), hs.sets, hs.fits, hs.known,
      hs.leads⟩

end

-- ---------------------------------------------------------------------------
-- Results
-- ---------------------------------------------------------------------------

def MintPhase.token? : MintPhase → Option MirroredToken
  | .settled (.ok token) => some token
  | _ => none

theorem token?_eq_some {phase : MintPhase} {token : MirroredToken}
    (h : phase.token? = some token) : phase = .settled (.ok token) := by
  unfold MintPhase.token? at h
  split at h
  · cases h
    rfl
  · cases h

def TokenExchange.HasToken (s : TokenExchange) (c : Nat) (input : MintInput)
    (token : MirroredToken) : Prop :=
  (s.calls c).any fun call =>
    decide (call.input = input ∧ call.phase.token? = some token)

instance (s : TokenExchange) (c : Nat) (input : MintInput) (token : MirroredToken) :
    Decidable (s.HasToken c input token) := inferInstanceAs (Decidable (_ = true))

theorem of_hasToken {s : TokenExchange} {c : Nat} {input : MintInput} {token : MirroredToken}
    (h : s.HasToken c input token) :
    ∃ call, s.calls c = some call ∧ call.input = input ∧ call.phase = .settled (.ok token) := by
  obtain ⟨call, hcall, hboth⟩ := (Option.any_eq_true _ _).mp h
  obtain ⟨hinput, htoken⟩ := of_decide_eq_true hboth
  exact ⟨call, hcall, hinput, token?_eq_some htoken⟩

end McpGateway.Auth
