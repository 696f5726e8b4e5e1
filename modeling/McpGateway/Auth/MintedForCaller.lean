import McpGateway.Auth.MintedTokens
import McpGateway.Js.NumberText

/-!
# Nobody has another person's token

Whatever the calls, their order, the provider and the cache do: a token that is
returned names the caller it is returned to, and one exchange at a time is in
flight for a key.
-/

namespace McpGateway.Auth

open Js Shared Transition Outcome

/-- The token was found to name the caller, and is labelled with the caller and the
audience that were asked for. -/
def NamesCaller (decodeJwt : JsString → Except Thrown DecodedClaims) (input : MintInput)
    (token : MirroredToken) : Prop :=
  token.subject = input.subject ∧ token.audience = input.audience ∧
    ∃ claims, decodeJwt token.accessToken = .ok claims ∧ claims.sub = some input.subject

section
variable {decodeJwt : JsString → Except Thrown DecodedClaims} {input : MintInput}
  {token : MirroredToken}

theorem mirrored_namesCaller {answer : ProviderAnswer} {now : ℤ}
    (h : mirrored decodeJwt input answer now = .ok token) : NamesCaller decodeJwt input token := by
  unfold mirrored at h
  split at h
  · cases h
  · cases h
  · obtain ⟨claims, hclaims, h⟩ := bind_eq_ok.mp h
    split at h
    · cases h
    · next hsub =>
      cases h
      exact ⟨rfl, rfl, claims, hclaims, not_not.mp hsub⟩

def callerTerms (numberText : ℚ → JsString) (hnum : NumberText numberText)
    (options : TokenExchangeOptions) (decodeJwt : JsString → Except Thrown DecodedClaims) : Terms where
  numberText := numberText
  options := options
  decodeJwt := decodeJwt
  asks := fun input => IsTarget input.audience
  good := NamesCaller decodeJwt
  may := fun _ => True
  isNumberText := hnum
  target := fun _ h => h
  labelled := fun _ _ h => h.2.1

theorem obtained_namesCaller {numberText : ℚ → JsString} {hnum : NumberText numberText}
    {options : TokenExchangeOptions} (htarget : IsTarget input.audience)
    (h : (callerTerms numberText hnum options decodeJwt).Obtained input token) :
    NamesCaller decodeJwt input token := by
  obtain hgood | ⟨-, ⟨input', minted, htarget', hkey, hnames, htoken, hsubject, -⟩, haudience⟩ := h
  · exact hgood
  · obtain ⟨hsame, -, -⟩ := keyOf_inj hkey htarget' htarget
    obtain ⟨hminted, -, claims, hclaims, hsub⟩ := hnames
    refine ⟨hsubject.trans (hminted.trans hsame), haudience, claims, ?_, hsub.trans ?_⟩
    · exact htoken ▸ hclaims
    · exact congrArg some hsame

end

/-- In every run of calls for the configured targets, a token that a call returns names its
caller, and two calls that perform an exchange have different keys. -/
theorem minted_for_caller (numberText : ℚ → JsString) (hnum : NumberText numberText)
    (options : TokenExchangeOptions) (decodeJwt : JsString → Except Thrown DecodedClaims)
    (events : List MintEvent) (s : TokenExchange)
    (htargets : ∀ c input, .mint c input ∈ events → IsTarget input.audience)
    (hrun : run (TokenExchange.step numberText options decodeJwt) .created events = some s) :
    (∀ c call token, s.calls c = some call → call.phase = .settled (.ok token) →
      NamesCaller decodeJwt call.input token) ∧
    ∀ c c' call call', s.calls c = some call → s.calls c' = some call' →
      call.phase.Leads → call'.phase.Leads →
      options.keyOf call.input = options.keyOf call'.input → c = c' := by
  have hok : (callerTerms numberText hnum options decodeJwt).Ok s := by
    refine run_invariant_of _ (fun _ event => ∀ c input, event = .mint c input →
      IsTarget input.audience) ?_ ok_created ?_ hrun
    · intro s event s' hs htarget hstep
      refine ok_step hs event ⟨htarget, ?_, fun _ _ => trivial⟩ hstep
      exact fun _ _ _ _ _ _ _ hminted => mirrored_namesCaller hminted
    · rintro pre _ post m heq - c input rfl
      exact htargets c input (by simp [heq])
  constructor
  · intro c call token hcall hphase
    have hfits := hok.fits c call hcall
    unfold Terms.Fits at hfits
    rw [hphase] at hfits
    exact obtained_namesCaller (hok.asks c call hcall) (hfits token rfl)
  · intro c c' call call' hcall hcall' hleads hleads' hkey
    have hflight : s.inFlight.get (options.keyOf call.input) = some c :=
      hok.known c call hcall hleads
    have hflight' : s.inFlight.get (options.keyOf call'.input) = some c' :=
      hok.known c' call' hcall' hleads'
    rw [hkey, hflight'] at hflight
    exact (Option.some.inj hflight).symm

-- ---------------------------------------------------------------------------
-- Four calls
-- ---------------------------------------------------------------------------

def asking (subject : String) : MintInput where
  subject := js subject
  subjectToken := js "caller-token"
  audience := js "mcp:salesforce"
  scopes := [js "salesforce:read"]

def decodeTwo (token : JsString) : Except Thrown DecodedClaims :=
  if token = js "ta" then .ok ⟨some (js "usr_alice"), some (.finite 2000)⟩
  else if token = js "tb" then .ok ⟨some (js "usr_bob"), some (.finite 2000)⟩
  else .error (.other (some (js "Invalid JWT")))

def grants (token : String) : ProviderAnswer :=
  .response ⟨js token, some (.finite 300), some (js "salesforce:read")⟩

/-- Alice's second call shares the exchange of her first, Bob has his own, and Alice's
third call finds her token cached. -/
def fourCalls : List MintEvent :=
  [.mint 0 (asking "usr_alice"), .mint 1 (asking "usr_alice"), .mint 2 (asking "usr_bob"),
    .reads 0 false, .reads 1 false, .reads 2 true, .resumes 0 1000000, .resumes 1 1000000,
    .resumes 2 1000000, .answers 2 (grants "tb") 1000000, .answers 0 (grants "ta") 1000000,
    .stores 1, .wrote 0, .finishes 0, .shares 1, .wrote 2, .mint 3 (asking "usr_alice"),
    .reads 3 false, .resumes 3 1001000]

def aliceCached : MirroredToken :=
  ⟨js "ta", js "mcp:salesforce", [js "salesforce:read"], .finite 2000, js "usr_alice", true⟩

theorem minted_for_caller_four :
    ∃ s, run (TokenExchange.step fractionText {} decodeTwo) .created fourCalls = some s ∧
      s.HasToken 3 (asking "usr_alice") aliceCached ∧
      NamesCaller decodeTwo (asking "usr_alice") aliceCached := by
  have hend : (run (TokenExchange.step fractionText {} decodeTwo) .created fourCalls).any
      (fun s => decide (s.HasToken 3 (asking "usr_alice") aliceCached)) = true := by
    decide +kernel
  obtain ⟨s, hrun, hs⟩ := (Option.any_eq_true _ _).mp hend
  have htoken := of_decide_eq_true hs
  obtain ⟨call, hcall, hinput, hphase⟩ := of_hasToken htoken
  refine ⟨s, hrun, htoken, hinput ▸ ?_⟩
  refine (minted_for_caller fractionText numberText_fractionText {} decodeTwo fourCalls s ?_ hrun).1 3
    call aliceCached hcall hphase
  intro c input hmem
  simp only [fourCalls, List.mem_cons, List.not_mem_nil, MintEvent.mint.injEq, or_false, reduceCtorEq,
    false_or] at hmem
  refine ⟨.salesforce, ?_⟩
  rcases hmem with ⟨-, rfl⟩ | ⟨-, rfl⟩ | ⟨-, rfl⟩ | ⟨-, rfl⟩ <;> rfl

end McpGateway.Auth
