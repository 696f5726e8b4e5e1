import McpGateway.Js.Map
import McpGateway.Js.Sha256
import McpGateway.Lib.Transition
import McpGateway.Lib.Words
import McpGateway.Shared.Errors

/-!
# Permission mirroring

`TokenExchangeService`: tokens for one downstream service, minted for the person
who makes the request and cached under subject, audience and scopes. Any number
of calls of `mint` run at once; a step is what one of them does between two
awaits, or what the cache does. `decodeJwt` and the text of a number are
parameters, and the provider answers what it likes.
-/

namespace McpGateway.Auth

open Js Shared Words

inductive McpTarget
  | salesforce
  | postgres
  | policyEngine
  deriving DecidableEq, Repr

def McpTarget.audience : McpTarget → JsString
  | .salesforce => js "mcp:salesforce"
  | .postgres => js "mcp:postgres"
  | .policyEngine => js "mcp:policy-engine"

def McpTarget.namespace : McpTarget → JsString
  | .salesforce => js "salesforce"
  | .postgres => js "postgres"
  | .policyEngine => js "policy"

structure TokenExchangeOptions where
  issuer : Option JsString := none
  /-- Upper bound on how long an exchanged token may be reused. -/
  maxTtlSeconds : ℚ := 300
  /-- Refresh this many seconds before expiry. -/
  earlyRefreshSeconds : ℚ := 10
  keyPrefix : JsString := js "tex"

/-- What `mint` is asked for, with the subject of the principal. -/
structure MintInput where
  subject : JsString
  subjectToken : JsString
  audience : JsString
  scopes : List JsString
  deriving DecidableEq, Repr

structure MirroredToken where
  accessToken : JsString
  audience : JsString
  scopes : List JsString
  expiresAt : JsNumber
  subject : JsString
  cached : Bool
  deriving DecidableEq

/-- The claims the service reads of a token. -/
structure DecodedClaims where
  sub : Option JsString
  exp : Option JsNumber

-- ---------------------------------------------------------------------------
-- The cache key
-- ---------------------------------------------------------------------------

def normalised (scopes : List JsString) : List JsString :=
  (scopes.filter fun s => decide (s.length > 0)).eraseDups.insertionSort (· ≤ ·)

def scopeDigest (scopes : List JsString) : JsString :=
  (sha256Hex (List.intercalate [blank] (normalised scopes))).take 16

def TokenExchangeOptions.issuerTag (options : TokenExchangeOptions) : JsString :=
  match options.issuer with
  | none | some [] => []
  | some issuer => js ":" ++ (sha256Hex issuer).take 8

def TokenExchangeOptions.cacheKey (options : TokenExchangeOptions) (subject audience : JsString)
    (scopes : List JsString) : JsString :=
  options.keyPrefix ++ options.issuerTag ++ js ":" ++ subject ++ js ":" ++ audience ++ js ":" ++
    scopeDigest scopes

def TokenExchangeOptions.keyOf (options : TokenExchangeOptions) (input : MintInput) : JsString :=
  options.cacheKey input.subject input.audience input.scopes

-- ---------------------------------------------------------------------------
-- Cache entries
-- ---------------------------------------------------------------------------

structure CacheEntry where
  t : JsString
  a : JsString
  s : List JsString
  e : JsNumber

def stringOf : Json → Option JsString
  | .string s => some s
  | _ => none

/-- `null` counts as zero in arithmetic. -/
def numberOf : Json → Option JsNumber
  | .number n => some n
  | .null => some (.finite 0)
  | _ => none

/-- An entry of the shape this service writes; what the code makes of an other one is
not modelled. -/
def CacheEntry.ofJson : Json → Option CacheEntry
  | .object props => do
    let t ← (props.lookup (js "t")).bind stringOf
    let a ← (props.lookup (js "a")).bind stringOf
    let s ← match props.lookup (js "s") with
      | some (.array items) => items.mapM stringOf
      | _ => none
    let e ← (props.lookup (js "e")).bind numberOf
    return ⟨t, a, s, e⟩
  | _ => none

def CacheEntry.toJson (entry : CacheEntry) : Json :=
  .object [(js "t", .string entry.t), (js "a", .string entry.a),
    (js "s", .array (entry.s.map .string)), (js "e", .number entry.e)]

/-- The entry `writeCache` keeps of a token. -/
def MirroredToken.entry (token : MirroredToken) : CacheEntry :=
  ⟨token.accessToken, token.subject, token.scopes, token.expiresAt⟩

/-- What `readCache` ends in: a token, nothing, or an entry it deletes first. -/
inductive CacheRead
  | hit (token : MirroredToken)
  | miss
  | corrupt

/-- `Math.floor(Date.now() / 1000)`. -/
def seconds (now : ℤ) : JsNumber := .finite (now / 1000 : ℤ)

/-- What `readCache` makes of an entry, or of none. -/
def readCache (options : TokenExchangeOptions) (audience : JsString) (raw : Option JsString)
    (now : ℤ) : CacheRead :=
  match raw with
  | none | some [] => .miss
  | some text =>
    match Json.parse text with
    | none => .corrupt
    | some v =>
      match CacheEntry.ofJson v with
      | none => .miss
      | some entry =>
        if (entry.e.sub (.finite options.earlyRefreshSeconds)).le (seconds now) then .miss
        else .hit
          { accessToken := entry.t
            audience
            scopes := entry.s
            expiresAt := entry.e
            subject := entry.a
            cached := true }

/-- `cache.set(key, value, 'EX', ttl)`. -/
structure SetCommand where
  key : JsString
  value : JsString
  ttl : JsNumber
  deriving DecidableEq

/-- The command `writeCache` sends, if it sends one. -/
def writeCache (numberText : ℚ → JsString) (options : TokenExchangeOptions) (key : JsString)
    (token : MirroredToken) (now : ℤ) : Option SetCommand :=
  let remaining := (token.expiresAt.sub (seconds now)).sub (.finite options.earlyRefreshSeconds)
  let ttl := JsNumber.min (.finite options.maxTtlSeconds) remaining
  if ttl.le (.finite 0) then none
  else some ⟨key, Json.stringify numberText token.entry.toJson, ttl⟩

-- ---------------------------------------------------------------------------
-- The exchange
-- ---------------------------------------------------------------------------

structure ProviderResponse where
  accessToken : JsString
  expiresIn : Option JsNumber
  scope : Option JsString
  deriving DecidableEq

/-- How `exchangeToken` ends: it rejects, it returns something that throws when its fields
are read, or it returns a token response. -/
inductive ProviderAnswer
  | failed (e : Thrown)
  | unreadable (e : Thrown)
  | response (r : ProviderResponse)

def ProviderAnswer.response? : ProviderAnswer → Option ProviderResponse
  | .response r => some r
  | _ => none

/-- `isGatewayError(error) ? error.message : 'token exchange failed'`. -/
def exchangeDetail : Thrown → JsString
  | .gateway e => e.message
  | .other _ => js "token exchange failed"

def exchangeFailed (input : MintInput) (e : Thrown) : GatewayError :=
  permissionMirrorError
    (js "Could not mint a downstream token for '" ++ input.audience ++ js "' on behalf of " ++
      input.subject ++
      js ". The request was refused rather than falling back to a shared credential.")
    [(js "audience", .string input.audience), (js "subject", .string input.subject),
      (js "detail", .string (exchangeDetail e))]

def subjectMismatch (input : MintInput) (claims : DecodedClaims) : GatewayError :=
  permissionMirrorError (js "Exchanged token names a different subject than the caller")
    [(js "expected", .string input.subject),
      (js "received", .string (claims.sub.getD (js "none"))),
      (js "audience", .string input.audience)]

def grantedScopes (input : MintInput) (r : ProviderResponse) : List JsString :=
  match r.scope with
  | none | some [] => input.scopes
  | some scope => words (· == blank) scope

/-- What `performExchange` makes of the provider's answer, up to the cache write. -/
def mirrored (decodeJwt : JsString → Except Thrown DecodedClaims) (input : MintInput)
    (answer : ProviderAnswer) (now : ℤ) : Except Thrown MirroredToken :=
  match answer with
  | .failed e => throw (.gateway (exchangeFailed input e))
  | .unreadable e => throw e
  | .response r => do
    let claims ← decodeJwt r.accessToken
    if claims.sub ≠ some input.subject then throw (.gateway (subjectMismatch input claims))
    return {
      accessToken := r.accessToken
      audience := input.audience
      scopes := grantedScopes input r
      expiresAt := claims.exp.getD ((seconds now).add (r.expiresIn.getD (.finite 60)))
      subject := input.subject
      cached := false }

-- ---------------------------------------------------------------------------
-- Calls of mint
-- ---------------------------------------------------------------------------

/-- Where a call of `mint` is. -/
inductive MintPhase
  /-- `cache.get` has not answered. -/
  | reading
  /-- It has; `none` when it has no entry or rejects. -/
  | received (raw : Option JsString)
  /-- The entry was not JSON, and `cache.del` has not answered. -/
  | dropping
  /-- It awaits the exchange of another call. -/
  | sharing (leader : Nat)
  | exchanging
  /-- The token is minted, and `cache.set` has not answered. -/
  | writing (token : MirroredToken)
  /-- `performExchange` has settled, and `finally` has not run. -/
  | settling (result : Except Thrown MirroredToken)
  | settled (result : Except Thrown MirroredToken)

/-- The call performs an exchange. -/
def MintPhase.Leads : MintPhase → Prop
  | .exchanging | .writing _ | .settling _ => True
  | _ => False

structure MintCall where
  input : MintInput
  phase : MintPhase

structure TokenExchange where
  calls : Nat → Option MintCall
  /-- The call that performs the exchange for a key. -/
  inFlight : JsMap JsString Nat
  /-- The commands sent to the cache so far, whether it has carried them out or not. -/
  sets : List SetCommand
  cache : JsMap JsString JsString

inductive MintEvent
  | mint (c : Nat) (input : MintInput)
  /-- The cache answers `get`, or the answer is lost. -/
  | reads (c : Nat) (failed : Bool)
  | resumes (c : Nat) (now : ℤ)
  | dropped (c : Nat)
  | answers (c : Nat) (answer : ProviderAnswer) (now : ℤ)
  | wrote (c : Nat)
  | finishes (c : Nat)
  | shares (c : Nat)
  /-- The cache carries out a command. -/
  | stores (n : Nat)
  /-- An entry expires, is evicted or is deleted. -/
  | expires (key : JsString)

namespace TokenExchange

def created : TokenExchange where
  calls := fun _ => none
  inFlight := .empty
  sets := []
  cache := .empty

def setCall (s : TokenExchange) (c : Nat) (call : MintCall) : TokenExchange :=
  { s with calls := Function.update s.calls c (some call) }

def toPhase (s : TokenExchange) (c : Nat) (call : MintCall) (phase : MintPhase) : TokenExchange :=
  s.setCall c { call with phase }

section
variable (numberText : ℚ → JsString) (options : TokenExchangeOptions)
  (decodeJwt : JsString → Except Thrown DecodedClaims)

/-- After a miss: share the exchange in flight for the key, or start one. -/
def missed (s : TokenExchange) (c : Nat) (call : MintCall) : TokenExchange :=
  match s.inFlight.get (options.keyOf call.input) with
  | some leader => s.toPhase c call (.sharing leader)
  | none =>
    { s.toPhase c call .exchanging with
      inFlight := s.inFlight.set (options.keyOf call.input) c }

/-- The provider has answered: the result, and the cache write if there is one. -/
def answered (s : TokenExchange) (c : Nat) (call : MintCall) (answer : ProviderAnswer) (now : ℤ) :
    TokenExchange :=
  match mirrored decodeJwt call.input answer now with
  | .error e => s.toPhase c call (.settling (.error e))
  | .ok token =>
    match writeCache numberText options (options.keyOf call.input) token now with
    | none => s.toPhase c call (.settling (.ok token))
    | some command =>
      { s.toPhase c call (.writing token) with sets := s.sets ++ [command] }

/-- `await this.cache.get(key)`, with a rejection caught. -/
def cacheGet (s : TokenExchange) (key : JsString) (failed : Bool) : Option JsString :=
  if failed then none else s.cache.get key

def goOn (s : TokenExchange) (c : Nat) (next : MintCall → Option TokenExchange) :
    Option TokenExchange :=
  (s.calls c).bind next

def step (s : TokenExchange) : MintEvent → Option TokenExchange
  | .mint c input => if (s.calls c).isSome then none else some (s.setCall c ⟨input, .reading⟩)
  | .reads c failed => s.goOn c fun call =>
    match call.phase with
    | .reading =>
      some (s.toPhase c call (.received (s.cacheGet (options.keyOf call.input) failed)))
    | _ => none
  | .resumes c now => s.goOn c fun call =>
    match call.phase with
    | .received raw =>
      match readCache options call.input.audience raw now with
      | .hit token => some (s.toPhase c call (.settled (.ok token)))
      | .miss => some (s.missed options c call)
      | .corrupt => some (s.toPhase c call .dropping)
    | _ => none
  | .dropped c => s.goOn c fun call =>
    match call.phase with
    | .dropping => some (s.missed options c call)
    | _ => none
  | .answers c answer now => s.goOn c fun call =>
    match call.phase with
    | .exchanging => some (s.answered numberText options decodeJwt c call answer now)
    | _ => none
  | .wrote c => s.goOn c fun call =>
    match call.phase with
    | .writing token => some (s.toPhase c call (.settling (.ok token)))
    | _ => none
  | .finishes c => s.goOn c fun call =>
    match call.phase with
    | .settling result =>
      some { s.toPhase c call (.settled result) with
        inFlight := s.inFlight.delete (options.keyOf call.input) }
    | _ => none
  | .shares c => s.goOn c fun call =>
    match call.phase with
    | .sharing l => s.goOn l fun leader =>
      match leader.phase with
      | .settled result => some (s.toPhase c call (.settled result))
      | _ => none
    | _ => none
  | .stores n => (s.sets[n]?).map fun command =>
    { s with cache := s.cache.set command.key command.value }
  | .expires key => some { s with cache := s.cache.delete key }

end

end TokenExchange

end McpGateway.Auth
