import McpGateway.Js.Json
import McpGateway.Js.Map
import McpGateway.Lib.Transition
import McpGateway.Shared.Errors

/-!
# The key set cache

Lookups of verification keys share one fetch of the provider's key set. A step is
one event of the event loop with the continuations it makes ready: the callers
that wait for a fetch go on when it returns, before the next event. The clock is
read at each event, and `importJWK` is a parameter.
-/

namespace McpGateway.Auth

open Js Shared

structure JwksCacheOptions where
  jwksUri : JsString
  /-- How long a successful fetch is considered fresh. -/
  ttlMs : ℤ := 300000
  /-- Minimum gap between refetches. -/
  cooldownMs : ℤ := 10000

/-- What `importJWK` makes of a key: a symmetric one comes out as bytes. -/
inductive ImportedKey (Key : Type)
  | keyLike (key : Key)
  | bytes

/-- How the request for the key set ends. -/
inductive Answer
  /-- No connection, or the time is up. -/
  | failed
  /-- The body is `none` when it is not JSON. -/
  | response (status : Nat) (body : Option Json)

section
variable {Key : Type} (importJwk : Json → Json → Option (ImportedKey Key))

-- ---------------------------------------------------------------------------
-- doFetch
-- ---------------------------------------------------------------------------

/-- `jwk.alg ?? 'RS256'`. -/
def algOf (props : List (JsString × Json)) : Json :=
  match props.lookup (js "alg") with
  | none | some .null => .string (js "RS256")
  | some alg => alg

/-- What the loop over the key set does with an item: it throws, goes on to the next
one, or keeps a key under its `kid`. -/
def keyOf : Json → Option (Option (JsString × Key))
  | .null => none
  | .object props =>
    match props.lookup (js "kid") with
    | some (.string kid) =>
      match importJwk (.object props) (algOf props) with
      | none => none
      | some .bytes => some none
      | some (.keyLike key) => some (some (kid, key))
    | _ => some none
  | _ => some none

/-- `none` when an item throws. -/
def importKeys (next : JsMap JsString Key) : List Json → Option (JsMap JsString Key)
  | [] => some next
  | jwk :: jwks =>
    match keyOf importJwk jwk with
    | none => none
    | some none => importKeys next jwks
    | some (some (kid, key)) => importKeys (next.set kid key) jwks

/-- The keys of an answer, or what the `try` block throws. -/
def readKeySet (jwksUri : JsString) : Answer → Except Thrown (JsMap JsString Key)
  | .failed => throw (.other none)
  | .response status body =>
    if ¬ (200 ≤ status ∧ status ≤ 299) then
      throw (.gateway (upstreamUnavailableError
        (js "jwks: " ++ decimal status ++ js " from " ++ jwksUri)))
    else match body with
      | none | some .null => throw (.other none)
      | some (.object props) =>
        match props.lookup (js "keys") with
        | some (.array jwks) =>
          match importKeys importJwk .empty jwks with
          | none => throw (.other none)
          | some next => return next
        | _ => throw (.gateway (upstreamUnavailableError (js "jwks: response has no key set")))
      | some _ => throw (.gateway (upstreamUnavailableError (js "jwks: response has no key set")))

/-- The error `doFetch` rejects with. -/
def fetchError : Thrown → GatewayError
  | .gateway e => if e.code = .upstreamUnavailable then e else upstreamUnavailableError (js "jwks")
  | .other _ => upstreamUnavailableError (js "jwks")

end

-- ---------------------------------------------------------------------------
-- The cache and its callers
-- ---------------------------------------------------------------------------

/-- A call of `getKey`. -/
inductive Lookup (Key : Type)
  /-- It waits for the fetch in flight. -/
  | waiting (kid : JsString)
  | settled (result : Except GatewayError Key)

structure JwksCache (Key : Type) where
  keys : JsMap JsString Key
  fetchedAt : ℤ
  lastAttemptAt : ℤ
  inFlight : Bool
  /-- Every call of `getKey` so far, in order. -/
  lookups : List (Lookup Key)

inductive Event
  | getKey (kid : Option JsString) (now : ℤ)
  | refresh (force : Bool) (now : ℤ)
  /-- The fetch in flight returns. -/
  | fetched (answer : Answer) (now : ℤ)

namespace JwksCache

variable {Key : Type}

def created : JwksCache Key where
  keys := .empty
  fetchedAt := 0
  lastAttemptAt := 0
  inFlight := false
  lookups := []

/-- `refresh` returns without a fetch. -/
def coolingDown (options : JwksCacheOptions) (s : JwksCache Key) (now : ℤ) : Bool :=
  decide (now - s.lastAttemptAt < options.cooldownMs) && decide (s.keys.size > 0)

def refresh (options : JwksCacheOptions) (s : JwksCache Key) (force : Bool) (now : ℤ) :
    JwksCache Key × Bool :=
  if !force && s.coolingDown options now then (s, false)
  else if s.inFlight then (s, true)
  else ({ s with lastAttemptAt := now, inFlight := true }, true)

/-- The end of `getKey`, once `refresh` has returned. -/
def keyFor (keys : JsMap JsString Key) (kid : JsString) : Except GatewayError Key :=
  match keys.get kid with
  | some key => return key
  | none =>
    throw (upstreamUnavailableError (js "jwks: no key matching kid '" ++ kid ++ js "'"))

/-- The key `getKey` answers with without a refresh. -/
def fresh (options : JwksCacheOptions) (s : JwksCache Key) (kid : JsString) (now : ℤ) : Option Key :=
  if now - s.fetchedAt ≥ options.ttlMs then none else s.keys.get kid

def addLookup (s : JwksCache Key) (l : Lookup Key) : JwksCache Key :=
  { s with lookups := s.lookups ++ [l] }

def getKey (options : JwksCacheOptions) (s : JwksCache Key) (kid : Option JsString) (now : ℤ) :
    JwksCache Key :=
  match kid with
  | none =>
    s.addLookup (.settled
      (throw (upstreamUnavailableError (js "jwks: token header carries no kid"))))
  | some kid =>
    match s.fresh options kid now with
    | some key => s.addLookup (.settled (return key))
    | none =>
      let (refreshed, waits) := s.refresh options false now
      refreshed.addLookup (if waits then .waiting kid else .settled (keyFor refreshed.keys kid))

/-- A caller that waits goes on, or is rejected as the fetch is. -/
def Lookup.settle (error : Option GatewayError) (keys : JsMap JsString Key) :
    Lookup Key → Lookup Key
  | .waiting kid =>
    .settled (match error with
      | some e => throw e
      | none => keyFor keys kid)
  | .settled result => .settled result

/-- `doFetch` returns: with new keys, with the previous ones, or by throwing. -/
def fetched (importJwk : Json → Json → Option (ImportedKey Key)) (options : JwksCacheOptions)
    (s : JwksCache Key) (answer : Answer) (now : ℤ) : JwksCache Key :=
  match readKeySet importJwk options.jwksUri answer with
  | .ok next =>
    { s with
      keys := next, fetchedAt := now, inFlight := false
      lookups := s.lookups.map (Lookup.settle none next) }
  | .error thrown =>
    let error := if s.keys.size > 0 then none else some (fetchError thrown)
    { s with inFlight := false, lookups := s.lookups.map (Lookup.settle error s.keys) }

def step (importJwk : Json → Json → Option (ImportedKey Key)) (options : JwksCacheOptions)
    (s : JwksCache Key) : Event → Option (JwksCache Key)
  | .getKey kid now => some (s.getKey options kid now)
  | .refresh force now => some (s.refresh options force now).1
  | .fetched answer now => if s.inFlight then some (s.fetched importJwk options answer now) else none

end JwksCache

end McpGateway.Auth
