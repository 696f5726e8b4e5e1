import McpGateway.Js.JsonParse
import McpGateway.Js.Map
import McpGateway.Lib.Transition
import McpGateway.Shared.Errors

/-!
# Login state

The PKCE verifier of a login waits in Redis, under the random state of that
login, for the callback that returns from the identity provider. Any number of
callbacks run at once, in any number of gateways; a step is one Redis command,
or a callback that arrives, and the answer of a command is seen in the same
step. The printed form of a number is a parameter; a login value has none.
-/

namespace McpGateway.Gateway

open Js Shared Transition

/-- What `putLoginState` keeps for the callback. -/
structure LoginValue where
  codeVerifier : JsString
  redirectTo : JsString
  deriving DecidableEq

def LoginValue.toJson (value : LoginValue) : Json :=
  .object [(js "codeVerifier", .string value.codeVerifier),
    (js "redirectTo", .string value.redirectTo)]

def loginKey (state : JsString) : JsString := js "login:" ++ state

/-- What `takeLoginState` returns for the text it read; a text that is not JSON is `null`. -/
def readLoginState : Option JsString → Option Json
  | none | some [] => none
  | some raw => Json.parse raw

-- ---------------------------------------------------------------------------
-- GET /auth/callback
-- ---------------------------------------------------------------------------

structure CallbackRequest where
  code : Option JsString
  state : Option JsString
  error : Option JsString
  loginCookie : Option JsString

def admitCallback (request : CallbackRequest) : Except GatewayError (JsString × JsString) :=
  match request.error, request.code, request.state with
  | some (e :: error), _, _ =>
    throw (badRequestError (js "The identity provider returned '" ++ (e :: error) ++ js "'"))
  | _, some (c :: code), some (s :: state) =>
    if request.loginCookie ≠ some (s :: state) then
      throw (badRequestError (js "Login state does not match this browser session"))
    else return (c :: code, s :: state)
  | _, _, _ => throw (badRequestError (js "code and state are required"))

/-- `!value` of a parsed value. -/
def isFalsy : Json → Bool
  | .null | .boolean false | .string [] => true
  | .number n => n = .nan ∨ n = .negZero ∨ n = .finite 0
  | _ => false

/-- What `exchangeAuthorizationCode` is called with. -/
structure CodeExchange where
  code : JsString
  redirectUri : JsString
  /-- `none` for `undefined`. -/
  codeVerifier : Option Json

/-- `login.codeVerifier`. -/
def verifierOf : Json → Option Json
  | .object props => props.lookup (js "codeVerifier")
  | _ => none

def exchangeInput (publicUrl code : JsString) (login : Option Json) :
    Except GatewayError CodeExchange :=
  match login.filter fun v => !isFalsy v with
  | none => throw (badRequestError (js "Login state has expired; start again"))
  | some login => return {
      code
      redirectUri := publicUrl ++ js "/auth/callback"
      codeVerifier := verifierOf login }

-- ---------------------------------------------------------------------------
-- Callbacks that overlap
-- ---------------------------------------------------------------------------

/-- Where the `takeLoginState` of a callback is. -/
inductive TakePhase
  /-- Its GET has not run. -/
  | reading
  /-- Its GET has answered, and its DEL has not run. -/
  | deleting (raw : Option JsString)
  | taken (login : Option Json)
  /-- One of its commands was rejected. -/
  | threw

structure Callback where
  code : JsString
  state : JsString
  take : TakePhase

/-- `takeLoginState` up to its first command. -/
def takeLoginState (state : JsString) : TakePhase := if state = [] then .taken none else .reading

structure LoginFlow where
  redis : JsMap JsString JsString
  callbacks : Nat → Option Callback

inductive LoginEvent
  /-- The SET of `putLoginState` runs. -/
  | putLoginState (state : JsString) (value : LoginValue)
  | callback (c : Nat) (request : CallbackRequest)
  | gets (c : Nat)
  | deletes (c : Nat)
  /-- A command is rejected; a DEL may have run all the same. -/
  | rejects (c : Nat) (ran : Bool)
  | expires (state : JsString)

namespace LoginFlow

def created : LoginFlow := ⟨.empty, fun _ => none⟩

def setCallback (s : LoginFlow) (c : Nat) (call : Callback) : LoginFlow :=
  { s with callbacks := Function.update s.callbacks c (some call) }

/-- `DEL` of the state's key. -/
def forget (s : LoginFlow) (state : JsString) : LoginFlow :=
  { s with redis := s.redis.delete (loginKey state) }

def step (numberText : ℚ → JsString) (s : LoginFlow) : LoginEvent → Option LoginFlow
  | .putLoginState state value => some { s with
      redis := s.redis.set (loginKey state) (Json.stringify numberText value.toJson) }
  | .callback c request =>
    if (s.callbacks c).isSome then none
    else match admitCallback request with
      | .error _ => some s
      | .ok (code, state) => some (s.setCallback c ⟨code, state, takeLoginState state⟩)
  | .gets c => (s.callbacks c).bind fun call =>
    match call.take with
    | .reading =>
      some (s.setCallback c { call with take := .deleting (s.redis.get (loginKey call.state)) })
    | _ => none
  | .deletes c => (s.callbacks c).bind fun call =>
    match call.take with
    | .deleting raw =>
      some ((s.forget call.state).setCallback c { call with take := .taken (readLoginState raw) })
    | _ => none
  | .rejects c ran => (s.callbacks c).bind fun call =>
    match call.take with
    | .reading => some (s.setCallback c { call with take := .threw })
    | .deleting _ =>
      some ((if ran then s.forget call.state else s).setCallback c { call with take := .threw })
    | _ => none
  | .expires state => some (s.forget state)

@[simp] theorem callbacks_setCallback (s : LoginFlow) (c d : Nat) (call : Callback) :
    (s.setCallback c call).callbacks d = if d = c then some call else s.callbacks d :=
  Function.update_apply ..

theorem get_forget (s : LoginFlow) (state key : JsString) :
    (s.forget state).redis.get key = if key = loginKey state then none else s.redis.get key :=
  JsMap.get_delete ..

end LoginFlow

-- ---------------------------------------------------------------------------
-- Values and keys
-- ---------------------------------------------------------------------------

theorem loginKey_injective {state state' : JsString} (h : loginKey state = loginKey state') :
    state = state' :=
  List.append_cancel_left h

theorem readLoginState_cons (c : CodeUnit) (text : JsString) :
    readLoginState (some (c :: text)) = Json.parse (c :: text) := rfl

theorem readLoginState_value (numberText : ℚ → JsString) (value : LoginValue) :
    readLoginState (some (Json.stringify numberText value.toJson)) = some value.toJson := by
  have htext : Json.stringify numberText value.toJson = leftBrace ::
      (Json.quote (js "codeVerifier") ++ colon :: (Json.quote value.codeVerifier ++ comma ::
      (Json.quote (js "redirectTo") ++ colon :: (Json.quote value.redirectTo ++ [rightBrace])))) := by
    simp only [LoginValue.toJson, Json.stringify, Json.stringify.stringifyProps, Json.joinComma,
      List.cons_append, List.append_assoc]
  rw [htext, readLoginState_cons, Json.parse_object]
  generalize hlen : (List.length (Json.quote (js "codeVerifier") ++ colon :: _)).succ = fuel
  have hfuel : 3 ≤ fuel := by
    rw [← hlen]
    simp only [List.length_append, List.length_cons, Nat.succ_eq_add_one]
    omega
  obtain ⟨n, rfl⟩ := Nat.exists_eq_add_of_le' hfuel
  rw [Json.members_more [] (Json.parseFuel_quote _ value.codeVerifier _),
    Json.members_last _ (Json.parseFuel_quote _ value.redirectTo _)]
  rfl

theorem exchangeInput_ok {publicUrl code : JsString} {login : Option Json} {input : CodeExchange}
    (h : exchangeInput publicUrl code login = .ok input) :
    ∃ v, login = some v ∧ input.codeVerifier = verifierOf v := by
  unfold exchangeInput at h
  split at h
  · cases h
  · next v hlogin =>
    cases h
    exact ⟨v, (Option.filter_eq_some_iff.mp hlogin).1, rfl⟩

-- ---------------------------------------------------------------------------
-- What a step does
-- ---------------------------------------------------------------------------

section
variable {numberText : ℚ → JsString}

open LoginFlow

inductive LoginStep (numberText : ℚ → JsString) (s : LoginFlow) : LoginEvent → LoginFlow → Prop
  | putLoginState (state value) : LoginStep numberText s (.putLoginState state value)
      { s with redis := s.redis.set (loginKey state) (Json.stringify numberText value.toJson) }
  | refused (c request) : LoginStep numberText s (.callback c request) s
  | callback (c request code state) (hnew : s.callbacks c = none) :
      LoginStep numberText s (.callback c request)
        (s.setCallback c ⟨code, state, takeLoginState state⟩)
  | gets (c call) (hcall : s.callbacks c = some call) (htake : call.take = .reading) :
      LoginStep numberText s (.gets c)
        (s.setCallback c { call with take := .deleting (s.redis.get (loginKey call.state)) })
  | deletes (c call raw) (hcall : s.callbacks c = some call) (htake : call.take = .deleting raw) :
      LoginStep numberText s (.deletes c)
        ((s.forget call.state).setCallback c { call with take := .taken (readLoginState raw) })
  | rejects (c call) (hcall : s.callbacks c = some call) (redis)
      (hredis : redis = s.redis ∨ redis = (s.forget call.state).redis) (ran) :
      LoginStep numberText s (.rejects c ran)
        ({ s with redis }.setCallback c { call with take := .threw })
  | expires (state) : LoginStep numberText s (.expires state) (s.forget state)

theorem loginStep_of_step {s s' : LoginFlow} {a : LoginEvent} (h : step numberText s a = some s') :
    LoginStep numberText s a s' := by
  cases a with
  | putLoginState state value =>
    cases h
    exact .putLoginState state value
  | callback c request =>
    simp only [step] at h
    split at h
    · cases h
    · next hnew =>
      split at h
      · cases h
        exact .refused c request
      · cases h
        exact .callback c request _ _ (Option.not_isSome_iff_eq_none.mp hnew)
  | gets c =>
    obtain ⟨call, hcall, h⟩ := Option.bind_eq_some_iff.mp h
    split at h
    · next htake =>
      cases h
      exact .gets c call hcall htake
    · cases h
  | deletes c =>
    obtain ⟨call, hcall, h⟩ := Option.bind_eq_some_iff.mp h
    split at h
    · next htake =>
      cases h
      exact .deletes c call _ hcall htake
    · cases h
  | rejects c ran =>
    obtain ⟨call, hcall, h⟩ := Option.bind_eq_some_iff.mp h
    split at h
    · cases h
      exact .rejects c call hcall _ (.inl rfl) ran
    · cases h
      cases ran with
      | false => exact .rejects c call hcall _ (.inl rfl) false
      | true => exact .rejects c call hcall _ (.inr rfl) true
    · cases h
  | expires state =>
    cases h
    exact .expires state

end

end McpGateway.Gateway
