import McpGateway.Gateway.LoginState

/-!
# Who takes a login state

A login value is handed to one callback when no GET finds it while another
callback stands between its own GET and its DEL. The two are separate commands,
and nothing keeps two callbacks of one state from running both GETs first.
-/

namespace McpGateway.Gateway

open Js Shared Transition LoginFlow

def storedLogins (events : List LoginEvent) : List (JsString × LoginValue) :=
  events.filterMap fun
    | .putLoginState state value => some (state, value)
    | _ => none

def LoginFlow.Returned (s : LoginFlow) (c : Nat) (state : JsString) (login : Json) : Prop :=
  ∃ code, s.callbacks c = some ⟨code, state, .taken (some login)⟩

/-- The callback calls `exchangeAuthorizationCode`. -/
def LoginFlow.Exchanges (publicUrl : JsString) (s : LoginFlow) (c : Nat) (state : JsString)
    (input : CodeExchange) : Prop :=
  ∃ code login, s.callbacks c = some ⟨code, state, .taken login⟩ ∧
    exchangeInput publicUrl code login = .ok input

def LoginFlow.Unread (s : LoginFlow) (c : Nat) : Prop :=
  ∀ call, s.callbacks c = some call → call.take = .reading

/-- Login state is single use, in the state that a run of these events reaches. -/
structure SingleUse (numberText : ℚ → JsString) (publicUrl : JsString) (events : List LoginEvent)
    (s : LoginFlow) : Prop where
  once : ∀ state c d login login', s.Returned c state login → s.Returned d state login' → c = d
  stored : ∀ state c login, s.Returned c state login →
    ∃ value, (state, value) ∈ storedLogins events ∧ login = value.toJson
  /-- Once a callback has taken what was stored, and deleted it, no other that reads afterwards
  gets it, whatever the first makes of it. -/
  consumed : ∀ pre c post m call, events = pre ++ .deletes c :: post →
    run (step numberText) created pre = some m → m.callbacks c = some call →
    call.state ∈ (storedLogins pre).map Prod.fst →
    ∀ d login, m.Unread d → ¬ s.Returned d call.state login
  exchanged : ∀ state c input, s.Exchanges publicUrl c state input →
    (∃ value, (state, value) ∈ storedLogins events ∧
      input.codeVerifier = some (.string value.codeVerifier)) ∧
    ∀ d input', s.Exchanges publicUrl d state input' → c = d

/-- A GET that finds a login value does so while no other callback has found it and not yet
deleted it. -/
def ReadsAlone (s : LoginFlow) : LoginEvent → Prop
  | .gets c => ∀ call, s.callbacks c = some call → (s.redis.get (loginKey call.state)).isSome →
    ∀ d other raw, s.callbacks d = some other → other.state = call.state →
      other.take ≠ .deleting (some raw)
  | _ => True

-- ---------------------------------------------------------------------------
-- One reader at a time
-- ---------------------------------------------------------------------------

inductive TakePhase.Found : TakePhase → Prop
  | deleting (raw : JsString) : Found (.deleting (some raw))
  | taken (login : Json) : Found (.taken (some login))

section
variable {numberText : ℚ → JsString} {puts : List (JsString × LoginValue)} {s s' : LoginFlow}

inductive HoldsStored (numberText : ℚ → JsString) (puts : List (JsString × LoginValue))
    (state : JsString) : TakePhase → Prop
  | deleting (value : LoginValue) (hput : (state, value) ∈ puts) :
      HoldsStored numberText puts state
        (.deleting (some (Json.stringify numberText value.toJson)))
  | taken (value : LoginValue) (hput : (state, value) ∈ puts) :
      HoldsStored numberText puts state (.taken (some value.toJson))

theorem HoldsStored.mono {puts' : List (JsString × LoginValue)} {state : JsString}
    {take : TakePhase} (h : HoldsStored numberText puts state take) (hputs : puts ⊆ puts') :
    HoldsStored numberText puts' state take := by
  cases h with
  | deleting value hput => exact .deleting value (hputs hput)
  | taken value hput => exact .taken value (hputs hput)

structure OneReader (numberText : ℚ → JsString) (puts : List (JsString × LoginValue))
    (s : LoginFlow) : Prop where
  kept : ∀ state raw, s.redis.get (loginKey state) = some raw →
    ∃ value, (state, value) ∈ puts ∧ raw = Json.stringify numberText value.toJson
  held : ∀ c call, s.callbacks c = some call → call.take.Found →
    HoldsStored numberText puts call.state call.take
  alone : ∀ c d call other, s.callbacks c = some call → s.callbacks d = some other →
    call.take.Found → other.take.Found → call.state = other.state → c = d
  spent : ∀ c call login, s.callbacks c = some call → call.take = .taken (some login) →
    s.redis.get (loginKey call.state) = none

theorem oneReader_created : OneReader numberText [] created where
  kept _ _ h := by cases h
  held _ _ h := by cases h
  alone _ _ _ _ h := by cases h
  spent _ _ _ h := by cases h

theorem none_of_le {redis redis' : JsMap JsString JsString} {key : JsString}
    (hle : ∀ key raw, redis'.get key = some raw → redis.get key = some raw)
    (h : redis.get key = none) : redis'.get key = none := by
  refine Option.eq_none_iff_forall_ne_some.mpr fun raw hraw => ?_
  rw [hle key raw hraw] at h
  cases h

theorem forget_le (s : LoginFlow) (state : JsString) (key raw : JsString)
    (h : (s.forget state).redis.get key = some raw) : s.redis.get key = some raw := by
  rw [get_forget] at h
  split at h
  · cases h
  · exact h

theorem rejects_le {state : JsString} {redis : JsMap JsString JsString}
    (h : redis = s.redis ∨ redis = (s.forget state).redis) :
    ∀ key raw, redis.get key = some raw → s.redis.get key = some raw := by
  rcases h with rfl | rfl
  · exact fun _ _ hraw => hraw
  · exact forget_le s state

theorem OneReader.moves (h : OneReader numberText puts s) (c : Nat) (call : Callback)
    (redis : JsMap JsString JsString)
    (hredis : ∀ key raw, redis.get key = some raw → s.redis.get key = some raw)
    (hheld : call.take.Found → HoldsStored numberText puts call.state call.take)
    (halone : call.take.Found → ∀ d other, d ≠ c → s.callbacks d = some other →
      other.take.Found → other.state ≠ call.state)
    (hspent : ∀ login, call.take = .taken (some login) →
      redis.get (loginKey call.state) = none) :
    OneReader numberText puts ({ s with redis }.setCallback c call) where
  kept state raw hraw := h.kept state raw (hredis _ _ hraw)
  held d other hother hfound := by
    rw [callbacks_setCallback] at hother
    split at hother
    · cases hother
      exact hheld hfound
    · exact h.held d other hother hfound
  alone d e other other' hd he hfound hfound' hstate := by
    rw [callbacks_setCallback] at hd he
    split at hd <;> split at he
    · next hdc hec => rw [hdc, hec]
    · next hec =>
      cases hd
      exact absurd hstate.symm (halone hfound e other' hec he hfound')
    · next hdc _ =>
      cases he
      exact absurd hstate (halone hfound' d other hdc hd hfound)
    · exact h.alone d e other other' hd he hfound hfound' hstate
  spent d other login hother htake := by
    rw [callbacks_setCallback] at hother
    split at hother
    · cases hother
      exact hspent login htake
    · exact none_of_le hredis (h.spent d other login hother htake)

theorem OneReader.moves_empty (h : OneReader numberText puts s) (c : Nat) (call : Callback)
    (redis : JsMap JsString JsString)
    (hredis : ∀ key raw, redis.get key = some raw → s.redis.get key = some raw)
    (hempty : ¬ call.take.Found) :
    OneReader numberText puts ({ s with redis }.setCallback c call) :=
  h.moves c call redis hredis (fun hfound => absurd hfound hempty)
    (fun hfound => absurd hfound hempty) fun login htake =>
      absurd (by rw [htake]; exact .taken login) hempty

theorem OneReader.forget (h : OneReader numberText puts s) (state : JsString) :
    OneReader numberText puts (s.forget state) where
  kept state' raw hraw := h.kept state' raw (forget_le s state _ raw hraw)
  held := h.held
  alone := h.alone
  spent c call login hcall htake := by
    rw [get_forget, h.spent c call login hcall htake, ite_self]

theorem OneReader.put (h : OneReader numberText puts s) {state : JsString} (value : LoginValue)
    (hnew : state ∉ puts.map Prod.fst) :
    OneReader numberText (puts ++ [(state, value)]) { s with
      redis := s.redis.set (loginKey state) (Json.stringify numberText value.toJson) } where
  kept state' raw hraw := by
    rw [JsMap.get_set] at hraw
    split at hraw
    · next hkey =>
      obtain rfl := loginKey_injective hkey
      cases hraw
      exact ⟨value, List.mem_append_right _ List.mem_cons_self, rfl⟩
    · obtain ⟨value', hput, hvalue⟩ := h.kept state' raw hraw
      exact ⟨value', List.mem_append_left _ hput, hvalue⟩
  held c call hcall hfound := (h.held c call hcall hfound).mono (List.subset_append_left ..)
  alone := h.alone
  spent c call login hcall htake := by
    have hne : loginKey call.state ≠ loginKey state := by
      intro hkey
      have hfound : call.take.Found := htake ▸ .taken login
      have hheld := h.held c call hcall hfound
      rw [htake] at hheld
      cases hheld with
      | taken value' hput =>
        exact hnew (loginKey_injective hkey ▸ List.mem_map_of_mem hput)
    exact (JsMap.get_set_of_ne s.redis _ hne).trans (h.spent c call login hcall htake)

theorem OneReader.gets {c : Nat} {call : Callback} (h : OneReader numberText puts s)
    (hcall : s.callbacks c = some call) (halone : ReadsAlone s (.gets c)) :
    OneReader numberText puts (s.setCallback c
      { call with take := .deleting (s.redis.get (loginKey call.state)) }) := by
  cases hread : s.redis.get (loginKey call.state) with
  | none =>
    have hempty : ¬ (TakePhase.deleting none).Found := by rintro ⟨⟩
    exact h.moves_empty c { call with take := .deleting none } s.redis (fun _ _ hraw => hraw) hempty
  | some raw =>
    obtain ⟨value, hput, rfl⟩ := h.kept call.state raw hread
    refine h.moves c { call with take := .deleting (some _) } s.redis (fun _ _ hraw => hraw)
      (fun _ => .deleting value hput) (fun _ d other _ hother hfound hstate => ?_) ?_
    · generalize htake : other.take = take at hfound
      cases hfound with
      | deleting found =>
        exact halone call hcall (by rw [hread]; rfl) d other found hother hstate htake
      | taken login =>
        -- whoever was given the value has deleted it
        have hspent := h.spent d other login hother htake
        rw [hstate, hread] at hspent
        cases hspent
    · rintro login ⟨⟩

theorem OneReader.deletes {c : Nat} {call : Callback} {raw : Option JsString}
    (h : OneReader numberText puts s) (hcall : s.callbacks c = some call)
    (htake : call.take = .deleting raw) :
    OneReader numberText puts ((s.forget call.state).setCallback c
      { call with take := .taken (readLoginState raw) }) := by
  cases raw with
  | none =>
    have hempty : ¬ (TakePhase.taken none).Found := by rintro ⟨⟩
    exact h.moves_empty c { call with take := .taken none } _ (forget_le s call.state) hempty
  | some raw =>
    have hfound : call.take.Found := by
      rw [htake]
      exact .deleting raw
    have hheld := h.held c call hcall hfound
    rw [htake] at hheld
    cases hheld with
    | deleting value hput =>
      rw [readLoginState_value]
      refine h.moves c { call with take := .taken (some value.toJson) } _ (forget_le s call.state)
        (fun _ => .taken value hput) (fun _ d other hne hother hfound' hstate => ?_) fun _ _ => ?_
      · exact hne (h.alone d c other call hother hcall hfound' hfound hstate)
      · exact (get_forget ..).trans (if_pos rfl)

theorem storedLogins_append (pre post : List LoginEvent) :
    storedLogins (pre ++ post) = storedLogins pre ++ storedLogins post :=
  List.filterMap_append

theorem OneReader.step {pre : List LoginEvent} {a : LoginEvent}
    (h : OneReader numberText (storedLogins pre) s)
    (hfresh : ((storedLogins (pre ++ [a])).map Prod.fst).Nodup) (halone : ReadsAlone s a)
    (hstep : step numberText s a = some s') :
    OneReader numberText (storedLogins (pre ++ [a])) s' := by
  rw [storedLogins_append] at hfresh ⊢
  cases loginStep_of_step hstep with
  | putLoginState state value =>
    rw [List.map_append, List.nodup_append_comm] at hfresh
    exact h.put value (List.nodup_cons.mp hfresh).1
  | refused c request => simpa [storedLogins] using h
  | callback c request code state hnew =>
    have hempty : ¬ (takeLoginState state).Found := by
      intro hfound
      unfold takeLoginState at hfound
      split at hfound <;> cases hfound
    simpa [storedLogins] using h.moves_empty c ⟨code, state, takeLoginState state⟩ s.redis
      (fun _ _ hraw => hraw) hempty
  | gets c call hcall htake => simpa [storedLogins] using h.gets hcall halone
  | deletes c call raw hcall htake => simpa [storedLogins] using h.deletes hcall htake
  | rejects c call hcall redis hredis ran =>
    have hempty : ¬ TakePhase.threw.Found := by rintro ⟨⟩
    simpa [storedLogins] using
      h.moves_empty c { call with take := .threw } redis (rejects_le hredis) hempty
  | expires state => simpa [storedLogins] using h.forget state

theorem oneReader_run {events : List LoginEvent}
    (hfresh : ((storedLogins events).map Prod.fst).Nodup)
    (halone : Along (step numberText) ReadsAlone created events)
    (hrun : run (step numberText) created events = some s) :
    OneReader numberText (storedLogins events) s := by
  have hcreated : ((storedLogins []).map Prod.fst).Nodup →
      OneReader numberText (storedLogins []) created := fun _ => oneReader_created
  refine run_history_along (fun pre s => ((storedLogins pre).map Prod.fst).Nodup →
    OneReader numberText (storedLogins pre) s) ReadsAlone ?_ hcreated halone hrun hfresh
  intro pre s a s' ih hok hstep hnodup
  have hpre : ((storedLogins pre).map Prod.fst).Nodup := by
    rw [storedLogins_append, List.map_append] at hnodup
    exact (List.nodup_append.mp hnodup).1
  exact (ih hpre).step hnodup hok hstep

-- ---------------------------------------------------------------------------
-- After the DEL
-- ---------------------------------------------------------------------------

/-- The value of a state is gone: Redis has none, and of the callbacks that had not read in `m`
none has found one. -/
structure Gone (m : LoginFlow) (state : JsString) (s : LoginFlow) : Prop where
  forgotten : s.redis.get (loginKey state) = none
  unfound : ∀ d call, m.Unread d → s.callbacks d = some call → call.state = state →
    ¬ call.take.Found

theorem Gone.moves {m : LoginFlow} {state : JsString} (h : Gone m state s) (c : Nat)
    (call : Callback) (redis : JsMap JsString JsString)
    (hredis : ∀ key raw, redis.get key = some raw → s.redis.get key = some raw)
    (hempty : m.Unread c → call.state = state → ¬ call.take.Found) :
    Gone m state ({ s with redis }.setCallback c call) where
  forgotten := none_of_le hredis h.forgotten
  unfound d other hunread hother hstate := by
    rw [callbacks_setCallback] at hother
    split at hother
    · next hdc =>
      cases hother
      exact hempty (hdc ▸ hunread) hstate
    · exact h.unfound d other hunread hother hstate

theorem Gone.step {m : LoginFlow} {state : JsString} {a : LoginEvent} (h : Gone m state s)
    (hother : ∀ value, a ≠ .putLoginState state value)
    (hstep : LoginFlow.step numberText s a = some s') : Gone m state s' := by
  cases loginStep_of_step hstep with
  | putLoginState state' value =>
    refine ⟨?_, h.unfound⟩
    have hne : loginKey state ≠ loginKey state' := by
      intro hkey
      exact hother value (by rw [loginKey_injective hkey])
    exact (JsMap.get_set_of_ne s.redis _ hne).trans h.forgotten
  | refused c request => exact h
  | callback c request code state' hnew =>
    refine h.moves c ⟨code, state', takeLoginState state'⟩ s.redis (fun _ _ hraw => hraw) ?_
    rintro - - hfound
    dsimp only at hfound
    unfold takeLoginState at hfound
    split at hfound <;> cases hfound
  | gets c call hcall htake =>
    refine h.moves c { call with take := .deleting (s.redis.get (loginKey call.state)) } s.redis
      (fun _ _ hraw => hraw) ?_
    rintro - rfl hfound
    dsimp only at hfound
    rw [h.forgotten] at hfound
    cases hfound
  | deletes c call raw hcall htake =>
    refine h.moves c { call with take := .taken (readLoginState raw) } _ (forget_le s call.state) ?_
    rintro hunread hstate hfound
    have hold := h.unfound c call hunread hcall hstate
    rw [htake] at hold
    cases raw with
    | none => cases hfound
    | some raw => exact hold (.deleting raw)
  | rejects c call hcall redis hredis ran =>
    refine h.moves c { call with take := .threw } redis (rejects_le hredis) ?_
    rintro - - ⟨⟩
  | expires state' =>
    refine ⟨?_, h.unfound⟩
    rw [get_forget, h.forgotten, ite_self]

theorem gone_deletes {m : LoginFlow} {c : Nat} {call : Callback}
    (hcall : m.callbacks c = some call)
    (hstep : LoginFlow.step numberText m (.deletes c) = some s) : Gone m call.state s := by
  cases loginStep_of_step hstep with
  | deletes _ call' raw hcall' htake =>
    obtain rfl : call' = call := Option.some.inj (hcall'.symm.trans hcall)
    refine ⟨(get_forget ..).trans (if_pos rfl), fun d other hunread hother _ hfound => ?_⟩
    rw [callbacks_setCallback] at hother
    split at hother
    · next hdc =>
      have hreading := hunread call' (hdc ▸ hcall)
      rw [htake] at hreading
      cases hreading
    · rw [hunread other hother] at hfound
      cases hfound

/-- Whatever order the callbacks run in, a value that was deleted is found by no GET that runs
afterwards. -/
theorem gone_run {pre post : List LoginEvent} {c : Nat} {m : LoginFlow} {call : Callback}
    (hfresh : ((storedLogins (pre ++ .deletes c :: post)).map Prod.fst).Nodup)
    (hrun : run (LoginFlow.step numberText) created (pre ++ .deletes c :: post) = some s)
    (hm : run (LoginFlow.step numberText) created pre = some m)
    (hcall : m.callbacks c = some call) (hput : call.state ∈ (storedLogins pre).map Prod.fst) :
    Gone m call.state s := by
  rw [run_append, hm, Option.bind_some] at hrun
  obtain ⟨m', hdeletes, hpost⟩ := run_cons_some.mp hrun
  have hlater : ∀ a ∈ post, ∀ value, a ≠ .putLoginState call.state value := by
    rintro a ha value rfl
    rw [storedLogins_append, List.map_append] at hfresh
    have hagain : (call.state, value) ∈ storedLogins (.deletes c :: post) :=
      List.mem_filterMap.mpr ⟨_, List.mem_cons_of_mem _ ha, rfl⟩
    exact (List.nodup_append.mp hfresh).2.2 _ hput _ (List.mem_map_of_mem hagain) rfl
  exact run_invariant_along (Gone m call.state) (fun _ a => ∀ value, a ≠ .putLoginState call.state value)
    (fun _ _ _ h hother hstep => h.step hother hstep) (gone_deletes hcall hdeletes)
    (along_of_forall hlater) hpost

-- ---------------------------------------------------------------------------
-- Single use
-- ---------------------------------------------------------------------------

theorem OneReader.once (h : OneReader numberText puts s) {state : JsString} {c d : Nat}
    {login login' : Json} (hc : s.Returned c state login) (hd : s.Returned d state login') :
    c = d := by
  obtain ⟨code, hcall⟩ := hc
  obtain ⟨code', hother⟩ := hd
  exact h.alone c d _ _ hcall hother (.taken login) (.taken login') rfl

theorem OneReader.stored (h : OneReader numberText puts s) {state : JsString} {c : Nat}
    {login : Json} (hc : s.Returned c state login) :
    ∃ value, (state, value) ∈ puts ∧ login = value.toJson := by
  obtain ⟨code, hcall⟩ := hc
  cases h.held c _ hcall (.taken login) with
  | taken value hput => exact ⟨value, hput, rfl⟩

theorem LoginFlow.Exchanges.returned {publicUrl state : JsString} {c : Nat} {input : CodeExchange}
    (h : s.Exchanges publicUrl c state input) :
    ∃ login, s.Returned c state login ∧ input.codeVerifier = verifierOf login := by
  obtain ⟨code, login, hcall, hinput⟩ := h
  obtain ⟨v, rfl, hverifier⟩ := exchangeInput_ok hinput
  exact ⟨v, ⟨code, hcall⟩, hverifier⟩

/-- Login state is single use in every run in which no GET finds a value that another callback
has found and not yet deleted. -/
theorem loginState_single_use (numberText : ℚ → JsString) (publicUrl : JsString)
    (events : List LoginEvent) (s : LoginFlow)
    (hfresh : ((storedLogins events).map Prod.fst).Nodup)
    (halone : Along (LoginFlow.step numberText) ReadsAlone created events)
    (hrun : run (LoginFlow.step numberText) created events = some s) :
    SingleUse numberText publicUrl events s := by
  have hreader := oneReader_run hfresh halone hrun
  refine ⟨fun _ _ _ _ _ hc hd => hreader.once hc hd, fun _ _ _ hc => hreader.stored hc, ?_, ?_⟩
  · rintro pre c post m call rfl hm hcall hput d login hunread ⟨code, hd⟩
    exact (gone_run hfresh hrun hm hcall hput).unfound d _ hunread hd rfl (.taken login)
  · intro state c input hc
    obtain ⟨login, hreturned, hverifier⟩ := hc.returned
    obtain ⟨value, hput, rfl⟩ := hreader.stored hreturned
    refine ⟨⟨value, hput, hverifier⟩, fun d input' hd => ?_⟩
    obtain ⟨login', hreturned', -⟩ := hd.returned
    exact hreader.once hreturned hreturned'

end

-- ---------------------------------------------------------------------------
-- Two callbacks of one login
-- ---------------------------------------------------------------------------

def oneLogin : LoginEvent := .putLoginState (js "s-1") ⟨js "v-1", js "/"⟩

def returning (code : String) : CallbackRequest where
  code := some (js code)
  state := some (js "s-1")
  error := none
  loginCookie := some (js "s-1")

def inTurn : List LoginEvent :=
  [oneLogin, .callback 0 (returning "a"), .callback 1 (returning "b"), .gets 0, .deletes 0,
    .gets 1, .deletes 1]

def overlapping : List LoginEvent :=
  [oneLogin, .callback 0 (returning "a"), .callback 1 (returning "b"), .gets 0, .gets 1,
    .deletes 0, .deletes 1]

theorem inTurn_readsAlone :
    Along (LoginFlow.step fun _ => []) ReadsAlone created inTurn := by
  refine ⟨trivial, trivial, trivial, ?_, trivial, ?_, trivial, trivial⟩
  · rintro call - - d other raw hd - htake
    change Function.update (Function.update (fun _ => none) 0 _) 1 _ d = some other at hd
    rw [Function.update_apply, Function.update_apply] at hd
    split at hd
    · cases hd
      cases htake
    · split at hd
      · cases hd
        cases htake
      · cases hd
  · rintro call hcall hread
    obtain rfl := Option.some.inj hcall
    exact absurd hread (by decide)

/-- Of two callbacks of one login that run in turn, the first alone is given the login value. -/
theorem inTurn_single_use :
    ∃ s, run (LoginFlow.step fun _ => []) created inTurn = some s ∧
      SingleUse (fun _ => []) (js "https://gateway") inTurn s := by
  have hruns : (run (LoginFlow.step fun _ => []) created inTurn).isSome := by decide +kernel
  obtain ⟨s, hrun⟩ := Option.isSome_iff_exists.mp hruns
  exact ⟨s, hrun, loginState_single_use _ _ inTurn s (by decide) inTurn_readsAlone hrun⟩

def givenLogin (s : LoginFlow) (c : Nat) : Bool :=
  match s.callbacks c with
  | some ⟨_, state, .taken (some _)⟩ => state == js "s-1"
  | _ => false

theorem returned_of_givenLogin {s : LoginFlow} {c : Nat} (h : givenLogin s c = true) :
    ∃ login, s.Returned c (js "s-1") login := by
  unfold givenLogin at h
  split at h
  · next code state login hcall =>
    obtain rfl := eq_of_beq h
    exact ⟨login, code, hcall⟩
  · cases h

/-- Two callbacks of one login that overlap are both given its value. -/
theorem overlapping_not_single_use :
    ¬ ∀ events s, ((storedLogins events).map Prod.fst).Nodup →
      run (LoginFlow.step fun _ => []) created events = some s →
      SingleUse (fun _ => []) (js "https://gateway") events s := by
  intro h
  have hboth : (run (LoginFlow.step fun _ => []) created overlapping).any
      (fun s => givenLogin s 0 && givenLogin s 1) = true := by decide +kernel
  obtain ⟨s, hrun, hgiven⟩ := Option.any_eq_true .. |>.mp hboth
  obtain ⟨hfirst, hsecond⟩ := Bool.and_eq_true_iff.mp hgiven
  obtain ⟨login, hc⟩ := returned_of_givenLogin hfirst
  obtain ⟨login', hd⟩ := returned_of_givenLogin hsecond
  have hsame := (h overlapping s (by decide) hrun).once _ 0 1 login login' hc hd
  cases hsame

end McpGateway.Gateway
