import McpGateway.Runtime.ClientPool

/-!
# An entry is lent to one call at a time

Every entry that has been built is idle under its own destination with no
headers, or held by one call for that destination, or neither. A call that runs
`fn` holds an entry with its own headers.
-/

namespace McpGateway.Runtime

open Js Transition

/-- The call holds the entry: it has taken it and not given it back. -/
def Pool.Holds (s : Pool) (c e : Nat) : Prop :=
  ∃ call, s.calls c = some call ∧ call.phase.entry? = some e

def Pool.Idle (s : Pool) (e : Nat) : Prop := ∃ url, e ∈ s.idle url

structure Pool.Ok (maxIdle : Nat) (s : Pool) : Prop where
  alone : ∀ c c' e, s.Holds c e → s.Holds c' e → c = c'
  url : ∀ c call e, s.calls c = some call → call.phase.entry? = some e →
    (s.entry e).url = call.url
  headers : ∀ c call e, s.calls c = some call → call.phase = .running e →
    (s.entry e).headers = call.headers
  idleFree : ∀ e, s.Idle e → ∀ c, ¬ s.Holds c e
  idleUrl : ∀ url, ∀ e ∈ s.idle url, (s.entry e).url = url
  idleHeaders : ∀ e, s.Idle e → (s.entry e).headers = []
  idleOnce : ∀ url, (s.idle url).Nodup
  bounded : ∀ url, (s.idle url).length ≤ maxIdle
  built : ∀ e, (s.Idle e ∨ ∃ c, s.Holds c e) → e < s.built

section
variable {maxIdle : Nat} {s s' : Pool} {c c' e : Nat} {call : Call}

theorem ok_created : Pool.created.Ok maxIdle where
  alone := by rintro _ _ _ ⟨_, h, -⟩; cases h
  url := by rintro _ _ _ h; cases h
  headers := by rintro _ _ _ h; cases h
  idleFree := by rintro _ ⟨_, h⟩; cases h
  idleUrl := by rintro _ _ h; cases h
  idleHeaders := by rintro _ ⟨_, h⟩; cases h
  idleOnce := fun _ => List.nodup_nil
  bounded := fun _ => Nat.zero_le _
  built := by rintro _ (⟨_, h⟩ | ⟨_, _, h, -⟩) <;> cases h

-- ---------------------------------------------------------------------------
-- One change at a time
-- ---------------------------------------------------------------------------

theorem calls_setCall (s : Pool) (c : Nat) (call : Call) (c' : Nat) :
    (s.setCall c call).calls c' = if c' = c then some call else s.calls c' :=
  Function.update_apply ..

theorem holds_setCall : (s.setCall c call).Holds c' e ↔
    if c' = c then call.phase.entry? = some e else s.Holds c' e := by
  unfold Pool.Holds
  rw [calls_setCall]
  split
  · simp
  · rfl

theorem Pool.Ok.setCall (hs : s.Ok maxIdle) (hheaders : ∀ e, call.phase = .running e →
      (s.entry e).headers = call.headers)
    (hholds : ∀ e, call.phase.entry? = some e → (s.entry e).url = call.url ∧ e < s.built ∧
      ¬ s.Idle e ∧ ∀ c', s.Holds c' e → c' = c) : (s.setCall c call).Ok maxIdle where
  alone := by
    intro c₁ c₂ e h₁ h₂
    rw [holds_setCall] at h₁ h₂
    split at h₁
    · next heq₁ =>
      split at h₂
      · next heq₂ => exact heq₁.trans heq₂.symm
      · exact heq₁.trans ((hholds e h₁).2.2.2 c₂ h₂).symm
    · split at h₂
      · next heq₂ => exact ((hholds e h₂).2.2.2 c₁ h₁).trans heq₂.symm
      · exact hs.alone c₁ c₂ e h₁ h₂
  url := by
    intro c' call' e hcall hentry
    rw [calls_setCall] at hcall
    split at hcall
    · cases hcall
      exact (hholds e hentry).1
    · exact hs.url c' call' e hcall hentry
  headers := by
    intro c' call' e hcall hphase
    rw [calls_setCall] at hcall
    split at hcall
    · cases hcall
      exact hheaders e hphase
    · exact hs.headers c' call' e hcall hphase
  idleFree := by
    intro e hidle c' hheld
    rw [holds_setCall] at hheld
    split at hheld
    · exact (hholds e hheld).2.2.1 hidle
    · exact hs.idleFree e hidle c' hheld
  idleUrl := hs.idleUrl
  idleHeaders := hs.idleHeaders
  idleOnce := hs.idleOnce
  bounded := hs.bounded
  built := by
    rintro e (hidle | ⟨c', hheld⟩)
    · exact hs.built e (.inl hidle)
    · rw [holds_setCall] at hheld
      split at hheld
      · exact (hholds e hheld).2.1
      · exact hs.built e (.inr ⟨c', hheld⟩)

theorem Pool.Ok.release (hs : s.Ok maxIdle) (hphase : call.phase.entry? = none) :
    (s.setCall c call).Ok maxIdle := by
  refine hs.setCall ?_ ?_
  · intro e hrunning
    rw [hrunning] at hphase
    cases hphase
  · intro e hentry
    rw [hentry] at hphase
    cases hphase

theorem Pool.Ok.setHeaders (hs : s.Ok maxIdle) (headers : Headers) (hidle : ¬ s.Idle e)
    (hrunning : ∀ c call, s.calls c = some call → call.phase ≠ .running e) :
    (s.setEntry e { s.entry e with headers := headers }).Ok maxIdle := by
  have hurl : ∀ e', ((s.setEntry e { s.entry e with headers := headers }).entry e').url =
      (s.entry e').url := by
    intro e'
    unfold Pool.setEntry
    by_cases h : e' = e
    · subst h
      dsimp only
      rw [Function.update_self]
    · dsimp only
      rw [Function.update_of_ne h]
  have hsame : ∀ e' ≠ e, (s.setEntry e { s.entry e with headers := headers }).entry e' =
      s.entry e' := fun e' h => Function.update_of_ne h ..
  constructor
  · exact hs.alone
  · intro c call e' hcall hentry
    exact (hurl e').trans (hs.url c call e' hcall hentry)
  · intro c call e' hcall hphase
    have hne : e' ≠ e := fun h => hrunning c call hcall (h ▸ hphase)
    rw [hsame e' hne]
    exact hs.headers c call e' hcall hphase
  · exact hs.idleFree
  · exact fun url e' h => (hurl e').trans (hs.idleUrl url e' h)
  · intro e' h
    have hne : e' ≠ e := fun heq => hidle (heq ▸ h)
    rw [hsame e' hne]
    exact hs.idleHeaders e' h
  · exact hs.idleOnce
  · exact hs.bounded
  · exact hs.built

theorem idle_setIdle (s : Pool) (url url' : JsString) (bucket : List Nat) :
    (s.setIdle url bucket).idle url' = if url' = url then bucket else s.idle url' :=
  Function.update_apply ..

theorem Pool.Ok.setIdle (hs : s.Ok maxIdle) {url : JsString} {bucket : List Nat}
    (honce : bucket.Nodup) (hbound : bucket.length ≤ maxIdle)
    (hmem : ∀ e ∈ bucket, (s.entry e).url = url ∧ (s.entry e).headers = [] ∧ e < s.built ∧
      ∀ c, ¬ s.Holds c e) : (s.setIdle url bucket).Ok maxIdle := by
  have hidle : ∀ e, (s.setIdle url bucket).Idle e → e ∈ bucket ∨ s.Idle e := by
    rintro e ⟨url', he⟩
    rw [idle_setIdle] at he
    split at he
    · exact .inl he
    · exact .inr ⟨url', he⟩
  constructor
  · exact hs.alone
  · exact hs.url
  · exact hs.headers
  · intro e he
    exact (hidle e he).elim (fun h => (hmem e h).2.2.2) (hs.idleFree e)
  · intro url' e he
    rw [idle_setIdle] at he
    split at he
    · next heq => exact (hmem e he).1.trans heq.symm
    · exact hs.idleUrl url' e he
  · intro e he
    exact (hidle e he).elim (fun h => (hmem e h).2.1) (hs.idleHeaders e)
  · intro url'
    rw [idle_setIdle]
    split
    · exact honce
    · exact hs.idleOnce url'
  · intro url'
    rw [idle_setIdle]
    split
    · exact hbound
    · exact hs.bounded url'
  · rintro e (he | hheld)
    · exact (hidle e he).elim (fun h => (hmem e h).2.2.1) fun h => hs.built e (.inl h)
    · exact hs.built e (.inr hheld)

-- ---------------------------------------------------------------------------
-- The operations
-- ---------------------------------------------------------------------------

theorem Pool.Ok.take (hs : s.Ok maxIdle) {url : JsString} (h : s.take url = (s', some e)) :
    s'.Ok maxIdle ∧ s'.calls = s.calls ∧ (s'.entry e).url = url ∧ e < s'.built ∧ ¬ s'.Idle e ∧
      ∀ c, ¬ s'.Holds c e := by
  unfold Pool.take at h
  split at h
  · next e' hlast =>
    cases h
    have hbucket : s.idle url = (s.idle url).dropLast ++ [e] :=
      (List.dropLast_append_getLast? e hlast).symm
    have hmem : e ∈ s.idle url := List.mem_of_getLast? hlast
    have honce := hs.idleOnce url
    rw [hbucket] at honce
    have hgone : e ∉ (s.idle url).dropLast := fun hin =>
      List.disjoint_of_nodup_append honce hin List.mem_cons_self
    refine ⟨hs.setIdle ?_ ?_ ?_, rfl, hs.idleUrl url e hmem, hs.built e (.inl ⟨url, hmem⟩), ?_,
      hs.idleFree e ⟨url, hmem⟩⟩
    · exact honce.of_append_left
    · exact (List.dropLast_sublist _).length_le.trans (hs.bounded url)
    · intro e' he'
      have hin := List.mem_of_mem_dropLast he'
      exact ⟨hs.idleUrl url e' hin, hs.idleHeaders e' ⟨url, hin⟩, hs.built e' (.inl ⟨url, hin⟩),
        hs.idleFree e' ⟨url, hin⟩⟩
    · rintro ⟨url', hin⟩
      rw [idle_setIdle] at hin
      split at hin
      · exact hgone hin
      · next hne => exact hne ((hs.idleUrl url' e hin).symm.trans (hs.idleUrl url e hmem))
  · cases h

theorem Pool.Ok.build (hs : s.Ok maxIdle) (url : JsString) (headers : Headers) :
    (s.build url headers).Ok maxIdle := by
  have hsame : ∀ e < s.built, (s.build url headers).entry e = s.entry e :=
    fun e he => Function.update_of_ne (Nat.ne_of_lt he) ..
  have hholds : ∀ c call e, s.calls c = some call → call.phase.entry? = some e →
      (s.build url headers).entry e = s.entry e :=
    fun c call e hcall hentry => hsame e (hs.built e (.inr ⟨c, call, hcall, hentry⟩))
  constructor
  · exact hs.alone
  · intro c call e hcall hentry
    rw [hholds c call e hcall hentry]
    exact hs.url c call e hcall hentry
  · intro c call e hcall hphase
    rw [hholds c call e hcall (by rw [hphase]; rfl)]
    exact hs.headers c call e hcall hphase
  · exact hs.idleFree
  · intro url' e he
    rw [hsame e (hs.built e (.inl ⟨url', he⟩))]
    exact hs.idleUrl url' e he
  · intro e he
    rw [hsame e (hs.built e (.inl he))]
    exact hs.idleHeaders e he
  · exact hs.idleOnce
  · exact hs.bounded
  · exact fun e he => Nat.lt_succ_of_lt (hs.built e he)

theorem Pool.Ok.give (hs : s.Ok maxIdle) (hidle : ¬ s.Idle e) (hfree : ∀ c, ¬ s.Holds c e)
    (hbuilt : e < s.built) : (s.give maxIdle e).Ok maxIdle := by
  unfold Pool.give
  split
  · exact hs
  · have hcleared := hs.setHeaders [] hidle fun c call hcall hphase =>
      hfree c ⟨call, hcall, by rw [hphase]; rfl⟩
    dsimp only
    split
    · exact hcleared
    · next hroom =>
      refine hcleared.setIdle ?_ ?_ ?_
      · refine List.Nodup.append (hs.idleOnce _) (List.nodup_singleton e) ?_
        exact List.disjoint_singleton.mpr fun hin => hidle ⟨_, hin⟩
      · rw [List.length_append]
        exact Nat.lt_of_not_ge hroom
      · intro e' he'
        rcases List.mem_append.mp he' with hold | hnew
        · exact ⟨hcleared.idleUrl _ e' hold, hcleared.idleHeaders e' ⟨_, hold⟩,
            hcleared.built e' (.inl ⟨_, hold⟩), hcleared.idleFree e' ⟨_, hold⟩⟩
        · obtain rfl := List.mem_singleton.mp hnew
          unfold Pool.setEntry
          dsimp only
          rw [Function.update_self]
          exact ⟨rfl, rfl, hbuilt, hfree⟩

theorem Pool.Ok.close (hs : s.Ok maxIdle) : s.close.Ok maxIdle where
  alone := hs.alone
  url := hs.url
  headers := hs.headers
  idleFree := by rintro _ ⟨_, h⟩; cases h
  idleUrl := by rintro _ _ h; cases h
  idleHeaders := by rintro _ ⟨_, h⟩; cases h
  idleOnce := fun _ => List.nodup_nil
  bounded := fun _ => Nat.zero_le _
  built := by
    rintro e (⟨_, h⟩ | hheld)
    · cases h
    · exact hs.built e (.inr hheld)

-- ---------------------------------------------------------------------------
-- A call goes on
-- ---------------------------------------------------------------------------

theorem Pool.Ok.held (hs : s.Ok maxIdle) (hcall : s.calls c = some call)
    (hentry : call.phase.entry? = some e) :
    (s.entry e).url = call.url ∧ e < s.built ∧ ¬ s.Idle e ∧ ∀ c', s.Holds c' e → c' = c :=
  have hheld : s.Holds c e := ⟨call, hcall, hentry⟩
  ⟨hs.url c call e hcall hentry, hs.built e (.inr ⟨c, hheld⟩),
    fun hidle => hs.idleFree e hidle c hheld, fun c' h => hs.alone c' c e h hheld⟩

theorem Pool.Ok.enter (hs : s.Ok maxIdle) (hcall : s.calls c = some call)
    (hphase : call.phase = .taken e) :
    ((s.setEntry e { s.entry e with headers := call.headers }).setCall c
      { call with phase := .running e }).Ok maxIdle := by
  have hentry : call.phase.entry? = some e := by
    rw [hphase]
    rfl
  obtain ⟨hurl, hbuilt, hidle, halone⟩ := hs.held hcall hentry
  have hset := hs.setHeaders call.headers hidle fun c' call' hcall' hphase' => by
    -- only this call has the entry, and it has not started `fn`
    obtain rfl := halone c' ⟨call', hcall', by rw [hphase']; rfl⟩
    obtain rfl := Option.some.inj (hcall.symm.trans hcall')
    rw [hphase] at hphase'
    cases hphase'
  have hself : (s.setEntry e { s.entry e with headers := call.headers }).entry e =
      { s.entry e with headers := call.headers } := Function.update_self ..
  refine hset.setCall ?_ ?_
  · intro e' h
    cases h
    rw [hself]
  · intro e' h
    cases h
    rw [hself]
    exact ⟨hurl, hbuilt, hidle, halone⟩

theorem Pool.Ok.returns (hs : s.Ok maxIdle) (hcall : s.calls c = some call)
    (hphase : call.phase = .running e) :
    ((s.setCall c { call with phase := .settled }).give maxIdle e).Ok maxIdle := by
  have hentry : call.phase.entry? = some e := by
    rw [hphase]
    rfl
  obtain ⟨-, hbuilt, hidle, halone⟩ := hs.held hcall hentry
  have hreleased : (s.setCall c { call with phase := .settled }).Ok maxIdle := hs.release rfl
  refine hreleased.give hidle ?_ hbuilt
  intro c' hheld
  rw [holds_setCall] at hheld
  split at hheld
  · cases hheld
  · next hne => exact hne (halone c' hheld)

theorem ok_step (hs : s.Ok maxIdle) {a : PoolStep} (h : s.step maxIdle a = some s') :
    s'.Ok maxIdle := by
  cases a with
  | withClient c url headers =>
    dsimp only [Pool.step] at h
    split at h
    · cases h
    · split at h
      · next taken e htake =>
        cases h
        obtain ⟨htaken, -, hurl, hbuilt, hidle, hfree⟩ := hs.take htake
        refine htaken.setCall nofun ?_
        intro e' he'
        cases he'
        exact ⟨hurl, hbuilt, hidle, fun c' hheld => absurd hheld (hfree c')⟩
      · cases h
        exact hs.release rfl
  | build c =>
    obtain ⟨call, hcall, h⟩ := Option.bind_eq_some_iff.mp h
    split at h
    · cases h
      exact hs.release rfl
    · cases h
  | built c =>
    obtain ⟨call, hcall, h⟩ := Option.bind_eq_some_iff.mp h
    split at h
    · cases h
      have hnew : (s.build call.url call.headers).entry s.built = ⟨call.url, call.headers⟩ :=
        Function.update_self ..
      refine (hs.build call.url call.headers).setCall nofun ?_
      intro e he
      cases he
      rw [hnew]
      refine ⟨rfl, Nat.lt_succ_self _, fun hidle => ?_, fun c' hheld => ?_⟩
      · exact absurd (hs.built s.built (.inl hidle)) (lt_irrefl _)
      · exact absurd (hs.built s.built (.inr ⟨c', hheld⟩)) (lt_irrefl _)
    · cases h
  | buildFailed c =>
    obtain ⟨call, hcall, h⟩ := Option.bind_eq_some_iff.mp h
    split at h
    · cases h
      exact hs.release rfl
    · cases h
  | enter c =>
    obtain ⟨call, hcall, h⟩ := Option.bind_eq_some_iff.mp h
    split at h
    · next hphase =>
      cases h
      exact hs.enter hcall hphase
    · cases h
  | returns c =>
    obtain ⟨call, hcall, h⟩ := Option.bind_eq_some_iff.mp h
    split at h
    · next hphase =>
      cases h
      exact hs.returns hcall hphase
    · cases h
  | throws c =>
    obtain ⟨call, hcall, h⟩ := Option.bind_eq_some_iff.mp h
    split at h
    · next e hphase =>
      cases h
      have hentry : call.phase.entry? = some e := by
        rw [hphase]
        rfl
      have hheld := hs.held hcall hentry
      refine hs.setCall nofun ?_
      intro e' he'
      cases he'
      exact hheld
    · cases h
  | discarded c =>
    obtain ⟨call, hcall, h⟩ := Option.bind_eq_some_iff.mp h
    split at h
    · cases h
      exact hs.release rfl
    · cases h
  | close =>
    cases h
    exact hs.close

end

/-- In every reachable state of the pool: no entry is held by two calls; a call that
holds one holds an entry built for its destination, with its own headers while its
`fn` runs; an idle entry has no headers, is nobody's and is listed once; and no
destination has too many of them. -/
theorem exclusive_checkout (maxIdle : Nat) (steps : List PoolStep) (s : Pool)
    (h : run (Pool.step maxIdle) .created steps = some s) :
    (∀ c c' e, s.Holds c e → s.Holds c' e → c = c') ∧
      (∀ c call e, s.calls c = some call → call.phase = .running e →
        (s.entry e).headers = call.headers) ∧
      (∀ c call e, s.calls c = some call → call.phase.entry? = some e →
        (s.entry e).url = call.url) ∧
      (∀ url, ∀ e ∈ s.idle url, (s.entry e).headers = [] ∧ (∀ c, ¬ s.Holds c e) ∧
        (s.idle url).count e = 1 ∧ ∀ url', e ∈ s.idle url' → url' = url) ∧
      ∀ url, (s.idle url).length ≤ maxIdle := by
  have hs : s.Ok maxIdle := run_invariant (Pool.Ok maxIdle) (fun _ _ _ hs h => ok_step hs h)
    ok_created h
  refine ⟨hs.alone, hs.headers, hs.url, ?_, hs.bounded⟩
  intro url e he
  refine ⟨hs.idleHeaders e ⟨url, he⟩, hs.idleFree e ⟨url, he⟩,
    List.count_eq_one_of_mem (hs.idleOnce url) he, fun url' he' => ?_⟩
  exact (hs.idleUrl url' e he').symm.trans (hs.idleUrl url e he)

/-- Two calls to one destination at once; a third gets the entry the first gave back. -/
def threeCalls : List PoolStep :=
  [.withClient 0 (js "a") [(js "authorization", js "t0")], .build 0, .built 0, .enter 0,
    .withClient 1 (js "a") [(js "authorization", js "t1")], .build 1, .built 1, .enter 1,
    .returns 0, .withClient 2 (js "a") [(js "authorization", js "t2")], .enter 2, .throws 1]

theorem exclusive_checkout_three_calls :
    ∃ s, run (Pool.step 32) .created threeCalls = some s ∧
      (s.calls 2).map Call.phase = some (.running 0) ∧
      (∀ c c' e, s.Holds c e → s.Holds c' e → c = c') ∧
      ∀ url, (s.idle url).length ≤ 32 := by
  have hend : (run (Pool.step 32) .created threeCalls).any (fun s =>
      decide ((s.calls 2).map Call.phase = some (.running 0))) = true := by
    decide +kernel
  obtain ⟨s, hrun, hs⟩ := (Option.any_eq_true _ _).mp hend
  have hok := exclusive_checkout 32 threeCalls s hrun
  exact ⟨s, hrun, of_decide_eq_true hs, hok.1, hok.2.2.2.2⟩

end McpGateway.Runtime
