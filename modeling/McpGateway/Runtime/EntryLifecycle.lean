import McpGateway.Runtime.ExclusiveCheckout

/-!
# The life of an entry

Every entry is built once, lent and returned any number of times, and discarded
once: after its `fn` has failed, when it comes back to a full bucket or after
`close`, or by `close` itself. What happens to the entries is written down here as the
pool does it, and each entry's part of it follows the rules of one life.
-/

namespace McpGateway.Runtime

open Js Transition

-- ---------------------------------------------------------------------------
-- One life
-- ---------------------------------------------------------------------------

inductive Happening
  /-- `build` has returned it. -/
  | built
  /-- `take` has popped it. -/
  | taken
  /-- It is passed to `fn`. -/
  | entered
  /-- `fn` has failed. -/
  | failed
  /-- It is put in the idle set. -/
  | idled
  /-- `discard` has begun. -/
  | discarded
  deriving DecidableEq, Repr

inductive Life
  | unbuilt
  | held
  | running
  | broken
  | idle
  | discarded
  deriving DecidableEq, Repr

def Life.step : Life → Happening → Option Life
  | .unbuilt, .built => some .held
  | .held, .entered => some .running
  | .running, .idled => some .idle
  | .running, .failed => some .broken
  | .running, .discarded => some .discarded
  | .broken, .discarded => some .discarded
  | .idle, .taken => some .held
  | .idle, .discarded => some .discarded
  | _, _ => none

section
variable {life life' : Life} {hs pre post : List Happening}

theorem discarded_last (h : run Life.step .discarded hs = some life') : hs = [] := by
  cases hs with
  | nil => rfl
  | cons x hs =>
    obtain ⟨m, hm, -⟩ := run_cons_some.mp h
    cases x <;> cases hm

theorem discarded_next (h : Life.step life .discarded = some life') : life' = .discarded := by
  cases life <;> cases h <;> rfl

theorem run_split (h : run Life.step life (pre ++ post) = some life') :
    ∃ m, run Life.step life pre = some m ∧ run Life.step m post = some life' := by
  rw [run_append] at h
  exact Option.bind_eq_some_iff.mp h

theorem nothing_after_discarded (h : run Life.step life (pre ++ .discarded :: post) = some life') :
    post = [] := by
  obtain ⟨m, -, hrest⟩ := run_split h
  obtain ⟨m', hm', hpost⟩ := run_cons_some.mp hrest
  rw [discarded_next hm'] at hpost
  exact discarded_last hpost

theorem only_discarded_after_failed (h : run Life.step life (pre ++ .failed :: post) = some life') :
    post = [] ∨ post = [.discarded] := by
  obtain ⟨m, -, hrest⟩ := run_split h
  obtain ⟨m', hm', hpost⟩ := run_cons_some.mp hrest
  have hbroken : m' = .broken := by
    cases m <;> cases hm'
    rfl
  rw [hbroken] at hpost
  cases post with
  | nil => exact .inl rfl
  | cons x post =>
    obtain ⟨m'', hm'', hlast⟩ := run_cons_some.mp hpost
    cases x <;> cases hm''
    exact .inr (congrArg _ (discarded_last hlast))

theorem count_discarded (h : run Life.step life hs = some life') (hlife : life ≠ .discarded) :
    hs.count .discarded = if life' = .discarded then 1 else 0 := by
  induction hs generalizing life with
  | nil =>
    cases h
    rw [if_neg hlife]
    rfl
  | cons x hs ih =>
    obtain ⟨m, hm, hrest⟩ := run_cons_some.mp h
    by_cases hx : x = .discarded
    · subst hx
      obtain rfl := discarded_next hm
      obtain rfl := discarded_last hrest
      cases hrest
      rfl
    · rw [List.count_cons_of_ne hx]
      refine ih hrest ?_
      rintro rfl
      cases life <;> cases x <;> first | exact hx rfl | cases hm

end

-- ---------------------------------------------------------------------------
-- What the pool does to its entries
-- ---------------------------------------------------------------------------

/-- What `give` does with an entry. -/
def Pool.given (maxIdle : Nat) (s : Pool) (e : Nat) : Happening :=
  if s.closed then .discarded
  else if (s.idle (s.entry e).url).length ≥ maxIdle then .discarded
  else .idled

/-- The pool with the keys of its `idle` map in order, and what has happened to its
entries. -/
structure Tracked where
  pool : Pool
  destinations : List JsString
  log : List (Nat × Happening)

namespace Tracked

def created : Tracked := ⟨.created, [], []⟩

def happenings (maxIdle : Nat) (t : Tracked) : PoolStep → List (Nat × Happening)
  | .withClient _ url _ =>
    match (t.pool.take url).2 with
    | some e => [(e, .taken)]
    | none => []
  | .built _ => [(t.pool.built, .built)]
  | .enter c =>
    match (t.pool.calls c).map Call.phase with
    | some (.taken e) => [(e, .entered)]
    | _ => []
  | .returns c =>
    match (t.pool.calls c).map Call.phase with
    | some (.running e) => [(e, t.pool.given maxIdle e)]
    | _ => []
  | .throws c =>
    match (t.pool.calls c).map Call.phase with
    | some (.running e) => [(e, .failed), (e, .discarded)]
    | _ => []
  -- `[...this.idle.values()].flat()`
  | .close => (t.destinations.flatMap t.pool.idle).map fun e => (e, .discarded)
  | _ => []

/-- `this.idle.set(url, bucket)` adds a key, and `this.idle.clear()` removes them all. -/
def keysAfter (maxIdle : Nat) (t : Tracked) : PoolStep → List JsString
  | .returns c =>
    match (t.pool.calls c).map Call.phase with
    | some (.running e) =>
      let url := (t.pool.entry e).url
      if t.pool.given maxIdle e = .idled ∧ url ∉ t.destinations then t.destinations ++ [url]
      else t.destinations
    | _ => t.destinations
  | .close => []
  | _ => t.destinations

def step (maxIdle : Nat) (t : Tracked) (a : PoolStep) : Option Tracked :=
  (t.pool.step maxIdle a).map fun pool =>
    ⟨pool, t.keysAfter maxIdle a, t.log ++ t.happenings maxIdle a⟩

def history (t : Tracked) (e : Nat) : List Happening :=
  (t.log.filter fun x => decide (x.1 = e)).map Prod.snd

end Tracked

-- ---------------------------------------------------------------------------
-- Where an entry is
-- ---------------------------------------------------------------------------

def Pool.InPhase (s : Pool) (p : Phase) : Prop := ∃ c call, s.calls c = some call ∧ call.phase = p

def Pool.At (s : Pool) (e : Nat) : Life → Prop
  | .unbuilt => s.built ≤ e
  | .held => s.InPhase (.taken e)
  | .running => s.InPhase (.running e)
  | .broken => False
  | .idle => s.Idle e
  | .discarded => e < s.built ∧ ¬ s.Idle e ∧ ¬ s.InPhase (.taken e) ∧ ¬ s.InPhase (.running e)

/-- The map of idle entries has the keys it has entries under, and stays empty once the
pool is closed. -/
structure Keys (destinations : List JsString) (s : Pool) : Prop where
  once : destinations.Nodup
  known : ∀ url, s.idle url ≠ [] → url ∈ destinations
  closed : s.closed = true → ∀ url, s.idle url = []

/-- The pool keeps its own invariant and its map its keys, and every entry is where its
history has brought it. -/
structure Tracked.Ok (maxIdle : Nat) (t : Tracked) : Prop where
  pool : t.pool.Ok maxIdle
  keys : Keys t.destinations t.pool
  lives : ∀ e, ∃ life, run Life.step .unbuilt (t.history e) = some life ∧ t.pool.At e life

section
variable {maxIdle : Nat} {s s' : Pool} {c e : Nat} {call call' : Call} {life : Life} {p : Phase}
  {t t' : Tracked}

theorem Pool.At.frame (h : s.At e life) (hbuilt : e < s'.built ↔ e < s.built)
    (hidle : s'.Idle e ↔ s.Idle e) (htaken : s'.InPhase (.taken e) ↔ s.InPhase (.taken e))
    (hrunning : s'.InPhase (.running e) ↔ s.InPhase (.running e)) : s'.At e life := by
  cases life with
  | unbuilt => exact not_lt.mp fun hlt => (not_lt.mpr h) (hbuilt.mp hlt)
  | held => exact htaken.mpr h
  | running => exact hrunning.mpr h
  | broken => exact h
  | idle => exact hidle.mpr h
  | discarded =>
    unfold Pool.At at h ⊢
    rw [hbuilt, hidle, htaken, hrunning]
    exact h

theorem inPhase_setCall_self (s : Pool) (c : Nat) (call : Call) :
    (s.setCall c call).InPhase call.phase :=
  ⟨c, call, by rw [calls_setCall, if_pos rfl], rfl⟩

theorem inPhase_setCall (hold : ∀ old, s.calls c = some old → old.phase ≠ p)
    (hnew : call.phase ≠ p) : (s.setCall c call).InPhase p ↔ s.InPhase p := by
  constructor
  · rintro ⟨c', call', hcall, hphase⟩
    rw [calls_setCall] at hcall
    split at hcall
    · cases hcall
      exact absurd hphase hnew
    · exact ⟨c', call', hcall, hphase⟩
  · rintro ⟨c', call', hcall, hphase⟩
    refine ⟨c', call', ?_, hphase⟩
    rw [calls_setCall]
    split
    · next heq => exact absurd hphase (hold call' (heq ▸ hcall))
    · exact hcall

theorem inPhase_left (hs : s.Ok maxIdle) (hcall : s.calls c = some call)
    (hentry : call.phase.entry? = some e) (hp : p.entry? = some e) (hnew : call'.phase ≠ p) :
    ¬ (s.setCall c call').InPhase p := by
  rintro ⟨c₁, call₁, hcall₁, hphase⟩
  rw [calls_setCall] at hcall₁
  split at hcall₁
  · cases hcall₁
    exact hnew hphase
  · next hne =>
    exact hne (hs.alone c₁ c e ⟨call₁, hcall₁, hphase ▸ hp⟩ ⟨call, hcall, hentry⟩)

theorem at_unique (hs : s.Ok maxIdle) {life' : Life} (h : s.At e life) (h' : s.At e life') :
    life = life' := by
  have htaken : s.InPhase (.taken e) → e < s.built ∧ ¬ s.Idle e ∧ ¬ s.InPhase (.running e) := by
    rintro ⟨c, call, hcall, hphase⟩
    have hentry : call.phase.entry? = some e := by
      rw [hphase]
      rfl
    obtain ⟨-, hbuilt, hidle, halone⟩ := hs.held hcall hentry
    refine ⟨hbuilt, hidle, ?_⟩
    rintro ⟨c', call', hcall', hphase'⟩
    obtain rfl := halone c' ⟨call', hcall', by rw [hphase']; rfl⟩
    obtain rfl := Option.some.inj (hcall.symm.trans hcall')
    rw [hphase] at hphase'
    cases hphase'
  have hrunning : s.InPhase (.running e) → e < s.built ∧ ¬ s.Idle e := by
    rintro ⟨c, call, hcall, hphase⟩
    obtain ⟨-, hbuilt, hidle, -⟩ := hs.held hcall (by rw [hphase]; rfl)
    exact ⟨hbuilt, hidle⟩
  have hidle : s.Idle e → e < s.built := fun h => hs.built e (.inl h)
  cases life <;> cases life' <;> unfold Pool.At at h h' <;> grind

def partOf (e : Nat) (log : List (Nat × Happening)) : List Happening :=
  (log.filter fun x => decide (x.1 = e)).map Prod.snd

theorem partOf_append (e : Nat) (log log' : List (Nat × Happening)) :
    partOf e (log ++ log') = partOf e log ++ partOf e log' := by
  unfold partOf
  rw [List.filter_append, List.map_append]

theorem partOf_self (e : Nat) (x : Happening) : partOf e [(e, x)] = [x] := by
  simp [partOf]

theorem partOf_of_ne {e' : Nat} (h : e' ≠ e) (x : Happening) : partOf e [(e', x)] = [] := by
  simp [partOf, h]

def GoesOn (s s' : Pool) (log : List (Nat × Happening)) : Prop :=
  ∀ e life, s.At e life → ∃ life', run Life.step life (partOf e log) = some life' ∧ s'.At e life'

theorem goesOn_nil (h : ∀ e life, s.At e life → s'.At e life) : GoesOn s s' [] :=
  fun e life hat => ⟨life, rfl, h e life hat⟩

theorem goesOn_one (hs : s.Ok maxIdle) {x : Happening} {life' : Life} (hat : s.At e life)
    (hstep : Life.step life x = some life') (hat' : s'.At e life')
    (hothers : ∀ e' ≠ e, ∀ life, s.At e' life → s'.At e' life) : GoesOn s s' [(e, x)] := by
  intro e' l hl
  by_cases he : e' = e
  · subst he
    obtain rfl := at_unique hs hl hat
    rw [partOf_self]
    exact ⟨life', run_cons_some.mpr ⟨life', hstep, rfl⟩, hat'⟩
  · rw [partOf_of_ne (Ne.symm he)]
    exact ⟨l, rfl, hothers e' he l hl⟩

/-- The call has no entry it could pass to `fn`. -/
def Phase.Quiet (p : Phase) : Prop := ∀ e, p ≠ .taken e ∧ p ≠ .running e

theorem at_setCall (hold : ∀ old, s.calls c = some old → old.phase ≠ .taken e ∧ old.phase ≠ .running e)
    (hnew : call.phase ≠ .taken e ∧ call.phase ≠ .running e) (h : s.At e life) :
    (s.setCall c call).At e life :=
  h.frame Iff.rfl Iff.rfl (inPhase_setCall (fun old ho => (hold old ho).1) hnew.1)
    (inPhase_setCall (fun old ho => (hold old ho).2) hnew.2)

theorem settled_quiet : Phase.settled.Quiet := fun _ => ⟨nofun, nofun⟩

theorem discarding_quiet (e : Nat) : (Phase.discarding e).Quiet := fun _ => ⟨nofun, nofun⟩

theorem goesOn_quiet (hold : ∀ old, s.calls c = some old → old.phase.Quiet)
    (hnew : call.phase.Quiet) : GoesOn s (s.setCall c call) [] :=
  goesOn_nil fun e _ => at_setCall (fun old ho => hold old ho e) (hnew e)

-- ---------------------------------------------------------------------------
-- The steps
-- ---------------------------------------------------------------------------

/-- A call that goes from one phase with an entry to another one; the other entries stay
where they are. -/
theorem at_other (hcall : s.calls c = some call) (hentry : call.phase.entry? = some e)
    (hnew : ∀ e' ≠ e, call'.phase ≠ .taken e' ∧ call'.phase ≠ .running e') {e' : Nat} (he : e' ≠ e)
    (h : s.At e' life) : (s.setCall c call').At e' life := by
  refine at_setCall (fun old ho => ?_) (hnew e' he) h
  obtain rfl := Option.some.inj (hcall.symm.trans ho)
  constructor
  · intro hphase
    rw [hphase] at hentry
    exact he (Option.some.inj hentry)
  · intro hphase
    rw [hphase] at hentry
    exact he (Option.some.inj hentry)

theorem idle_bucket {url : JsString} {bucket : List Nat} (h : e ∈ bucket ↔ e ∈ s.idle url) :
    (s.setIdle url bucket).Idle e ↔ s.Idle e := by
  refine exists_congr fun url' => ?_
  rw [idle_setIdle]
  split
  · next heq => rw [heq, h]
  · rfl

theorem goesOn_take (hs : s.Ok maxIdle) {url : JsString} {headers : Headers}
    (hnew : s.calls c = none) (htake : s.take url = (s', some e)) :
    GoesOn s (s'.setCall c ⟨url, headers, .taken e⟩) [(e, .taken)] := by
  unfold Pool.take at htake
  split at htake
  · next e' hlast =>
    cases htake
    have hbucket : s.idle url = (s.idle url).dropLast ++ [e] :=
      (List.dropLast_append_getLast? e hlast).symm
    have hidle : s.At e .idle := ⟨url, List.mem_of_getLast? hlast⟩
    refine goesOn_one hs hidle rfl (inPhase_setCall_self _ c _) fun e' he life h => ?_
    have hsame : (s.setIdle url (s.idle url).dropLast).Idle e' ↔ s.Idle e' := by
      apply idle_bucket
      conv_rhs => rw [hbucket]
      rw [List.mem_append, List.mem_singleton, or_iff_left he]
    have htaken : (s.setIdle url (s.idle url).dropLast).At e' life :=
      h.frame Iff.rfl hsame Iff.rfl Iff.rfl
    refine at_setCall (fun old hold => ?_) ⟨fun heq => ?_, nofun⟩ htaken
    · rw [show (s.setIdle url (s.idle url).dropLast).calls c = s.calls c from rfl, hnew] at hold
      cases hold
    · cases heq
      exact he rfl
  · cases htake

theorem goesOn_built (hs : s.Ok maxIdle) (hcall : s.calls c = some call)
    (hphase : call.phase = .building) :
    GoesOn s ((s.build call.url call.headers).setCall c { call with phase := .taken s.built })
      [(s.built, .built)] := by
  have hunbuilt : s.At s.built .unbuilt := le_refl s.built
  refine goesOn_one hs hunbuilt rfl (inPhase_setCall_self _ c _) fun e he life h => ?_
  have hbuilt : (s.build call.url call.headers).At e life := by
    refine h.frame ?_ Iff.rfl Iff.rfl Iff.rfl
    show e < s.built + 1 ↔ e < s.built
    omega
  refine at_setCall (fun old hold => ?_) ⟨fun heq => ?_, nofun⟩ hbuilt
  · obtain rfl : old = call := Option.some.inj (hold.symm.trans hcall)
    rw [hphase]
    exact ⟨nofun, nofun⟩
  · cases heq
    exact he rfl

theorem goesOn_enter (hs : s.Ok maxIdle) (hcall : s.calls c = some call)
    (hphase : call.phase = .taken e) (entry : Entry) :
    GoesOn s ((s.setEntry e entry).setCall c { call with phase := .running e })
      [(e, .entered)] := by
  have hentry : call.phase.entry? = some e := by
    rw [hphase]
    rfl
  have hheld : s.At e .held := ⟨c, call, hcall, hphase⟩
  refine goesOn_one hs hheld rfl (inPhase_setCall_self _ c _) fun e' he life h => ?_
  have hset : (s.setEntry e entry).At e' life := h.frame Iff.rfl Iff.rfl Iff.rfl Iff.rfl
  refine at_other hcall hentry (fun e'' hne => ⟨fun heq => ?_, fun heq => ?_⟩) he hset
  · cases heq
  · cases heq
    exact hne rfl

theorem at_discarded (hs : s.Ok maxIdle) (hcall : s.calls c = some call)
    (hphase : call.phase = .running e)
    (hnew : call'.phase ≠ .taken e ∧ call'.phase ≠ .running e) :
    (s.setCall c call').At e .discarded := by
  have hentry : call.phase.entry? = some e := by
    rw [hphase]
    rfl
  obtain ⟨-, hbuilt, hidle, -⟩ := hs.held hcall hentry
  exact ⟨hbuilt, hidle, inPhase_left hs hcall hentry rfl hnew.1,
    inPhase_left hs hcall hentry rfl hnew.2⟩

theorem goesOn_throws (hs : s.Ok maxIdle) (hcall : s.calls c = some call)
    (hphase : call.phase = .running e) :
    GoesOn s (s.setCall c { call with phase := .discarding e })
      [(e, .failed), (e, .discarded)] := by
  have hentry : call.phase.entry? = some e := by
    rw [hphase]
    rfl
  have hrunning : s.At e .running := ⟨c, call, hcall, hphase⟩
  have hgone : (s.setCall c { call with phase := .discarding e }).At e .discarded :=
    at_discarded hs hcall hphase (discarding_quiet e e)
  intro e' l hl
  by_cases he : e' = e
  · subst he
    obtain rfl := at_unique hs hl hrunning
    refine ⟨.discarded, ?_, hgone⟩
    simp [partOf, run, Life.step]
  · refine ⟨l, ?_, at_other hcall hentry (fun e' _ => discarding_quiet e e') he hl⟩
    simp [partOf, Ne.symm he]

theorem goesOn_returns (hs : s.Ok maxIdle) (hcall : s.calls c = some call)
    (hphase : call.phase = .running e) :
    GoesOn s ((s.setCall c { call with phase := .settled }).give maxIdle e)
      [(e, s.given maxIdle e)] := by
  have hentry : call.phase.entry? = some e := by
    rw [hphase]
    rfl
  have hrunning : s.At e .running := ⟨c, call, hcall, hphase⟩
  have hgone : (s.setCall c { call with phase := .settled }).At e .discarded :=
    at_discarded hs hcall hphase (settled_quiet e)
  have hothers : ∀ e' ≠ e, ∀ life, s.At e' life →
      (s.setCall c { call with phase := .settled }).At e' life := fun e' he life h =>
    at_other hcall hentry (fun e' _ => settled_quiet e') he h
  unfold Pool.give Pool.given
  have hclosed : (s.setCall c { call with phase := .settled }).closed = s.closed := rfl
  rw [hclosed]
  split
  · exact goesOn_one hs hrunning rfl hgone hothers
  · dsimp only
    have hroom : (((s.setCall c { call with phase := .settled }).setEntry e
        { (s.setCall c { call with phase := .settled }).entry e with headers := [] }).idle
          ((s.setCall c { call with phase := .settled }).entry e).url).length =
        (s.idle (s.entry e).url).length := rfl
    rw [hroom]
    split
    · exact goesOn_one hs hrunning rfl hgone hothers
    · refine goesOn_one hs hrunning rfl ?_ fun e' he life h => ?_
      · refine ⟨(s.entry e).url, ?_⟩
        rw [show ((s.setCall c { call with phase := .settled }).entry e).url = (s.entry e).url
          from rfl, idle_setIdle, if_pos rfl]
        exact List.mem_append_right _ (List.mem_singleton_self e)
      · refine (hothers e' he life h).frame Iff.rfl (idle_bucket ?_) Iff.rfl Iff.rfl
        rw [List.mem_append, List.mem_singleton, or_iff_left he]

theorem listed_once (ht : t.Ok maxIdle) : (t.destinations.flatMap t.pool.idle).Nodup := by
  refine List.nodup_flatMap.mpr ⟨fun url _ => ht.pool.idleOnce url, ?_⟩
  refine ht.keys.once.imp fun {url url'} hne => ?_
  refine List.disjoint_left.mpr fun e he he' => hne ?_
  exact (ht.pool.idleUrl url e he).symm.trans (ht.pool.idleUrl url' e he')

theorem mem_listed (ht : t.Ok maxIdle) : e ∈ t.destinations.flatMap t.pool.idle ↔ t.pool.Idle e := by
  rw [List.mem_flatMap]
  constructor
  · rintro ⟨url, -, he⟩
    exact ⟨url, he⟩
  · rintro ⟨url, he⟩
    exact ⟨url, ht.keys.known url (List.ne_nil_of_mem he), he⟩

theorem partOf_map (l : List Nat) (x : Happening) (hl : l.Nodup) :
    partOf e (l.map fun e' => (e', x)) = if e ∈ l then [x] else [] := by
  induction l with
  | nil => rfl
  | cons e' l ih =>
    obtain ⟨hnot, hrest⟩ := List.nodup_cons.mp hl
    rw [List.map_cons, ← List.singleton_append, partOf_append, ih hrest]
    by_cases he : e' = e
    · subst he
      rw [partOf_self, if_neg hnot, if_pos List.mem_cons_self, List.append_nil]
    · rw [partOf_of_ne he, List.nil_append]
      simp only [List.mem_cons, Ne.symm he, false_or]

theorem goesOn_close (ht : t.Ok maxIdle) :
    GoesOn t.pool t.pool.close ((t.destinations.flatMap t.pool.idle).map fun e => (e, .discarded)) := by
  have hempty : ∀ e, ¬ t.pool.close.Idle e := by
    rintro e ⟨url, he⟩
    cases he
  intro e life h
  rw [partOf_map _ _ (listed_once ht)]
  split
  · next hlisted =>
    have hidle : t.pool.At e .idle := (mem_listed ht).mp hlisted
    obtain rfl := at_unique ht.pool h hidle
    have hfree := ht.pool.idleFree e hidle
    refine ⟨.discarded, run_cons_some.mpr ⟨_, rfl, rfl⟩, ht.pool.built e (.inl hidle), hempty e, ?_, ?_⟩
    · rintro ⟨c, call, hcall, hphase⟩
      exact hfree c ⟨call, hcall, by rw [hphase]; rfl⟩
    · rintro ⟨c, call, hcall, hphase⟩
      exact hfree c ⟨call, hcall, by rw [hphase]; rfl⟩
  · next hlisted =>
    refine ⟨life, rfl, h.frame Iff.rfl ?_ Iff.rfl Iff.rfl⟩
    exact iff_of_false (hempty e) fun hidle => hlisted ((mem_listed ht).mpr hidle)

theorem goesOn_step (ht : t.Ok maxIdle) {a : PoolStep} (h : t.pool.step maxIdle a = some s') :
    GoesOn t.pool s' (t.happenings maxIdle a) := by
  have hs := ht.pool
  cases a with
  | withClient c url headers =>
    dsimp only [Pool.step] at h
    split at h
    · cases h
    · next hnew =>
      have hnone : t.pool.calls c = none := Option.not_isSome_iff_eq_none.mp hnew
      unfold Tracked.happenings
      split at h
      · next taken e htake =>
        cases h
        dsimp only
        rw [htake]
        exact goesOn_take hs hnone htake
      · next taken htake =>
        cases h
        dsimp only
        rw [htake]
        refine goesOn_quiet (fun old hold => ?_) fun _ => ⟨nofun, nofun⟩
        rw [hnone] at hold
        cases hold
  | build c =>
    obtain ⟨call, hcall, h⟩ := Option.bind_eq_some_iff.mp h
    split at h
    · next hphase =>
      cases h
      refine goesOn_quiet (fun old hold => ?_) fun _ => ⟨nofun, nofun⟩
      obtain rfl := Option.some.inj (hcall.symm.trans hold)
      rw [hphase]
      exact fun _ => ⟨nofun, nofun⟩
    · cases h
  | built c =>
    obtain ⟨call, hcall, h⟩ := Option.bind_eq_some_iff.mp h
    split at h
    · next hphase =>
      cases h
      exact goesOn_built hs hcall hphase
    · cases h
  | buildFailed c =>
    obtain ⟨call, hcall, h⟩ := Option.bind_eq_some_iff.mp h
    split at h
    · next hphase =>
      cases h
      refine goesOn_quiet (fun old hold => ?_) settled_quiet
      obtain rfl := Option.some.inj (hcall.symm.trans hold)
      rw [hphase]
      exact fun _ => ⟨nofun, nofun⟩
    · cases h
  | enter c =>
    obtain ⟨call, hcall, h⟩ := Option.bind_eq_some_iff.mp h
    split at h
    · next e hphase =>
      cases h
      unfold Tracked.happenings
      dsimp only
      rw [hcall, Option.map_some, hphase]
      exact goesOn_enter hs hcall hphase _
    · cases h
  | returns c =>
    obtain ⟨call, hcall, h⟩ := Option.bind_eq_some_iff.mp h
    split at h
    · next e hphase =>
      cases h
      unfold Tracked.happenings
      dsimp only
      rw [hcall, Option.map_some, hphase]
      exact goesOn_returns hs hcall hphase
    · cases h
  | throws c =>
    obtain ⟨call, hcall, h⟩ := Option.bind_eq_some_iff.mp h
    split at h
    · next e hphase =>
      cases h
      unfold Tracked.happenings
      dsimp only
      rw [hcall, Option.map_some, hphase]
      exact goesOn_throws hs hcall hphase
    · cases h
  | discarded c =>
    obtain ⟨call, hcall, h⟩ := Option.bind_eq_some_iff.mp h
    split at h
    · next e hphase =>
      cases h
      refine goesOn_quiet (fun old hold => ?_) settled_quiet
      obtain rfl := Option.some.inj (hcall.symm.trans hold)
      rw [hphase]
      exact discarding_quiet e
    · cases h
  | close =>
    cases h
    exact goesOn_close ht

theorem Keys.of_subset {destinations : List JsString} (h : Keys destinations s)
    (hclosed : s'.closed = s.closed) (hidle : ∀ url, s.idle url = [] → s'.idle url = []) :
    Keys destinations s' where
  once := h.once
  known := fun url hne => h.known url fun hempty => hne (hidle url hempty)
  closed := by
    intro hc url
    rw [hclosed] at hc
    exact hidle url (h.closed hc url)

theorem Keys.take {destinations : List JsString} (h : Keys destinations s) {url : JsString}
    {taken : Option Nat} (htake : s.take url = (s', taken)) : Keys destinations s' := by
  unfold Pool.take at htake
  split at htake
  · cases htake
    refine h.of_subset rfl fun url' hempty => ?_
    rw [idle_setIdle]
    split
    · next heq => rw [← heq, hempty, List.dropLast_nil]
    · exact hempty
  · cases htake
    exact h

theorem keys_returns (h : Keys t.destinations t.pool) (hcall : t.pool.calls c = some call)
    (hphase : call.phase = .running e) (next : Call) :
    Keys (t.keysAfter maxIdle (.returns c)) ((t.pool.setCall c next).give maxIdle e) := by
  unfold Tracked.keysAfter
  dsimp only
  rw [hcall, Option.map_some, hphase]
  dsimp only
  unfold Pool.given Pool.give
  have hclosed : (t.pool.setCall c next).closed = t.pool.closed := rfl
  have hroom : (((t.pool.setCall c next).setEntry e
      { (t.pool.setCall c next).entry e with headers := [] }).idle
        ((t.pool.setCall c next).entry e).url).length =
      (t.pool.idle (t.pool.entry e).url).length := rfl
  rw [hclosed]
  by_cases hc : t.pool.closed = true
  · rw [if_pos hc, if_pos hc, if_neg (by simp)]
    exact h.of_subset rfl fun _ => id
  · rw [if_neg hc, if_neg hc]
    dsimp only
    rw [hroom]
    by_cases hfull : (t.pool.idle (t.pool.entry e).url).length ≥ maxIdle
    · rw [if_pos hfull, if_pos hfull, if_neg (by simp)]
      exact h.of_subset rfl fun _ => id
    · rw [if_neg hfull, if_neg hfull]
      have hopen : ∀ destinations : List JsString, destinations.Nodup →
          (∀ url ∈ t.destinations, url ∈ destinations) → (t.pool.entry e).url ∈ destinations →
          Keys destinations (((t.pool.setCall c next).setEntry e
            { (t.pool.setCall c next).entry e with headers := [] }).setIdle (t.pool.entry e).url
              (t.pool.idle (t.pool.entry e).url ++ [e])) := by
        intro destinations honce hmore hurl
        refine ⟨honce, fun url hne => ?_, fun hclosed => absurd hclosed hc⟩
        rw [idle_setIdle] at hne
        split at hne
        · next heq => exact heq ▸ hurl
        · exact hmore url (h.known url hne)
      split
      · next hnew =>
        refine hopen _ ?_ (fun url hurl => List.mem_append_left _ hurl)
          (List.mem_append_right _ (List.mem_singleton_self _))
        exact h.once.append (List.nodup_singleton _) (List.disjoint_singleton.mpr hnew.2)
      · next hold =>
        refine hopen _ h.once (fun _ => id) ?_
        by_contra hmissing
        exact hold ⟨rfl, hmissing⟩

theorem keys_step (h : Keys t.destinations t.pool) {a : PoolStep}
    (hstep : t.pool.step maxIdle a = some s') : Keys (t.keysAfter maxIdle a) s' := by
  cases a with
  | withClient c url headers =>
    dsimp only [Pool.step] at hstep
    split at hstep
    · cases hstep
    · split at hstep
      · next taken e htake =>
        cases hstep
        exact (h.take htake).of_subset rfl fun _ => id
      · cases hstep
        exact h.of_subset rfl fun _ => id
  | returns c =>
    obtain ⟨call, hcall, hnext⟩ := Option.bind_eq_some_iff.mp hstep
    split at hnext
    · next e hphase =>
      cases hnext
      exact keys_returns h hcall hphase _
    · cases hnext
  | close =>
    cases hstep
    exact ⟨List.nodup_nil, fun _ hne => absurd rfl hne, fun _ _ => rfl⟩
  | build c | built c | buildFailed c | enter c | throws c | discarded c =>
    obtain ⟨call, hcall, hnext⟩ := Option.bind_eq_some_iff.mp hstep
    split at hnext
    · cases hnext
      exact h.of_subset rfl fun _ => id
    · cases hnext

theorem tracked_step (ht : t.Ok maxIdle) {a : PoolStep} (h : t.step maxIdle a = some t') :
    t'.Ok maxIdle := by
  obtain ⟨pool, hpool, rfl⟩ := Option.map_eq_some_iff.mp h
  refine ⟨ok_step ht.pool hpool, keys_step ht.keys hpool, fun e => ?_⟩
  obtain ⟨life, hlife, hat⟩ := ht.lives e
  obtain ⟨life', hnext, hat'⟩ := goesOn_step ht hpool e life hat
  refine ⟨life', ?_, hat'⟩
  have hhistory : Tracked.history ⟨pool, t.keysAfter maxIdle a, t.log ++ t.happenings maxIdle a⟩ e =
      t.history e ++ partOf e (t.happenings maxIdle a) := partOf_append e _ _
  rw [hhistory, run_append, hlife]
  exact hnext

theorem tracked_created : Tracked.created.Ok maxIdle where
  pool := ok_created
  keys := ⟨List.nodup_nil, fun _ hne => absurd rfl hne, fun _ _ => rfl⟩
  lives := fun e => ⟨.unbuilt, rfl, Nat.zero_le e⟩

end

/-- In every run of the pool: no entry is discarded twice; nothing happens to one once its
discard has begun; one whose `fn` has failed is not passed to `fn` again; and when the
pool is closed and every call has settled, no entry is idle and each that was built has
been discarded once. -/
theorem discarded_once (maxIdle : Nat) (steps : List PoolStep) (t : Tracked)
    (h : run (Tracked.step maxIdle) .created steps = some t) :
    (∀ e, (t.history e).count .discarded ≤ 1) ∧
      (∀ e pre post, t.history e = pre ++ .discarded :: post → post = []) ∧
      (∀ e pre post, t.history e = pre ++ .failed :: post → .entered ∉ post) ∧
      (t.pool.closed = true →
        (∀ c call, t.pool.calls c = some call → call.phase = .settled) →
        (∀ e < t.pool.built, (t.history e).count .discarded = 1) ∧
          ∀ url, t.pool.idle url = []) := by
  have ht : t.Ok maxIdle :=
    run_invariant (Tracked.Ok maxIdle) (fun _ _ _ ht h => tracked_step ht h) tracked_created h
  refine ⟨fun e => ?_, fun e pre post hhistory => ?_, fun e pre post hhistory => ?_,
    fun hclosed hsettled => ⟨fun e hbuilt => ?_, ht.keys.closed hclosed⟩⟩
  · obtain ⟨life, hlife, -⟩ := ht.lives e
    rw [count_discarded hlife nofun]
    split <;> omega
  · obtain ⟨life, hlife, -⟩ := ht.lives e
    rw [hhistory] at hlife
    exact nothing_after_discarded hlife
  · obtain ⟨life, hlife, -⟩ := ht.lives e
    rw [hhistory] at hlife
    obtain rfl | rfl := only_discarded_after_failed hlife
    · exact List.not_mem_nil
    · exact fun hin => nomatch List.mem_singleton.mp hin
  · obtain ⟨life, hlife, hat⟩ := ht.lives e
    rw [count_discarded hlife nofun]
    have hnone : ∀ p, p ≠ .settled → ¬ t.pool.InPhase p := by
      rintro p hp ⟨c, call, hcall, hphase⟩
      exact hp (hphase.symm.trans (hsettled c call hcall))
    cases life with
    | unbuilt => exact absurd hbuilt (Nat.not_lt.mpr hat)
    | held => exact absurd hat (hnone _ nofun)
    | running => exact absurd hat (hnone _ nofun)
    | broken => exact hat.elim
    | idle =>
      obtain ⟨url, he⟩ := hat
      rw [ht.keys.closed hclosed url] at he
      cases he
    | discarded => rfl

def closing : List PoolStep :=
  [.withClient 0 (js "a") [], .build 0, .built 0, .enter 0, .withClient 1 (js "a") [], .build 1,
    .built 1, .enter 1, .returns 0, .close, .returns 1]

theorem discarded_once_closing :
    ∃ t, run (Tracked.step 32) .created closing = some t ∧
      t.history 0 = [.built, .entered, .idled, .discarded] ∧
      t.history 1 = [.built, .entered, .discarded] ∧ ∀ e, (t.history e).count .discarded ≤ 1 := by
  have hend : (run (Tracked.step 32) .created closing).any (fun t =>
      decide (t.history 0 = [.built, .entered, .idled, .discarded] ∧
        t.history 1 = [.built, .entered, .discarded])) = true := by
    decide +kernel
  obtain ⟨t, hrun, ht⟩ := (Option.any_eq_true _ _).mp hend
  obtain ⟨h0, h1⟩ := of_decide_eq_true ht
  exact ⟨t, hrun, h0, h1, (discarded_once 32 closing t hrun).1⟩

end McpGateway.Runtime
