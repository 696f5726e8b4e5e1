import McpGateway.RateLimit.Available
import McpGateway.RateLimit.ScriptCache

/-!
# Every call takes effect once

A call that Redis has run the script for is waiting for that very answer or has
returned it, and no other call has an execution under its name. The executions
are a sequential run on the keys.
-/

namespace McpGateway.RateLimit

open Js Keyed Transition

namespace Cluster

def executionsOf (s : Cluster) (id : Nat) : List ScriptExecution :=
  s.executions.filter fun e => e.id = id

def Accounted (executions : List ScriptExecution) (id : Nat) (c : Consuming) : Prop :=
  match c.phase with
  | .evalshaRan raw | .evalRan raw => ∃ time, executions = [⟨id, ⟨c.call, time⟩, raw⟩]
  | .returned verdict =>
    ∃ time raw, executions = [⟨id, ⟨c.call, time⟩, raw⟩] ∧ verdict = c.call.verdict raw
  | _ => executions = []

/-- The executions are a sequential run, and each belongs to the call it was made for. -/
structure Consistent (keys : Keyspace) (s : Cluster) : Prop where
  stored : s.keys = final TimedCall.bucketKey TimedCall.act keys (s.executions.map (·.call))
  sequential : s.executions.map (fun e => (e.call, e.call.verdict e.raw)) =
    verdicts keys (s.executions.map (·.call))
  started : ∀ id c, s.calls id = some c → Accounted (s.executionsOf id) id c
  idle : ∀ id, s.calls id = none → s.executionsOf id = []

section
variable {keys : Keyspace} {s : Cluster} {id : Nat} {c : Consuming}

theorem consistent_start (cached : Bool) (keys : Keyspace) (limiters : Nat → TokenBucketLimiter) :
    Consistent keys (start cached keys limiters) where
  stored := rfl
  sequential := rfl
  started := fun _ _ h => nomatch h
  idle := fun _ _ => rfl

theorem Consistent.setCall (h : Consistent keys s)
    (hc : Accounted (s.executionsOf id) id c) : Consistent keys (s.setCall id c) where
  stored := h.stored
  sequential := h.sequential
  started := by
    intro j d hd
    by_cases hj : j = id
    · subst hj
      obtain rfl : c = d := by simpa [Cluster.setCall] using hd
      exact hc
    · exact h.started j d (by simpa [Cluster.setCall, hj] using hd)
  idle := by
    intro j hnone
    by_cases hj : j = id
    · simp [Cluster.setCall, hj] at hnone
    · exact h.idle j (by simpa [Cluster.setCall, hj] using hnone)

theorem Consistent.setLimiter (h : Consistent keys s) (i : Nat) (l : TokenBucketLimiter) :
    Consistent keys (s.setLimiter i l) := ⟨h.stored, h.sequential, h.started, h.idle⟩

theorem Consistent.setCached (h : Consistent keys s) (cached : Bool) :
    Consistent keys { s with cached } := ⟨h.stored, h.sequential, h.started, h.idle⟩

theorem Consistent.execute (h : Consistent keys s) (hnone : s.executionsOf id = [])
    (time : ServerTime) (answered : Reply → ConsumePhase)
    (hanswered : ∀ raw, Accounted [⟨id, ⟨c.call, time⟩, raw⟩] id { c with phase := answered raw }) :
    Consistent keys (s.execute id c time answered) := by
  obtain ⟨slot, raw, hrun⟩ : ∃ slot raw, runScript c.call.argv time (s.keys c.call.key) = (slot, raw) :=
    ⟨_, _, rfl⟩
  have hact : TimedCall.act ⟨c.call, time⟩ (s.keys c.call.key) = (slot, c.call.verdict raw) := by
    simp [TimedCall.act, hrun]
  let e : ScriptExecution := ⟨id, ⟨c.call, time⟩, raw⟩
  let s' : Cluster := { s with
    keys := Function.update s.keys c.call.key slot
    executions := s.executions ++ [e] }
  have hexecute : s.execute id c time answered = s'.setCall id { c with phase := answered raw } := by
    simp [Cluster.execute, hrun, s', e]
  rw [hexecute]
  have hother (j : Nat) (hj : j ≠ id) : s'.executionsOf j = s.executionsOf j := by
    simp [executionsOf, s', e, hj.symm]
  have hown : s'.executionsOf id = [e] := by
    simpa [executionsOf, s', e] using hnone
  refine ⟨?_, ?_, ?_, ?_⟩
  · simp only [Cluster.setCall, s', List.map_append, List.map_cons, List.map_nil, final_append]
    rw [← h.stored]
    exact congrArg (Function.update s.keys c.call.key) (congrArg Prod.fst hact).symm
  · have hverdict : (TimedCall.act e.call (s.keys e.call.bucketKey)).2 = c.call.verdict raw :=
      congrArg Prod.snd hact
    have hstart := h.sequential
    simp only [Cluster.setCall, s', verdicts, List.map_append, List.map_cons, List.map_nil,
      answers_append, answers, ← h.stored, hverdict] at hstart ⊢
    rw [hstart]
  · intro j d hd
    by_cases hj : j = id
    · subst hj
      obtain rfl : { c with phase := answered raw } = d := by simpa [Cluster.setCall] using hd
      exact hown.symm ▸ hanswered raw
    · have hold := h.started j d (by simpa [Cluster.setCall, s', hj] using hd)
      rw [← hother j hj] at hold
      exact hold
  · intro j hj
    by_cases hji : j = id
    · simp [Cluster.setCall, hji] at hj
    · have hold := h.idle j (by simpa [Cluster.setCall, s', hji] using hj)
      rw [← hother j hji] at hold
      exact hold

theorem step_consistent {event : ClusterEvent} {s' : Cluster} (h : Consistent keys s)
    (hstep : step s event = some s') : Consistent keys s' := by
  cases event with
  | consume id i call =>
    simp only [step] at hstep
    cases hcall : s.calls id with
    | some c => simp [hcall] at hstep
    | none =>
      have hidle := h.idle id hcall
      simp only [hcall] at hstep
      split at hstep
      · cases hstep
        exact h.setCall hidle
      · cases hstep
        exact (h.setLimiter i _).setCall hidle
  | resume id =>
    simp only [step] at hstep
    split at hstep
    · next i call number hcall =>
      have hnone := h.started id _ hcall
      split at hstep
      · cases hstep
        exact h.setCall hnone
      · cases hstep
    · cases hstep
  | runEvalsha id time =>
    simp only [step] at hstep
    split at hstep
    · next i call hcall =>
      have hnone := h.started id _ hcall
      split at hstep
      · cases hstep
        exact h.execute hnone time .evalshaRan fun raw => ⟨time, rfl⟩
      · cases hstep
        exact h.setCall hnone
    · cases hstep
  | evalshaAnswered id =>
    simp only [step] at hstep
    split at hstep
    · next i call raw hcall =>
      obtain ⟨time, hran⟩ := h.started id _ hcall
      cases hstep
      exact h.setCall ⟨time, raw, hran, rfl⟩
    · next i call hcall =>
      have hnone := h.started id _ hcall
      cases hstep
      apply (h.setLimiter i _).setCall
      cases (s.limiters i).scriptSource <;> exact hnone
    · cases hstep
  | sourceRead id =>
    simp only [step] at hstep
    split at hstep
    · next i call hcall =>
      have hnone := h.started id _ hcall
      cases hstep
      exact (h.setLimiter i _).setCall hnone
    · cases hstep
  | runEval id time =>
    simp only [step] at hstep
    split at hstep
    · next i call hcall =>
      cases hstep
      exact (h.setCached true).execute (h.started id _ hcall) time .evalRan fun raw => ⟨time, rfl⟩
    · cases hstep
  | evalAnswered id =>
    simp only [step] at hstep
    split at hstep
    · next i call raw hcall =>
      obtain ⟨time, hran⟩ := h.started id _ hcall
      cases hstep
      exact (h.setLimiter i _).setCall ⟨time, raw, hran, rfl⟩
    · cases hstep
  | loadRead i | loadAnswered i | loadFinished i =>
    simp only [step] at hstep
    split at hstep
    · cases hstep
      exact h.setLimiter i _
    · cases hstep
  | runLoad i =>
    simp only [step] at hstep
    split at hstep
    · cases hstep
      exact (h.setLimiter i _).setCached true
    · cases hstep
  | scriptFlush =>
    cases hstep
    exact h.setCached false

end

theorem run_consistent {events : List ClusterEvent} (cached : Bool) (keys : Keyspace)
    (limiters : Nat → TokenBucketLimiter) {s : Cluster}
    (h : run step (start cached keys limiters) events = some s) : Consistent keys s :=
  run_invariant (Consistent keys) (fun _ _ _ hs hstep => step_consistent hs hstep)
    (consistent_start cached keys limiters) h

-- ---------------------------------------------------------------------------
-- A burst on a fresh key
-- ---------------------------------------------------------------------------

def admits (s : Cluster) (id : Nat) : Bool :=
  match s.calls id with
  | some ⟨_, _, .returned verdict⟩ => verdict.allowed
  | _ => false

end Cluster

section
variable {config : BucketConfig} {key : JsString}

/-- A call of cost 1 on the key, with this configuration. -/
def IsUnitCall (key : JsString) (config : BucketConfig) (c : ConsumeCall) : Prop :=
  c.key = key ∧ c.config = config ∧ c.cost = 1

theorem available_of_no_refill (hrefill : config.refillTokens = 0) (t : ℚ) (b : Bucket) :
    available config t (some b) = min (config.capacity : ℚ) b.tokens := by
  simp [available_some, BucketConfig.rate, hrefill]

/-- Calls of cost 1, none of them refilled or reset, take the tokens that are there. -/
theorem unit_calls_admitted (hrefill : config.refillTokens = 0) (calls : List TimedCall)
    (keys : Keyspace) (tokens : Nat) (hwithin : tokens ≤ config.capacity)
    (hunit : ∀ c ∈ calls, IsUnitCall key config c.toConsumeCall)
    (hsoon : ∀ c ∈ calls, ∀ d ∈ calls, d.time.ms - c.time.ms < ttlMs config)
    (hfound : ∀ c ∈ calls, ∀ t, available config t (live c.time (keys key)) = tokens) :
    ((verdicts keys calls).filter (·.2.allowed)).length = min calls.length tokens := by
  induction calls generalizing keys tokens with
  | nil => simp [verdicts, answers]
  | cons c calls ih =>
    obtain ⟨hkey, hconfig, hcost⟩ := hunit c List.mem_cons_self
    have hnow := hfound c List.mem_cons_self c.reading
    have hallowed := allowed_iff c (keys key)
    rw [hconfig, hnow, hcost] at hallowed
    obtain ⟨left, hleft, hcount⟩ : ∃ left : Nat,
        (if (c.act (keys key)).2.allowed then (tokens : ℚ) - 1 else tokens) = left ∧
          left ≤ config.capacity ∧
          (if (c.act (keys key)).2.allowed then 1 else 0) + min calls.length left =
            min (calls.length + 1) tokens := by
      cases tokens with
      | zero =>
        have hno : (c.act (keys key)).2.allowed = false :=
          Bool.eq_false_iff.mpr fun hyes => absurd (hallowed.mp hyes) (by norm_num)
        exact ⟨0, by simp [hno]⟩
      | succ n =>
        have hyes : (c.act (keys key)).2.allowed = true := hallowed.mpr (by simp)
        exact ⟨n, by simp [hyes], by omega, by simp [hyes]; omega⟩
    have hrest := ih (next TimedCall.bucketKey TimedCall.act keys c) left hcount.1
      (fun d hd => hunit d (List.mem_cons_of_mem _ hd))
      (fun d hd e he => hsoon d (List.mem_cons_of_mem _ hd) e (List.mem_cons_of_mem _ he))
      (by
        intro d hd t
        have hslot : next TimedCall.bucketKey TimedCall.act keys c key = (c.act (keys key)).1 := by
          rw [← hkey]
          exact next_self keys c
        have hlive : d.time.ms ≤ c.time.ms + ttlMs c.config := by
          rw [hconfig]
          linarith [hsoon c List.mem_cons_self d (List.mem_cons_of_mem _ hd)]
        rw [hslot, live_act_of_le c (keys key) hlive, available_of_no_refill hrefill, hcost, hconfig,
          hnow, hleft]
        exact min_eq_right (Nat.cast_le.mpr hcount.1))
    have hcell : keys (TimedCall.bucketKey c) = keys key := congrArg keys hkey
    rw [verdicts, answers, hcell]
    change ((verdicts _ _).filter _).length = _ at hrest
    have hsplit := hcount.2
    cases hyes : (c.act (keys key)).2.allowed <;> simp [hyes] at hsplit ⊢ <;>
      simp [verdicts] at hrest <;> omega

end

namespace Cluster

section
variable {keys : Keyspace} {s : Cluster}

/-- Every execution is the only one of a call, with the arguments of that call. -/
theorem Consistent.execution (h : Consistent keys s) {e : ScriptExecution}
    (he : e ∈ s.executions) :
    ∃ c, s.calls e.id = some c ∧ c.call = e.call.toConsumeCall ∧ s.executionsOf e.id = [e] := by
  have hmem : e ∈ s.executionsOf e.id := List.mem_filter.mpr ⟨he, by simp⟩
  cases hcall : s.calls e.id with
  | none =>
    rw [h.idle e.id hcall] at hmem
    cases hmem
  | some c =>
    have hacc := h.started e.id c hcall
    have hsingle : ∃ time raw, s.executionsOf e.id = [⟨e.id, ⟨c.call, time⟩, raw⟩] := by
      unfold Accounted at hacc
      split at hacc
      · obtain ⟨time, hran⟩ := hacc
        exact ⟨time, _, hran⟩
      · obtain ⟨time, hran⟩ := hacc
        exact ⟨time, _, hran⟩
      · obtain ⟨time, raw, hran, -⟩ := hacc
        exact ⟨time, raw, hran⟩
      · rw [hacc] at hmem
        cases hmem
    obtain ⟨time, raw, hran⟩ := hsingle
    rw [hran, List.mem_singleton] at hmem
    exact ⟨c, rfl, by rw [hmem], by rw [hran, ← hmem]⟩

theorem Consistent.nodup (h : Consistent keys s) : (s.executions.map (·.id)).Nodup := by
  rw [List.nodup_iff_count_eq_one]
  intro id hid
  obtain ⟨e, he, rfl⟩ := List.mem_map.mp hid
  obtain ⟨-, -, -, hsingle⟩ := h.execution he
  have hcount : (s.executions.map (·.id)).count e.id = (s.executionsOf e.id).length := by
    simp [List.count, List.countP_eq_length_filter, executionsOf, List.filter_map,
      Function.comp_def, beq_eq_decide]
  rw [hcount, hsingle, List.length_singleton]

/-- The executions under a key answer what the calls under it alone are answered. -/
theorem Consistent.under (h : Consistent keys s) (key : JsString) :
    (s.executions.filter fun e => e.call.key = key).map
        (fun e => (e.call, e.call.verdict e.raw)) =
      verdicts keys ((s.executions.filter fun e => e.call.key = key).map (·.call)) := by
  have hanswers : (verdicts keys (s.executions.map (·.call))).filter
        (fun a => a.1.bucketKey = key) =
      verdicts keys ((s.executions.map (·.call)).filter fun c => c.bucketKey = key) :=
    answers_filter keys (s.executions.map (·.call)) key
  rw [← h.sequential, List.filter_map, List.filter_map] at hanswers
  exact hanswers

/-- Calls of cost 1 that have all returned, and are all there were on a fresh key
that does not refill. -/
theorem Consistent.burst (h : Consistent keys s) (key : JsString) (config : BucketConfig)
    (ids : List Nat) (hrefill : config.refillTokens = 0) (hfresh : keys key = none)
    (hids : ids.Nodup)
    (hreturned : ∀ id ∈ ids, ∃ i call verdict,
      s.calls id = some ⟨i, call, .returned verdict⟩ ∧ IsUnitCall key config call)
    (hall : ∀ id c, s.calls id = some c → c.call.key = key → id ∈ ids)
    (hsoon : ∀ e ∈ s.executions, ∀ e' ∈ s.executions, e.call.key = key → e'.call.key = key →
      e'.call.time.ms - e.call.time.ms < ttlMs config) :
    (ids.filter s.admits).length = min ids.length config.capacity := by
  let onKey := s.executions.filter fun e => e.call.key = key
  -- each of the calls has one execution on the key, and there are no others
  have hexecution (id : Nat) (hid : id ∈ ids) : ∃ e ∈ onKey, e.id = id ∧
      IsUnitCall key config e.call.toConsumeCall ∧
      s.admits id = (e.call.verdict e.raw).allowed := by
    obtain ⟨i, call, verdict, hcall, hunit⟩ := hreturned id hid
    obtain ⟨time, raw, hran, hverdict⟩ := h.started id _ hcall
    have hmem : (⟨id, ⟨call, time⟩, raw⟩ : ScriptExecution) ∈ s.executionsOf id := by
      rw [hran]
      exact List.mem_singleton_self _
    refine ⟨_, List.mem_filter.mpr ⟨(List.mem_filter.mp hmem).1, decide_eq_true hunit.1⟩, rfl,
      hunit, ?_⟩
    simp [admits, hcall, hverdict]
  have hown (e : ScriptExecution) (he : e ∈ onKey) : e.id ∈ ids ∧
      IsUnitCall key config e.call.toConsumeCall ∧
      s.admits e.id = (e.call.verdict e.raw).allowed := by
    obtain ⟨hexec, hkey⟩ := List.mem_filter.mp he
    obtain ⟨c, hcall, hc, hsingle⟩ := h.execution hexec
    have hkey' : c.call.key = key := by
      rw [hc]
      exact of_decide_eq_true hkey
    have hid := hall e.id c hcall hkey'
    obtain ⟨e', he', hid', hunit, hadmits⟩ := hexecution e.id hid
    have hsame : e' ∈ s.executionsOf e.id :=
      List.mem_filter.mpr ⟨(List.mem_filter.mp he').1, decide_eq_true hid'⟩
    rw [hsingle, List.mem_singleton] at hsame
    subst hsame
    exact ⟨hid, hunit, hadmits⟩
  have hnodup : (onKey.map (·.id)).Nodup := h.nodup.sublist (List.filter_sublist.map _)
  have hperm : (onKey.map (·.id)).Perm ids := by
    apply (List.perm_ext_iff_of_nodup hnodup hids).mpr
    intro id
    constructor
    · intro hid
      obtain ⟨e, he, rfl⟩ := List.mem_map.mp hid
      exact (hown e he).1
    · intro hid
      obtain ⟨e, he, rfl, -⟩ := hexecution id hid
      exact List.mem_map_of_mem he
  have hcount := unit_calls_admitted hrefill (onKey.map (·.call)) keys config.capacity (le_refl _)
    (by
      intro c hc
      obtain ⟨e, he, rfl⟩ := List.mem_map.mp hc
      exact (hown e he).2.1)
    (by
      intro c hc d hd
      obtain ⟨e, he, rfl⟩ := List.mem_map.mp hc
      obtain ⟨e', he', rfl⟩ := List.mem_map.mp hd
      exact hsoon e (List.mem_filter.mp he).1 e' (List.mem_filter.mp he').1
        (hown e he).2.1.1 (hown e' he').2.1.1)
    (by
      intro c _ t
      simp [hfresh, live])
  rw [← h.under key, List.filter_map, List.length_map, List.length_map] at hcount
  rw [← (hperm.filter _).length_eq, ← hperm.length_eq, List.filter_map, List.length_map,
    List.length_map]
  refine Eq.trans (congrArg List.length (List.filter_congr fun e he => ?_)) hcount
  exact (hown e he).2.2

end

/-- Whatever order the steps of the calls, of the loads and of SCRIPT FLUSH are
taken in: a verdict is that of the one execution of the script on its call's
arguments, every execution is a call's, and the verdicts are those of a
sequential run. -/
theorem consumed_exactly_once (cached : Bool) (keys : Keyspace)
    (limiters : Nat → TokenBucketLimiter) (events : List ClusterEvent) (s : Cluster)
    (h : run step (start cached keys limiters) events = some s) :
    (∀ id i call verdict, s.calls id = some ⟨i, call, .returned verdict⟩ →
        ∃ time raw, s.executionsOf id = [⟨id, ⟨call, time⟩, raw⟩] ∧ verdict = call.verdict raw) ∧
      (∀ e ∈ s.executions, ∃ c, s.calls e.id = some c ∧ c.call = e.call.toConsumeCall ∧
        s.executionsOf e.id = [e]) ∧
      s.executions.map (fun e => (e.call, e.call.verdict e.raw)) =
        verdicts keys (s.executions.map (·.call)) ∧
      ∀ (key : JsString) (config : BucketConfig) (ids : List Nat), config.refillTokens = 0 →
        keys key = none → ids.Nodup →
        (∀ id ∈ ids, ∃ i call verdict,
          s.calls id = some ⟨i, call, .returned verdict⟩ ∧ IsUnitCall key config call) →
        (∀ id c, s.calls id = some c → c.call.key = key → id ∈ ids) →
        (∀ e ∈ s.executions, ∀ e' ∈ s.executions, e.call.key = key → e'.call.key = key →
          e'.call.time.ms - e.call.time.ms < ttlMs config) →
        (ids.filter s.admits).length = min ids.length config.capacity := by
  have hs := run_consistent cached keys limiters h
  refine ⟨?_, fun e he => hs.execution he, hs.sequential, ?_⟩
  · intro id i call verdict hcall
    exact hs.started id _ hcall
  · intro key config ids hrefill hfresh hids hreturned hall hsoon
    exact hs.burst key config ids hrefill hfresh hids hreturned hall hsoon

def tenantCall : ConsumeCall :=
  ⟨⟨.tenant, js "acme-corp", none, none⟩, ⟨1, 0, 1000, none⟩, 1, none⟩

/-- Two limiters and a bucket of one token: the first call loads the script, which is
flushed before Redis gets its EVALSHA; the second finds it there again. -/
def flushedBetween : List ClusterEvent :=
  [.consume 0 0 tenantCall, .loadRead 0, .runLoad 0, .loadAnswered 0, .loadFinished 0, .resume 0,
    .consume 1 1 tenantCall, .scriptFlush, .runEvalsha 0 ⟨1, 0⟩, .evalshaAnswered 0, .runEval 0 ⟨1, 0⟩,
    .loadRead 1, .runLoad 1, .evalAnswered 0, .loadAnswered 1, .loadFinished 1, .resume 1,
    .runEvalsha 1 ⟨2, 0⟩, .evalshaAnswered 1]

theorem flushedBetween_runs :
    (run step (start false (fun _ => none) fun _ => {}) flushedBetween).isSome = true := by
  decide +kernel

/-- In that run one of the two calls is admitted. -/
theorem consumed_exactly_once_flushed :
    let s := (run step (start false (fun _ => none) fun _ => {}) flushedBetween).get
      flushedBetween_runs
    (∀ id i call verdict, s.calls id = some ⟨i, call, .returned verdict⟩ →
        ∃ time raw, s.executionsOf id = [⟨id, ⟨call, time⟩, raw⟩] ∧ verdict = call.verdict raw) ∧
      ([0, 1].filter s.admits).length = min 2 1 := by
  intro s
  obtain ⟨honce, -, -, hburst⟩ := consumed_exactly_once false (fun _ => none) (fun _ => {})
    flushedBetween s (Option.some_get flushedBetween_runs).symm
  refine ⟨honce, ?_⟩
  have hunit : IsUnitCall tenantCall.key tenantCall.config tenantCall := ⟨rfl, rfl, rfl⟩
  have hfirst : s.calls 0 = some ⟨0, tenantCall, .returned (tenantCall.verdict ⟨1, 0, 0, 1⟩)⟩ := by
    decide +kernel
  have hsecond : s.calls 1 =
      some ⟨1, tenantCall, .returned (tenantCall.verdict ⟨0, 0, 60000, 1⟩)⟩ := by
    decide +kernel
  have hsoon : ∀ e ∈ s.executions, ∀ e' ∈ s.executions,
      e'.call.time.ms - e.call.time.ms < ttlMs tenantCall.config := by
    decide +kernel
  apply hburst tenantCall.key tenantCall.config [0, 1] rfl rfl (by decide)
  · intro id hid
    rcases List.mem_pair.mp hid with rfl | rfl
    · exact ⟨_, _, _, hfirst, hunit⟩
    · exact ⟨_, _, _, hsecond, hunit⟩
  · intro id c hcall _
    match id with
    | 0 | 1 => simp
    | n + 2 => cases hcall
  · exact fun e he e' he' _ _ => hsoon e he e' he'

end Cluster

end McpGateway.RateLimit
