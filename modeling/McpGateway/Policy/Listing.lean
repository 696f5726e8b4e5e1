import McpGateway.Policy.Edits
import McpGateway.Policy.Malformed

/-!
# The list of rules

The list is sorted by priority alone, so rules of one priority stay as the file has
them; the evaluation sorts those by id.
-/

namespace McpGateway.Policy

open Js Shared

structure ListedRule where
  id : JsString
  priority : Nat
  effect : Effect
  description : JsString
  reason : Option JsString
  rateTier : Option JsString
  «match» : Condition

def ListedRule.of (rule : Rule) : ListedRule where
  id := rule.id
  priority := rule.priority
  effect := rule.effect
  description := trim rule.description
  reason := rule.reason
  rateTier := rule.rateTier
  «match» := rule.match

structure RuleListing where
  bundle : JsString
  defaultEffect : Decision
  rules : List ListedRule

def sortedByPriority (rules : List Rule) : List Rule :=
  rules.mergeSort fun a b => decide ((a.priority : ℤ) - b.priority ≤ 0)

/-- What `policy.list_rules` returns. -/
def listRules (bundle : Bundle) : RuleListing where
  bundle := bundle.name
  defaultEffect := bundle.defaultEffect
  rules := (sortedByPriority bundle.rules).map ListedRule.of

-- ---------------------------------------------------------------------------
-- What a reader of the list expects
-- ---------------------------------------------------------------------------

def ListedRule.decides (engine : Engine) (input : EvaluationInput) (rule : ListedRule) : Bool :=
  match evaluateCondition engine input rule.match with
  | .ok matched => matched && rule.effect != .annotate
  | .error _ => false

def RuleListing.ids (listing : RuleListing) : List JsString := listing.rules.map ListedRule.id

/-- The evaluation reads the rules from the front of the list, and the first that decides on the
list is the one that decided. -/
structure Explains (engine : Engine) (listing : RuleListing) (input : EvaluationInput)
    (result : PolicyResult) : Prop where
  trace : result.trace.map RuleTraceEntry.ruleId <+: listing.ids
  decided : ∀ rule, listing.rules.find? (ListedRule.decides engine input) = some rule →
    result.ruleId = rule.id ∧ rule.effect = .decide result.decision
  default : listing.rules.find? (ListedRule.decides engine input) = none →
    result.ruleId = listing.bundle ++ js ".default" ∧ result.decision = listing.defaultEffect

structure ListsAsEvaluated (engine : Engine) (bundle : Bundle) : Prop where
  order : (listRules bundle).ids = (ordered engine bundle.rules).map Rule.id
  explains : ∀ input result, evaluate engine bundle input = .ok result →
    Explains engine (listRules bundle) input result

/-- Rules of one priority stand in the file by ascending id. -/
def TiesAscend (engine : Engine) (rules : List Rule) : Prop :=
  rules.Pairwise fun a b => a.priority = b.priority → engine.localeCompare a.id b.id ≤ 0

-- ---------------------------------------------------------------------------
-- The two orders
-- ---------------------------------------------------------------------------

section
variable {engine : Engine} {rules : List Rule}

theorem byPriority_of_tie {a b : Rule} (h : a.priority = b.priority) :
    byPriority engine a b = engine.localeCompare a.id b.id := if_pos h

theorem priority_le {a b : Rule} (h : byPriority engine a b ≤ 0) : a.priority ≤ b.priority := by
  by_contra hlt
  rw [byPriority, if_neg (by omega)] at h
  omega

theorem ordered_stable (hlocale : LocalePreorder engine) :
    StableSort (fun a b => decide (byPriority engine a b ≤ 0)) rules (ordered engine rules) :=
  stableSort_mergeSort (notBehind_total hlocale) (notBehind_trans hlocale)

theorem sortedByPriority_stable :
    StableSort (fun a b : Rule => decide ((a.priority : ℤ) - b.priority ≤ 0)) rules
      (sortedByPriority rules) := by
  apply stableSort_mergeSort
  · intro a b
    simp only [Bool.or_eq_true, decide_eq_true_eq]
    omega
  · intro a b c hab hbc
    rw [decide_eq_true_eq] at hab hbc ⊢
    omega

/-- Rules of one priority that ascend in the file are evaluated in the order of the file. -/
theorem sortedByPriority_eq (hlocale : LocalePreorder engine) (h : TiesAscend engine rules) :
    sortedByPriority rules = ordered engine rules := by
  have hsorted : StableSort (fun a b => decide (byPriority engine a b ≤ 0)) rules
      (ordered engine rules) := ordered_stable hlocale
  apply StableSort.unique (fun a => by simp) sortedByPriority_stable
  refine ⟨hsorted.perm, hsorted.ordered.imp fun hab => ?_, fun a _ => ?_⟩
  · have hle := priority_le (of_decide_eq_true hab)
    exact decide_eq_true (by omega)
  · have hsame (b : Rule) : (decide ((a.priority : ℤ) - b.priority ≤ 0) &&
        decide ((b.priority : ℤ) - a.priority ≤ 0)) = decide (a.priority = b.priority) := by
      rw [← Bool.decide_and]
      exact decide_eq_decide.mpr (by omega)
    simp only [hsame]
    -- the rules of the priority are sorted already
    have hties := h.filter fun b => decide (a.priority = b.priority)
    have hclass : (rules.filter fun b => decide (a.priority = b.priority)).Pairwise fun b c =>
        decide (byPriority engine b c ≤ 0) = true := by
      refine hties.imp_of_mem fun {b c} hb hc hbc => ?_
      have hpb := of_decide_eq_true (List.mem_filter.mp hb).2
      have hpc := of_decide_eq_true (List.mem_filter.mp hc).2
      have hequal : b.priority = c.priority := hpb.symm.trans hpc
      rw [byPriority_of_tie hequal]
      exact decide_eq_true (hbc hequal)
    have hkept : StableSort (fun b c => decide (byPriority engine b c ≤ 0)) _
        (ordered engine (rules.filter fun b => decide (a.priority = b.priority))) :=
      ordered_stable hlocale
    have hself : ordered engine (rules.filter fun b => decide (a.priority = b.priority)) =
        rules.filter fun b => decide (a.priority = b.priority) := List.mergeSort_of_pairwise hclass
    have hrefl (b : Rule) : decide (byPriority engine b b ≤ 0) = true := by
      simpa using notBehind_total hlocale b b
    rw [(hsorted.filter _).unique hrefl hkept, hself]

theorem rules_eq_of_ids {listed listed' : List Rule} (hids : (rules.map Rule.id).Nodup)
    (hlisted : ∀ rule ∈ listed, rule ∈ rules) (hlisted' : ∀ rule ∈ listed', rule ∈ rules)
    (h : listed.map Rule.id = listed'.map Rule.id) : listed = listed' := by
  have hlength : listed.length = listed'.length := by simpa using congrArg List.length h
  apply List.ext_getElem hlength
  intro i hi hi'
  apply List.inj_on_of_nodup_map hids (hlisted _ (List.getElem_mem hi))
    (hlisted' _ (List.getElem_mem hi'))
  have hid : (listed.map Rule.id)[i]? = (listed'.map Rule.id)[i]? := by rw [h]
  simpa [hi, hi'] using hid

theorem tiesAscend_of_eq (hlocale : LocalePreorder engine)
    (h : sortedByPriority rules = ordered engine rules) : TiesAscend engine rules := by
  unfold TiesAscend
  rw [List.pairwise_iff_forall_sublist]
  intro a b hab hpriority
  have hlisted : [a, b].Sublist (sortedByPriority rules) := by
    apply List.pair_sublist_mergeSort ?_ ?_ ?_ hab
    · intro a b c hab hbc
      rw [decide_eq_true_eq] at hab hbc ⊢
      omega
    · intro a b
      simp only [Bool.or_eq_true, decide_eq_true_eq]
      omega
    · exact decide_eq_true (by omega)
  rw [h] at hlisted
  have hle := List.pairwise_iff_forall_sublist.mp (ordered_stable hlocale).ordered hlisted
  rw [← byPriority_of_tie hpriority]
  exact of_decide_eq_true hle

end

-- ---------------------------------------------------------------------------
-- The list and the trace
-- ---------------------------------------------------------------------------

section
variable {engine : Engine} {bundle : Bundle} {input : EvaluationInput} {result : PolicyResult}

theorem listRules_ids : (listRules bundle).ids = (sortedByPriority bundle.rules).map Rule.id := by
  unfold RuleListing.ids listRules
  rw [List.map_map]
  rfl

theorem traceOf_ids (rules : List Rule) :
    (traceOf engine input rules).map RuleTraceEntry.ruleId = rules.map Rule.id := by
  unfold traceOf
  rw [List.map_map]
  rfl

theorem not_decides {rule : Rule} (h : PassedOver engine input rule) :
    (ListedRule.of rule).decides engine input = false := by
  obtain ⟨matched, hmatch, heffect⟩ := h
  show (match evaluateCondition engine input rule.match with
    | .ok matched => matched && rule.effect != .annotate
    | .error _ => false) = false
  rw [hmatch]
  cases matched with
  | false => rfl
  | true => simp [heffect rfl]

theorem decides_of_match {rule : Rule} {decision : Decision}
    (hmatch : evaluateCondition engine input rule.match = .ok true)
    (heffect : rule.effect = .decide decision) :
    (ListedRule.of rule).decides engine input = true := by
  show (match evaluateCondition engine input rule.match with
    | .ok matched => matched && rule.effect != .annotate
    | .error _ => false) = true
  rw [hmatch, heffect]
  rfl

theorem find?_passedOver {before : List Rule} (h : ∀ q ∈ before, PassedOver engine input q)
    (rest : List ListedRule) :
    (before.map ListedRule.of ++ rest).find? (ListedRule.decides engine input) =
      rest.find? (ListedRule.decides engine input) := by
  rw [List.find?_append, List.find?_eq_none.mpr, Option.none_or]
  intro entry hentry
  obtain ⟨q, hq, rfl⟩ := List.mem_map.mp hentry
  rw [not_decides (h q hq)]
  exact Bool.false_ne_true

theorem explains_of_eq (horder : sortedByPriority bundle.rules = ordered engine bundle.rules)
    (h : evaluate engine bundle input = .ok result) :
    Explains engine (listRules bundle) input result := by
  have hids : (listRules bundle).ids = (ordered engine bundle.rules).map Rule.id := by
    rw [listRules_ids, horder]
  have hrules : (listRules bundle).rules = (ordered engine bundle.rules).map ListedRule.of :=
    congrArg (List.map ListedRule.of) horder
  have href : Reference engine bundle input (ordered engine bundle.rules)
      (evaluate engine bundle input) := evaluate_reference
  rw [h] at href
  cases href with
  | decided before rule after decision hsplit hbefore hmatch heffect =>
    rw [hsplit] at hids hrules
    have hfind : (listRules bundle).rules.find? (ListedRule.decides engine input) =
        some (.of rule) := by
      rw [hrules, List.map_append, find?_passedOver hbefore, List.map_cons,
        List.find?_cons_of_pos (decides_of_match hmatch heffect)]
    refine ⟨?_, fun entry hentry => ?_, fun hnone => ?_⟩
    · rw [traceOf_ids, hids]
      refine List.IsPrefix.map _ ⟨after, ?_⟩
      rw [List.append_assoc, List.singleton_append]
    · cases hfind.symm.trans hentry
      exact ⟨rfl, heffect⟩
    · cases hfind.symm.trans hnone
  | default hall =>
    have hfind : (listRules bundle).rules.find? (ListedRule.decides engine input) = none := by
      have hpassed := find?_passedOver hall []
      rwa [List.append_nil, ← hrules] at hpassed
    refine ⟨?_, fun entry hentry => ?_, fun _ => ⟨rfl, rfl⟩⟩
    · rw [traceOf_ids, hids]
    · cases hfind.symm.trans hentry

theorem tiesAscend_of_lists (hlocale : LocalePreorder engine) (haccepted : bundle.Accepted)
    (h : ListsAsEvaluated engine bundle) : TiesAscend engine bundle.rules := by
  have hids := h.order
  rw [listRules_ids] at hids
  apply tiesAscend_of_eq hlocale
  apply rules_eq_of_ids haccepted.distinct ?_ ?_ hids
  · exact fun _ => sortedByPriority_stable.perm.mem_iff.mp
  · exact fun _ => (ordered_stable hlocale).perm.mem_iff.mp

end

/-- The list shows the rules as they are evaluated exactly when the rules of every priority
stand in the file by ascending id. -/
theorem lists_as_evaluated_iff (engine : Engine) (hlocale : LocalePreorder engine)
    (bundle : Bundle) (haccepted : bundle.Accepted) :
    ListsAsEvaluated engine bundle ↔ TiesAscend engine bundle.rules := by
  refine ⟨tiesAscend_of_lists hlocale haccepted, fun h => ?_⟩
  have horder := sortedByPriority_eq hlocale h
  refine ⟨?_, fun input result => explains_of_eq horder⟩
  rw [listRules_ids, horder]

theorem ties_accepted : ties.Accepted where
  named := by decide
  rules := by decide
  ids := by decide +kernel
  conditions := by decide +kernel
  distinct := by decide +kernel

/-- Two rules of one priority are listed in the order of the file and evaluated in the other. -/
theorem ties_listed_otherwise : ties.Accepted ∧ ¬ ListsAsEvaluated plainEngine ties := by
  refine ⟨ties_accepted, fun h => ?_⟩
  have hascend := tiesAscend_of_lists plainEngine_localePreorder ties_accepted h
  have hle := (List.pairwise_cons.mp hascend).1 _ List.mem_cons_self rfl
  exact absurd hle (by decide +kernel)

theorem ties_listed_iff : ListsAsEvaluated plainEngine ties ↔ TiesAscend plainEngine ties.rules :=
  lists_as_evaluated_iff plainEngine plainEngine_localePreorder ties ties_accepted

end McpGateway.Policy
