import McpGateway.Js.Sort
import McpGateway.Policy.Ordering

/-!
# Adding and removing a rule

A rule takes its place by priority and id, and the others keep their order. An
evaluation that gets to it goes on behind it as it would without it, unless the
rule decides or its condition throws.
-/

namespace McpGateway.Policy

open Js Shared

def Bundle.insert (bundle : Bundle) (place : Nat) (rule : Rule) : Bundle :=
  { bundle with rules := bundle.rules.take place ++ rule :: bundle.rules.drop place }

-- ---------------------------------------------------------------------------
-- What two evaluations are compared by
-- ---------------------------------------------------------------------------

structure Verdict where
  decision : Decision
  ruleId : JsString
  reason : JsString
  deriving DecidableEq

def PolicyResult.verdict (result : PolicyResult) : Verdict :=
  ⟨result.decision, result.ruleId, result.reason⟩

def verdict? (result : Except Thrown PolicyResult) : Option Verdict :=
  result.toOption.map PolicyResult.verdict

def tier? (result : Except Thrown PolicyResult) : Option (Option JsString) :=
  result.toOption.map PolicyResult.rateTier

def decision? (result : Except Thrown PolicyResult) : Option Decision :=
  (verdict? result).map Verdict.decision

/-- The rule acts in the direction of its effect, and not at all when it does not match. -/
structure ActsByEffect (engine : Engine) (bundle : Bundle) (input : EvaluationInput)
    (place : Nat) (rule : Rule) : Prop where
  deny : rule.effect = .decide .deny → decision? (evaluate engine bundle input) = some .deny →
    decision? (evaluate engine (bundle.insert place rule) input) ≠ some .allow
  allow : rule.effect = .decide .allow → decision? (evaluate engine bundle input) = some .allow →
    decision? (evaluate engine (bundle.insert place rule) input) ≠ some .deny
  annotate : rule.effect = .annotate →
    verdict? (evaluate engine (bundle.insert place rule) input) =
        verdict? (evaluate engine bundle input) ∧
      (tier? (evaluate engine (bundle.insert place rule) input) ≠
          tier? (evaluate engine bundle input) →
        evaluateCondition engine input rule.match = .ok true)
  unmatched : evaluateCondition engine input rule.match ≠ .ok true →
    verdict? (evaluate engine (bundle.insert place rule) input) =
        verdict? (evaluate engine bundle input) ∧
      tier? (evaluate engine (bundle.insert place rule) input) =
        tier? (evaluate engine bundle input)

/-- The rule's place in the order of evaluation, behind some of the bundle's rules and before
the others. -/
structure Placed (engine : Engine) (bundle : Bundle) (place : Nat) (rule : Rule)
    (pre post : List Rule) : Prop where
  order : ordered engine (bundle.insert place rule).rules = pre ++ rule :: post
  rest : ordered engine bundle.rules = pre ++ post

-- ---------------------------------------------------------------------------
-- The order of evaluation
-- ---------------------------------------------------------------------------

section
variable {engine : Engine} {a b c : Rule}

theorem byPriority_total (hlocale : LocalePreorder engine) (a b : Rule) :
    byPriority engine a b ≤ 0 ∨ byPriority engine b a ≤ 0 := by
  unfold byPriority
  have hswap := hlocale.swap a.id b.id
  by_cases h : a.priority = b.priority
  · rw [if_pos h, if_pos h.symm]
    omega
  · rw [if_neg h, if_neg (Ne.symm h)]
    omega

theorem byPriority_trans (hlocale : LocalePreorder engine) (hab : byPriority engine a b ≤ 0)
    (hbc : byPriority engine b c ≤ 0) : byPriority engine a c ≤ 0 := by
  have hid := hlocale.trans a.id b.id c.id
  unfold byPriority at hab hbc ⊢
  split at hab <;> split at hbc <;> split
  · exact hid hab hbc
  all_goals omega

theorem notBehind_total (hlocale : LocalePreorder engine) (a b : Rule) :
    (decide (byPriority engine a b ≤ 0) || decide (byPriority engine b a ≤ 0)) = true := by
  simpa using byPriority_total hlocale a b

theorem notBehind_trans (hlocale : LocalePreorder engine) (a b c : Rule)
    (hab : decide (byPriority engine a b ≤ 0) = true)
    (hbc : decide (byPriority engine b c ≤ 0) = true) :
    decide (byPriority engine a c ≤ 0) = true := by
  rw [decide_eq_true_eq] at hab hbc ⊢
  exact byPriority_trans hlocale hab hbc

theorem exists_placed (hlocale : LocalePreorder engine) (bundle : Bundle) (place : Nat)
    (rule : Rule) : ∃ pre post, Placed engine bundle place rule pre post := by
  obtain ⟨pre, post, horder, hrest⟩ := mergeSort_insert (notBehind_total hlocale)
    (notBehind_trans hlocale) (bundle.rules.take place) rule (bundle.rules.drop place)
  rw [List.take_append_drop] at hrest
  exact ⟨pre, post, horder, hrest⟩

end

-- ---------------------------------------------------------------------------
-- The loop from a rule on
-- ---------------------------------------------------------------------------

section
variable {engine : Engine} {bundle : Bundle} {input : EvaluationInput}

/-- Rules that are not all passed over settle the evaluation, whatever follows. -/
theorem evaluateRules_settled {pre : List Rule} (h : ¬ ∀ q ∈ pre, PassedOver engine input q)
    (trace : List RuleTraceEntry) (tier : Option JsString) (rest rest' : List Rule) :
    evaluateRules engine bundle input trace tier (pre ++ rest) =
      evaluateRules engine bundle input trace tier (pre ++ rest') := by
  induction pre generalizing trace tier with
  | nil => exact absurd (fun q hq => absurd hq List.not_mem_nil) h
  | cons rule pre ih =>
    rw [List.cons_append, List.cons_append]
    rcases rule_cases engine input rule with hrule | ⟨decision, hmatch, hdecision⟩ | ⟨e, hmatch⟩
    · rw [evaluateRules_passedOver hrule, evaluateRules_passedOver hrule]
      apply ih
      intro hall
      exact h (List.forall_mem_cons.mpr ⟨hrule, hall⟩)
    · rw [evaluateRules_decided hmatch hdecision, evaluateRules_decided hmatch hdecision]
    · rw [evaluateRules_threw hmatch, evaluateRules_threw hmatch]

/-- The trace and the tier so far have no part in the verdict, nor the trace in the tier. -/
theorem evaluateRules_verdict (trace trace' : List RuleTraceEntry) (tier tier' : Option JsString)
    (rules : List Rule) :
    verdict? (evaluateRules engine bundle input trace tier rules) =
        verdict? (evaluateRules engine bundle input trace' tier' rules) ∧
      tier? (evaluateRules engine bundle input trace tier rules) =
        tier? (evaluateRules engine bundle input trace' tier rules) := by
  induction rules generalizing trace trace' tier tier' with
  | nil => exact ⟨rfl, rfl⟩
  | cons rule rest ih =>
    rcases rule_cases engine input rule with hrule | ⟨decision, hmatch, hdecision⟩ | ⟨e, hmatch⟩
    · rw [evaluateRules_passedOver hrule, evaluateRules_passedOver hrule,
        evaluateRules_passedOver hrule]
      exact ih ..
    · rw [evaluateRules_decided hmatch hdecision, evaluateRules_decided hmatch hdecision,
        evaluateRules_decided hmatch hdecision]
      exact ⟨rfl, rfl⟩
    · rw [evaluateRules_threw hmatch, evaluateRules_threw hmatch, evaluateRules_threw hmatch]
      exact ⟨rfl, rfl⟩

theorem Throws.append {rules rest : List Rule} (h : Throws engine input rest)
    (hrules : ∀ q ∈ rules, PassedOver engine input q) : Throws engine input (rules ++ rest) := by
  obtain ⟨pre, q, post, e, rfl, hpre, hmatch⟩ := h
  refine ⟨rules ++ pre, q, post, e, (List.append_assoc ..).symm, fun r hr => ?_, hmatch⟩
  rcases List.mem_append.mp hr with hr | hr
  · exact hrules r hr
  · exact hpre r hr

theorem tier?_eq_none {result : Except Thrown PolicyResult} (h : verdict? result = none) :
    tier? result = none := by
  cases result with
  | ok => cases h
  | error => rfl

theorem verdict?_eq_none (trace : List RuleTraceEntry) (tier : Option JsString)
    (rules : List Rule) : verdict? (evaluateRules engine bundle input trace tier rules) = none ↔
      Throws engine input rules := by
  constructor
  · intro h
    induction rules generalizing trace tier with
    | nil => cases h
    | cons rule rest ih =>
      rcases rule_cases engine input rule with hrule | ⟨decision, hmatch, hdecision⟩ | ⟨e, hmatch⟩
      · rw [evaluateRules_passedOver hrule] at h
        have hfirst : ∀ q ∈ [rule], PassedOver engine input q :=
          List.forall_mem_singleton.mpr hrule
        exact (ih _ _ h).append hfirst
      · rw [evaluateRules_decided hmatch hdecision] at h
        cases h
      · exact ⟨[], rule, rest, e, rfl, by rintro _ ⟨⟩, hmatch⟩
  · rintro ⟨pre, rule, post, e, rfl, hpre, hmatch⟩
    rw [evaluateRules_append hpre, evaluateRules_threw hmatch]
    rfl

variable {place : Nat} {rule : Rule} {pre post : List Rule}

theorem evaluate_insert (hplaced : Placed engine bundle place rule pre post)
    (input : EvaluationInput) :
    evaluate engine (bundle.insert place rule) input =
      evaluateRules engine bundle input [] none (pre ++ rule :: post) := by
  rw [← hplaced.order]
  exact evaluateRules_rules _ [] none _

theorem evaluate_without (hplaced : Placed engine bundle place rule pre post)
    (input : EvaluationInput) :
    evaluate engine bundle input = evaluateRules engine bundle input [] none (pre ++ post) := by
  rw [← hplaced.rest]
  rfl

theorem actsByEffect_of_same
    (hverdict : verdict? (evaluate engine (bundle.insert place rule) input) =
      verdict? (evaluate engine bundle input))
    (htier : tier? (evaluate engine (bundle.insert place rule) input) =
      tier? (evaluate engine bundle input)) :
    ActsByEffect engine bundle input place rule := by
  have hdecision : decision? (evaluate engine (bundle.insert place rule) input) =
      decision? (evaluate engine bundle input) := congrArg (Option.map Verdict.decision) hverdict
  refine ⟨fun _ h => ?_, fun _ h => ?_, fun _ => ⟨hverdict, fun h => absurd htier h⟩,
    fun _ => ⟨hverdict, htier⟩⟩
  · rw [hdecision, h]
    rintro ⟨⟩
  · rw [hdecision, h]
    rintro ⟨⟩

theorem actsByEffect_of_ok (hplaced : Placed engine bundle place rule pre post) {matched : Bool}
    (hmatch : evaluateCondition engine input rule.match = .ok matched) :
    ActsByEffect engine bundle input place rule := by
  by_cases hpre : ∀ q ∈ pre, PassedOver engine input q
  · have hwithout := evaluate_without hplaced input
    have hwith := evaluate_insert hplaced input
    rw [evaluateRules_append hpre] at hwith hwithout
    cases matched with
    | false =>
      have hrule : PassedOver engine input rule := ⟨false, hmatch, by rintro ⟨⟩⟩
      have hnone : givenTier engine input rule = none := by
        simp [givenTier, holds_of_ok hmatch]
      rw [evaluateRules_passedOver hrule, hnone, Option.none_or] at hwith
      obtain ⟨hverdict, htier⟩ := evaluateRules_verdict ..
      apply actsByEffect_of_same
      · rw [hwith, hwithout]
        exact hverdict
      · rw [hwith, hwithout]
        exact htier
    | true =>
      cases heffect : rule.effect with
      | annotate =>
        have hrule : PassedOver engine input rule := ⟨true, hmatch, fun _ => heffect⟩
        rw [evaluateRules_passedOver hrule] at hwith
        refine ⟨fun h => ?_, fun h => ?_, fun _ => ⟨?_, fun _ => hmatch⟩, fun h => absurd hmatch h⟩
        · cases heffect.symm.trans h
        · cases heffect.symm.trans h
        · rw [hwith, hwithout]
          exact (evaluateRules_verdict ..).1
      | decide decision =>
        rw [evaluateRules_decided hmatch heffect] at hwith
        have hdecision : decision? (evaluate engine (bundle.insert place rule) input) =
            some decision := by
          rw [hwith]
          rfl
        refine ⟨fun h _ => ?_, fun h _ => ?_, fun h => ?_, fun h => absurd hmatch h⟩
        · cases heffect.symm.trans h
          rw [hdecision]
          rintro ⟨⟩
        · cases heffect.symm.trans h
          rw [hdecision]
          rintro ⟨⟩
        · cases heffect.symm.trans h
  · have hsame : evaluate engine (bundle.insert place rule) input =
        evaluate engine bundle input := by
      rw [evaluate_insert hplaced, evaluate_without hplaced]
      exact evaluateRules_settled hpre ..
    exact actsByEffect_of_same (congrArg _ hsame) (congrArg _ hsame)

end

/-- A rule acts by its effect exactly when its condition throws only where the evaluation does
not get to it or throws behind it as well. -/
theorem acts_by_effect_iff (engine : Engine) (hlocale : LocalePreorder engine) (bundle : Bundle)
    (input : EvaluationInput) (place : Nat) (rule : Rule) :
    ActsByEffect engine bundle input place rule ↔
      ∀ pre post, Placed engine bundle place rule pre post →
        (∀ q ∈ pre, PassedOver engine input q) →
        (∃ e, evaluateCondition engine input rule.match = .error e) →
        Throws engine input post := by
  constructor
  · rintro hacts pre post hplaced hpre ⟨e, hmatch⟩
    have hunmatched : evaluateCondition engine input rule.match ≠ .ok true := by
      rw [hmatch]
      rintro ⟨⟩
    have hverdict := (hacts.unmatched hunmatched).1
    rw [evaluate_insert hplaced, evaluate_without hplaced, evaluateRules_append hpre,
      evaluateRules_append hpre, evaluateRules_threw hmatch] at hverdict
    exact (verdict?_eq_none ..).mp hverdict.symm
  · intro h
    obtain ⟨pre, post, hplaced⟩ := exists_placed hlocale bundle place rule
    cases hmatch : evaluateCondition engine input rule.match with
    | ok matched => exact actsByEffect_of_ok hplaced hmatch
    | error e =>
      by_cases hpre : ∀ q ∈ pre, PassedOver engine input q
      · have hbehind := h pre post hplaced hpre ⟨e, hmatch⟩
        have hthrows : Throws engine input (rule :: post) :=
          ⟨[], rule, post, e, rfl, by rintro _ ⟨⟩, hmatch⟩
        have hwith : verdict? (evaluate engine (bundle.insert place rule) input) = none := by
          rw [evaluate_insert hplaced]
          exact (verdict?_eq_none ..).mpr (hthrows.append hpre)
        have hwithout : verdict? (evaluate engine bundle input) = none := by
          rw [evaluate_without hplaced]
          exact (verdict?_eq_none ..).mpr (hbehind.append hpre)
        apply actsByEffect_of_same
        · rw [hwith, hwithout]
        · rw [tier?_eq_none hwith, tier?_eq_none hwithout]
      · have hsame : evaluate engine (bundle.insert place rule) input =
            evaluate engine bundle input := by
          rw [evaluate_insert hplaced, evaluate_without hplaced]
          exact evaluateRules_settled hpre ..
        exact actsByEffect_of_same (congrArg _ hsame) (congrArg _ hsame)

def openTools : Bundle where
  name := js "open-tools"
  rules :=
    [{ id := js "allow-tools", priority := 1000, effect := .decide .allow
       «match» := { path := some (js "tool"), op := some .exists_ } }]

def heavyTier : Rule where
  id := js "heavy-tier"
  priority := 5
  effect := .annotate
  rateTier := some (js "burst")
  «match» :=
    { path := some (js "arguments.limit"), op := some .gt, value := some (.number (.finite 100)) }

/-- A call that is allowed throws once calls of many rows are annotated. -/
theorem annotation_throws :
    ¬ ActsByEffect plainEngine openTools oddLimit 0 heavyTier := by
  intro h
  have horder : ordered plainEngine (openTools.insert 0 heavyTier).rules =
      heavyTier :: openTools.rules := by
    have hsorted : (heavyTier :: openTools.rules).Pairwise fun a b =>
        decide (byPriority plainEngine a b ≤ 0) = true :=
      List.pairwise_cons.mpr ⟨by decide +kernel, List.pairwise_singleton _ _⟩
    exact List.mergeSort_of_pairwise hsorted
  have hwith : verdict? (evaluate plainEngine (openTools.insert 0 heavyTier) oddLimit) = none := by
    unfold evaluate
    rw [horder]
    rfl
  have hwithout : verdict? (evaluate plainEngine openTools oddLimit) =
      some ⟨.allow, js "allow-tools", []⟩ := by
    unfold evaluate ordered openTools
    rw [List.mergeSort_singleton]
    rfl
  have hverdict := (h.annotate rfl).1
  rw [hwith, hwithout] at hverdict
  cases hverdict

theorem heavy_tier_acts_iff : ActsByEffect plainEngine openTools oddLimit 0 heavyTier ↔
    ∀ pre post, Placed plainEngine openTools 0 heavyTier pre post →
      (∀ q ∈ pre, PassedOver plainEngine oddLimit q) →
      (∃ e, evaluateCondition plainEngine oddLimit heavyTier.match = .error e) →
      Throws plainEngine oddLimit post :=
  acts_by_effect_iff plainEngine plainEngine_localePreorder openTools oddLimit 0 heavyTier

end McpGateway.Policy
