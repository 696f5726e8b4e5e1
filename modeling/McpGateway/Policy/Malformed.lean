import McpGateway.Policy.Ordering

/-!
# Patterns that do not compile

A pattern that cannot be compiled does not match, whatever rule it stands in. A
deny rule whose pattern has to match is then passed over, and so is one whose
pattern must not be found missing, under a `not`; the request is allowed when a
later rule or the default allows it.
-/

namespace McpGateway.Policy

open Js Shared

-- ---------------------------------------------------------------------------
-- Bundles that are loaded
-- ---------------------------------------------------------------------------

/-- What `conditionSchema` checks: paths are not empty, and every condition has a combinator
or both path and operator. -/
def Condition.wellFormed : Condition → Bool
  | ⟨path, op, _, all, any, not⟩ =>
    path.all (fun path => !path.isEmpty) &&
      (all.isSome || any.isSome || not.isSome || (path.isSome && op.isSome)) &&
      lists all && lists any && child not
where
  lists : Option (List Condition) → Bool
    | none => true
    | some children => each children
  each : List Condition → Bool
    | [] => true
    | child :: rest => child.wellFormed && each rest
  child : Option Condition → Bool
    | none => true
    | some condition => condition.wellFormed

/-- A bundle that the schema and the loader accept. -/
structure Bundle.Accepted (bundle : Bundle) : Prop where
  named : bundle.name ≠ []
  rules : bundle.rules ≠ []
  ids : ∀ rule ∈ bundle.rules, rule.id ≠ []
  conditions : ∀ rule ∈ bundle.rules, rule.match.wellFormed = true
  distinct : (bundle.rules.map Rule.id).Nodup

-- ---------------------------------------------------------------------------
-- Broken conditions
-- ---------------------------------------------------------------------------

/-- The condition is a pattern that is compiled for the input and does not compile. -/
def broken (engine : Engine) (input : EvaluationInput) (path : Option JsString)
    (op : Option Operator) (value : Option Json) : Bool :=
  match path, op, value with
  | some path, some op, some (.string pattern) =>
    !path.isEmpty && (op == .matches_ || op == .notMatches) &&
      (match haystack engine (readPath input path) with
        | .ok text => text.isSome
        | .error _ => false) &&
      (compilePattern engine pattern).isNone
  | _, _, _ => false

def consultsBroken (engine : Engine) (input : EvaluationInput) : Condition → Bool
  | ⟨_, _, _, some children, _, _⟩ => every children
  | ⟨_, _, _, none, some children, _⟩ => some' children
  | ⟨_, _, _, none, none, some child⟩ => consultsBroken engine input child
  | ⟨path, op, value, none, none, none⟩ => broken engine input path op value
where
  every : List Condition → Bool
    | [] => false
    | child :: rest =>
      consultsBroken engine input child ||
        (match evaluateCondition engine input child with
          | .ok true => every rest
          | _ => false)
  some' : List Condition → Bool
    | [] => false
    | child :: rest =>
      consultsBroken engine input child ||
        (match evaluateCondition engine input child with
          | .ok false => some' rest
          | _ => false)

def constant (value : Bool) : Condition := if value then { all := some [] } else { any := some [] }

/-- The condition with every broken pattern in it settled: all of them alike, or the other way
under a `not`. -/
def settled (engine : Engine) (input : EvaluationInput) (turns : Bool) (value : Bool) :
    Condition → Condition
  | ⟨path, op, expected, some children, any, not⟩ =>
    ⟨path, op, expected, some (each value children), any, not⟩
  | ⟨path, op, expected, none, some children, not⟩ =>
    ⟨path, op, expected, none, some (each value children), not⟩
  | ⟨path, op, expected, none, none, some child⟩ =>
    ⟨path, op, expected, none, none, some (settled engine input turns (value != turns) child)⟩
  | ⟨path, op, expected, none, none, none⟩ =>
    if broken engine input path op expected then constant value
    else ⟨path, op, expected, none, none, none⟩
where
  each (value : Bool) : List Condition → List Condition
    | [] => []
    | child :: rest => settled engine input turns value child :: each value rest

/-- Every broken pattern is taken to hold. -/
def held (engine : Engine) (input : EvaluationInput) : Condition → Condition :=
  settled engine input false true

/-- Every broken pattern comes out as it takes for the condition to hold: true, and under a `not`
false. -/
def favoured (engine : Engine) (input : EvaluationInput) : Condition → Condition :=
  settled engine input true true

def asHeldDeny (engine : Engine) (input : EvaluationInput) (rule : Rule) : Rule :=
  { rule with effect := .decide .deny, «match» := held engine input rule.match }

def withHeldDeny (engine : Engine) (input : EvaluationInput) (bundle : Bundle) (rule : Rule) :
    Bundle :=
  { bundle with
    rules := bundle.rules.map fun q =>
      if q.id = rule.id then asHeldDeny engine input q else q }

-- ---------------------------------------------------------------------------
-- What is claimed
-- ---------------------------------------------------------------------------

def Allows (engine : Engine) (bundle : Bundle) (input : EvaluationInput) : Prop :=
  ∃ result, evaluate engine bundle input = .ok result ∧ result.decision = .allow

/-- The evaluation gets to the rule: the rules before and after it. -/
structure Reaches (engine : Engine) (bundle : Bundle) (input : EvaluationInput)
    (before : List Rule) (rule : Rule) (after : List Rule) : Prop where
  order : ordered engine bundle.rules = before ++ rule :: after
  passed : ∀ q ∈ before, PassedOver engine input q

/-- The request is denied, and the trace has the rule as matched. -/
def DeniedBy (engine : Engine) (bundle : Bundle) (input : EvaluationInput) (rule : Rule) : Prop :=
  ∃ result, evaluate engine bundle input = .ok result ∧ result.decision = .deny ∧
    traceEntry rule true ∈ result.trace

/-- Of the rules that consult a broken pattern: no request is allowed that would not be if the
rule were a deny rule whose broken conditions held, and a deny rule denies if all of its other
conditions hold. -/
structure NeverLetsThrough (engine : Engine) (bundle : Bundle) (input : EvaluationInput) : Prop where
  allows : ∀ before rule after, Reaches engine bundle input before rule after →
    consultsBroken engine input rule.match = true → Allows engine bundle input →
    Allows engine (withHeldDeny engine input bundle rule) input
  denies : ∀ before rule after, Reaches engine bundle input before rule after →
    consultsBroken engine input rule.match = true → rule.effect = .decide .deny →
    evaluateCondition engine input (favoured engine input rule.match) = .ok true →
    DeniedBy engine bundle input rule

def Permits (engine : Engine) (bundle : Bundle) (input : EvaluationInput) : List Rule → Prop
  | [] => bundle.defaultEffect = .allow
  | rule :: rest =>
    (evaluateCondition engine input rule.match = .ok true ∧ rule.effect = .decide .allow) ∨
      (PassedOver engine input rule ∧ Permits engine bundle input rest)

/-- The value of a broken pattern makes no difference. Taken to hold: a rule that is passed over
would not hold either, unless what follows denies; one that allows would not hold, and what
follows allows as well. Taken as favours the rule: a deny rule that would hold does. -/
structure Harmless (engine : Engine) (bundle : Bundle) (input : EvaluationInput) (rule : Rule)
    (after : List Rule) : Prop where
  passed : PassedOver engine input rule → Permits engine bundle input after →
    evaluateCondition engine input (held engine input rule.match) = .ok false
  allowed : evaluateCondition engine input rule.match = .ok true → rule.effect = .decide .allow →
    evaluateCondition engine input (held engine input rule.match) = .ok false ∧
      Permits engine bundle input after
  denied : rule.effect = .decide .deny →
    evaluateCondition engine input (favoured engine input rule.match) = .ok true →
    evaluateCondition engine input rule.match = .ok true

-- ---------------------------------------------------------------------------
-- Every bundle
-- ---------------------------------------------------------------------------

section
variable {engine : Engine} {bundle : Bundle} {input : EvaluationInput}

theorem not_passedOver {rule : Rule} {decision : Decision}
    (hmatch : evaluateCondition engine input rule.match = .ok true)
    (heffect : rule.effect = .decide decision) : ¬ PassedOver engine input rule := by
  rintro ⟨matched, hmatched, hannotate⟩
  cases hmatch.symm.trans hmatched
  cases heffect.symm.trans (hannotate rfl)

theorem evaluateRules_allows (trace : List RuleTraceEntry) (tier : Option JsString)
    (rules : List Rule) :
    (∃ result, evaluateRules engine bundle input trace tier rules = .ok result ∧
      result.decision = .allow) ↔ Permits engine bundle input rules := by
  induction rules generalizing trace tier with
  | nil =>
    constructor
    · rintro ⟨_, ⟨⟩, h⟩
      exact h
    · exact fun h => ⟨_, rfl, h⟩
  | cons rule rest ih =>
    rcases rule_cases engine input rule with hrule | ⟨decision, hmatch, hdecision⟩ | ⟨e, hmatch⟩
    · rw [evaluateRules_passedOver hrule, ih]
      constructor
      · exact fun h => .inr ⟨hrule, h⟩
      · rintro (⟨htrue, heffect⟩ | ⟨-, h⟩)
        · exact absurd hrule (not_passedOver htrue heffect)
        · exact h
    · rw [evaluateRules_decided hmatch hdecision]
      constructor
      · rintro ⟨_, ⟨⟩, hallow⟩
        exact .inl ⟨hmatch, hdecision.trans (congrArg _ hallow)⟩
      · rintro (⟨-, hallow⟩ | ⟨hrule, -⟩)
        · exact ⟨_, rfl, Effect.decide.inj (hdecision.symm.trans hallow)⟩
        · exact absurd hrule (not_passedOver hmatch hdecision)
    · rw [evaluateRules_threw hmatch]
      constructor
      · rintro ⟨_, ⟨⟩, -⟩
      · rintro (⟨h, -⟩ | ⟨⟨_, h, -⟩, -⟩)
        · cases hmatch.symm.trans h
        · cases hmatch.symm.trans h

theorem allows_iff : Allows engine bundle input ↔
    Permits engine bundle input (ordered engine bundle.rules) :=
  evaluateRules_allows [] none _

theorem permits_append {before : List Rule} (h : ∀ q ∈ before, PassedOver engine input q)
    (rest : List Rule) : Permits engine bundle input (before ++ rest) ↔
      Permits engine bundle input rest := by
  induction before with
  | nil => rfl
  | cons q before ih =>
    have hq := h q List.mem_cons_self
    rw [List.cons_append, Permits, ih fun r hr => h r (List.mem_cons_of_mem _ hr)]
    constructor
    · rintro (⟨hmatch, heffect⟩ | ⟨-, hrest⟩)
      · exact absurd hq (not_passedOver hmatch heffect)
      · exact hrest
    · exact fun hrest => .inr ⟨hq, hrest⟩

/-- A deny rule whose broken conditions hold leaves the place of its rule as it is. -/
theorem ordered_withHeldDeny (rule : Rule) :
    ordered engine (withHeldDeny engine input bundle rule).rules =
      (ordered engine bundle.rules).map fun q =>
        if q.id = rule.id then asHeldDeny engine input q else q := by
  unfold ordered withHeldDeny
  symm
  apply List.map_mergeSort
  intro a _ b _
  have hkey : ∀ q : Rule, (if q.id = rule.id then asHeldDeny engine input q else q).id = q.id ∧
      (if q.id = rule.id then asHeldDeny engine input q else q).priority = q.priority := by
    intro q
    split <;> exact ⟨rfl, rfl⟩
  unfold byPriority
  rw [(hkey a).1, (hkey b).1, (hkey a).2, (hkey b).2]

theorem ordered_split {before after : List Rule} {rule : Rule}
    (hdistinct : (bundle.rules.map Rule.id).Nodup)
    (horder : ordered engine bundle.rules = before ++ rule :: after) :
    ordered engine (withHeldDeny engine input bundle rule).rules =
      before ++ asHeldDeny engine input rule :: after := by
  have hperm : (ordered engine bundle.rules).Perm bundle.rules := List.mergeSort_perm _ _
  have hnodup : ((before ++ rule :: after).map Rule.id).Nodup :=
    horder ▸ (hperm.map Rule.id).nodup_iff.mpr hdistinct
  have hsame : ∀ rules : List Rule, (∀ q ∈ rules, q.id ≠ rule.id) →
      rules.map (fun q => if q.id = rule.id then asHeldDeny engine input q else q) = rules :=
    fun rules h => (List.map_congr_left fun q hq => if_neg (h q hq)).trans (List.map_id' rules)
  rw [List.map_append, List.map_cons, List.nodup_append, List.nodup_cons] at hnodup
  obtain ⟨-, ⟨hafter, -⟩, hbefore⟩ := hnodup
  have hq : ∀ q ∈ before, q.id ≠ rule.id := fun q hq =>
    hbefore q.id (List.mem_map_of_mem hq) rule.id List.mem_cons_self
  have hq' : ∀ q ∈ after, q.id ≠ rule.id := fun q hq heq =>
    hafter (heq ▸ List.mem_map_of_mem hq)
  rw [ordered_withHeldDeny, horder, List.map_append, List.map_cons, hsame before hq,
    hsame after hq', if_pos rfl]

/-- With its broken conditions held a deny rule is passed over when it does not hold. -/
theorem passedOver_asHeldDeny (rule : Rule) :
    PassedOver engine input (asHeldDeny engine input rule) ↔
      evaluateCondition engine input (held engine input rule.match) = .ok false := by
  constructor
  · rintro ⟨matched, hmatch, heffect⟩
    cases matched with
    | false => exact hmatch
    | true => cases heffect rfl
  · exact fun h => ⟨false, h, by rintro ⟨⟩⟩

theorem stillAllows_iff {before after : List Rule} {rule : Rule} (haccepted : bundle.Accepted)
    (hreaches : Reaches engine bundle input before rule after) :
    (Allows engine bundle input → Allows engine (withHeldDeny engine input bundle rule) input) ↔
      (PassedOver engine input rule → Permits engine bundle input after →
        evaluateCondition engine input (held engine input rule.match) = .ok false) ∧
      (evaluateCondition engine input rule.match = .ok true → rule.effect = .decide .allow →
        evaluateCondition engine input (held engine input rule.match) = .ok false ∧
          Permits engine bundle input after) := by
  have hallows : Allows engine bundle input ↔ Permits engine bundle input (rule :: after) := by
    rw [allows_iff, hreaches.order, permits_append hreaches.passed]
  have hsame : ∀ rules, Permits engine (withHeldDeny engine input bundle rule) input rules ↔
      Permits engine bundle input rules := by
    intro rules
    induction rules with
    | nil => rfl
    | cons q rest ih => simp only [Permits, ih]
  have hdenied : Allows engine (withHeldDeny engine input bundle rule) input ↔
      evaluateCondition engine input (held engine input rule.match) = .ok false ∧
        Permits engine bundle input after := by
    rw [allows_iff, ordered_split haccepted.distinct hreaches.order, hsame,
      permits_append hreaches.passed, Permits, passedOver_asHeldDeny]
    constructor
    · rintro (⟨-, ⟨⟩⟩ | h)
      exact h
    · exact .inr
  rw [hallows, hdenied, Permits]
  constructor
  · intro h
    exact ⟨fun hpassed hafter => (h (.inr ⟨hpassed, hafter⟩)).1,
      fun hmatch heffect => h (.inl ⟨hmatch, heffect⟩)⟩
  · rintro ⟨hpasses, hallowed⟩ (⟨hmatch, heffect⟩ | ⟨hpassed, hafter⟩)
    · exact hallowed hmatch heffect
    · exact ⟨hpasses hpassed hafter, hafter⟩

theorem mem_traceOf {rules : List Rule} {rule : Rule}
    (h : traceEntry rule true ∈ traceOf engine input rules) :
    ∃ q ∈ rules, q.id = rule.id ∧ holds engine input q = true := by
  obtain ⟨q, hq, hentry⟩ := List.mem_map.mp h
  exact ⟨q, hq, congrArg RuleTraceEntry.ruleId hentry, congrArg RuleTraceEntry.matched hentry⟩

theorem eq_of_id {rules : List Rule} {q rule : Rule} (hids : (rules.map Rule.id).Nodup)
    (hq : q ∈ rules) (hrule : rule ∈ rules) (h : q.id = rule.id) : q = rule :=
  List.inj_on_of_nodup_map hids hq hrule h

theorem holds_iff {rule : Rule} :
    holds engine input rule = true ↔ evaluateCondition engine input rule.match = .ok true := by
  unfold holds
  cases evaluateCondition engine input rule.match with
  | ok matched => simp
  | error e => simp

theorem deniedBy_iff {before after : List Rule} {rule : Rule} (haccepted : bundle.Accepted)
    (hreaches : Reaches engine bundle input before rule after)
    (heffect : rule.effect = .decide .deny) :
    DeniedBy engine bundle input rule ↔ evaluateCondition engine input rule.match = .ok true := by
  have hperm : (ordered engine bundle.rules).Perm bundle.rules := List.mergeSort_perm _ _
  have hids := (hperm.map Rule.id).nodup_iff.mpr haccepted.distinct
  have hrule : rule ∈ ordered engine bundle.rules := by
    rw [hreaches.order]
    simp
  constructor
  · rintro ⟨result, hresult, -, hentry⟩
    have href : Reference engine bundle input (ordered engine bundle.rules)
        (evaluate engine bundle input) := evaluate_reference
    have hread : ∃ rules, rules <+: ordered engine bundle.rules ∧
        result.trace = traceOf engine input rules := by
      rw [hresult] at href
      cases href with
      | decided before q after _ hsplit => exact ⟨before ++ [q], ⟨after, by rw [hsplit]; simp⟩, rfl⟩
      | default => exact ⟨_, List.prefix_refl _, rfl⟩
    obtain ⟨rules, hfront, htrace⟩ := hread
    obtain ⟨q, hq, hid, hholds⟩ := mem_traceOf (htrace ▸ hentry)
    rw [eq_of_id hids (hfront.subset hq) hrule hid] at hholds
    exact holds_iff.mp hholds
  · intro hmatch
    have horder : evaluate engine bundle input =
        evaluateRules engine bundle input [] none (before ++ rule :: after) := by
      rw [← hreaches.order]
      rfl
    have hdecided : evaluateRules engine bundle input [] none (before ++ rule :: after) = _ :=
      evaluateRules_append hreaches.passed [] none (rule :: after)
    rw [evaluateRules_decided hmatch heffect] at hdecided
    refine ⟨_, horder.trans hdecided, rfl, ?_⟩
    simp [traceOf, holds_of_ok hmatch]

end

/-- A deny rule whose pattern has a flag that is not supported, before a rule that allows. -/
def denySecrets : Rule where
  id := js "deny-secrets"
  priority := 10
  effect := .decide .deny
  «match» :=
    { all := some
        [{ path := some (js "tool"), op := some .eq, value := some (.string (js "sf.query")) },
          { path := some (js "arguments.soql"), op := some .matches_
            value := some (.string (js "(?x)secret")) }] }

def allowTools : Rule where
  id := js "allow-tools"
  priority := 1000
  effect := .decide .allow
  «match» := { path := some (js "tool"), op := some .exists_ }

def leaky : Bundle where
  name := js "leaky"
  rules := [denySecrets, allowTools]

def secretQuery : EvaluationInput :=
  { queryCall with «arguments» := [(js "soql", .string (js "SELECT secret FROM Account"))] }

theorem leaky_accepted : leaky.Accepted where
  named := by decide
  rules := by decide
  ids := by decide +kernel
  conditions := by decide +kernel
  distinct := by decide +kernel

theorem leaky_ordered : ordered plainEngine leaky.rules = [denySecrets, allowTools] := by
  have hle : byPriority plainEngine denySecrets allowTools = -990 := by decide +kernel
  unfold ordered leaky
  exact List.mergeSort_of_pairwise (by simp [hle])

/-- Under a `not` a missing match favours the rule, and is what a broken `not_matches` never has. -/
example :
    let negated : Condition :=
      { not := some { path := some (js "arguments.soql"), op := some .notMatches
                      value := some (.string (js "(?x)secret")) } }
    evaluateCondition plainEngine secretQuery (favoured plainEngine secretQuery negated) = .ok true ∧
      evaluateCondition plainEngine secretQuery (held plainEngine secretQuery negated) = .ok false ∧
      evaluateCondition plainEngine secretQuery negated = .ok false := ⟨rfl, rfl, rfl⟩

end McpGateway.Policy
