import McpGateway.Lib.Outcome
import McpGateway.Policy.Evaluator

/-!
# Reference semantics

The rules arranged by priority and id are read from the front until one decides.
With a total order on the ids there is one arrangement of a bundle with distinct
ids, whatever order its file lists them in.
-/

namespace McpGateway.Policy

open Js Shared

-- ---------------------------------------------------------------------------
-- Arrangements
-- ---------------------------------------------------------------------------

/-- `localeCompare` is a total order of these ids, and tells every two of them apart. -/
structure LocaleOrder (engine : Engine) (ids : List JsString) : Prop where
  equal : ∀ a ∈ ids, ∀ b ∈ ids, engine.localeCompare a b = 0 ↔ a = b
  swap : ∀ a ∈ ids, ∀ b ∈ ids, engine.localeCompare a b < 0 ↔ 0 < engine.localeCompare b a
  trans : ∀ a ∈ ids, ∀ b ∈ ids, ∀ c ∈ ids, engine.localeCompare a b < 0 →
    engine.localeCompare b c < 0 → engine.localeCompare a c < 0

theorem localePreorder_of_order {engine : Engine} (h : ∀ ids, LocaleOrder engine ids) :
    LocalePreorder engine where
  swap a b := (h [a, b]).swap a (by simp) b (by simp)
  trans a b c hab hbc := by
    obtain ⟨hequal, -, htrans⟩ := h [a, b, c]
    rcases Int.lt_or_eq_of_le hab with hab | hab
    · rcases Int.lt_or_eq_of_le hbc with hbc | hbc
      · exact (htrans a (by simp) b (by simp) c (by simp) hab hbc).le
      · exact ((hequal b (by simp) c (by simp)).mp hbc ▸ hab).le
    · exact (hequal a (by simp) b (by simp)).mp hab ▸ hbc

def Before (engine : Engine) (a b : Rule) : Prop :=
  a.priority < b.priority ∨ a.priority = b.priority ∧ engine.localeCompare a.id b.id < 0

structure Arranged (engine : Engine) (rules arranged : List Rule) : Prop where
  perm : arranged.Perm rules
  ascending : arranged.Pairwise (Before engine)

section
variable {engine : Engine} {ids : List JsString} {a b c : Rule}

theorem before_iff : Before engine a b ↔ byPriority engine a b < 0 := by
  unfold Before byPriority
  split
  · next h => simp [h]
  · next h =>
    constructor
    · rintro (hlt | ⟨heq, -⟩)
      · exact Int.sub_neg_of_lt (Int.ofNat_lt.mpr hlt)
      · exact absurd heq h
    · intro hneg
      exact .inl (Int.ofNat_lt.mp (Int.lt_of_sub_neg hneg))

theorem byPriority_zero (horder : LocaleOrder engine ids) (ha : a.id ∈ ids) (hb : b.id ∈ ids) :
    byPriority engine a b = 0 ↔ a.priority = b.priority ∧ a.id = b.id := by
  unfold byPriority
  split
  · next h => simp [h, horder.equal a.id ha b.id hb]
  · next h =>
    constructor
    · intro hzero
      exact absurd (Int.ofNat_inj.mp (Int.eq_of_sub_eq_zero hzero)) h
    · rintro ⟨heq, -⟩
      exact absurd heq h

theorem byPriority_swap (horder : LocaleOrder engine ids) (ha : a.id ∈ ids) (hb : b.id ∈ ids) :
    byPriority engine a b < 0 ↔ 0 < byPriority engine b a := by
  unfold byPriority
  by_cases h : a.priority = b.priority
  · simp [h, horder.swap a.id ha b.id hb]
  · simp only [if_neg h, if_neg (Ne.symm h)]
    omega

theorem Before.trans (horder : LocaleOrder engine ids) (ha : a.id ∈ ids) (hb : b.id ∈ ids)
    (hc : c.id ∈ ids) (hab : Before engine a b) (hbc : Before engine b c) : Before engine a c := by
  rcases hab with hab | ⟨hab, hid⟩
  · rcases hbc with hbc | ⟨hbc, -⟩
    · exact .inl (hab.trans hbc)
    · exact .inl (hbc ▸ hab)
  · rcases hbc with hbc | ⟨hbc, hid'⟩
    · exact .inl (hab ▸ hbc)
    · exact .inr ⟨hab.trans hbc, horder.trans _ ha _ hb _ hc hid hid'⟩

theorem Before.asymm (horder : LocaleOrder engine ids) (ha : a.id ∈ ids) (hb : b.id ∈ ids)
    (hab : Before engine a b) : ¬ Before engine b a := by
  intro hba
  have hpos := (byPriority_swap horder ha hb).mp (before_iff.mp hab)
  exact absurd (before_iff.mp hba) (by omega)

theorem before_or_same (horder : LocaleOrder engine ids) (ha : a.id ∈ ids) (hb : b.id ∈ ids) :
    Before engine a b ∨ (a.priority = b.priority ∧ a.id = b.id) ∨ Before engine b a := by
  rcases Int.lt_trichotomy (byPriority engine a b) 0 with hlt | heq | hgt
  · exact .inl (before_iff.mpr hlt)
  · exact .inr (.inl ((byPriority_zero horder ha hb).mp heq))
  · exact .inr (.inr (before_iff.mpr ((byPriority_swap horder hb ha).mpr hgt)))

variable {rules arranged arranged' : List Rule}

theorem id_mem (h : a ∈ rules) : a.id ∈ rules.map Rule.id := List.mem_map_of_mem h

theorem arranged_unique (horder : LocaleOrder engine (rules.map Rule.id))
    (h : Arranged engine rules arranged) (h' : Arranged engine rules arranged') :
    arranged = arranged' := by
  apply List.Perm.eq_of_pairwise ?_ h.ascending h'.ascending (h.perm.trans h'.perm.symm)
  intro a b ha hb hab hba
  have ha' := id_mem (h.perm.mem_iff.mp ha)
  have hb' := id_mem (h'.perm.mem_iff.mp hb)
  exact absurd hba (hab.asymm horder ha' hb')

theorem byPriority_le_iff (horder : LocaleOrder engine ids) (ha : a.id ∈ ids) (hb : b.id ∈ ids) :
    byPriority engine a b ≤ 0 ↔
      Before engine a b ∨ (a.priority = b.priority ∧ a.id = b.id) := by
  rw [before_iff, ← byPriority_zero horder ha hb]
  omega

theorem pairwise_ordered (horder : LocaleOrder engine (rules.map Rule.id)) :
    (ordered engine rules).Pairwise fun a b => decide (byPriority engine a b ≤ 0) = true := by
  have hsort : (rules.attach.mergeSort fun a b => decide (byPriority engine a.1 b.1 ≤ 0)).map
      Subtype.val = ordered engine rules := by
    have hmap := List.map_mergeSort (f := Subtype.val) (l := rules.attach)
      (s := fun a b : Rule => decide (byPriority engine a b ≤ 0)) fun _ _ _ _ => rfl
    rwa [List.attach_map_subtype_val] at hmap
  rw [← hsort, List.pairwise_map]
  apply List.pairwise_mergeSort
  · rintro ⟨a, ha⟩ ⟨b, hb⟩ ⟨c, hc⟩ hab hbc
    have ha := id_mem ha
    have hb := id_mem hb
    have hc := id_mem hc
    simp only [decide_eq_true_eq] at hab hbc ⊢
    rw [byPriority_le_iff horder ha hb] at hab
    rw [byPriority_le_iff horder hb hc] at hbc
    rw [byPriority_le_iff horder ha hc]
    rcases hab with hab | ⟨hab, hid⟩
    · rcases hbc with hbc | ⟨hbc, hid'⟩
      · exact .inl (hab.trans horder ha hb hc hbc)
      · refine .inl ?_
        unfold Before at hab ⊢
        rwa [← hbc, ← hid']
    · rcases hbc with hbc | ⟨hbc, hid'⟩
      · refine .inl ?_
        unfold Before at hbc ⊢
        rwa [hab, hid]
      · exact .inr ⟨hab.trans hbc, hid.trans hid'⟩
  · rintro ⟨a, ha⟩ ⟨b, hb⟩
    have ha := id_mem ha
    have hb := id_mem hb
    simp only [Bool.or_eq_true, decide_eq_true_eq]
    rw [byPriority_le_iff horder ha hb, byPriority_le_iff horder hb ha]
    rcases before_or_same horder ha hb with h | h | h
    · exact .inl (.inl h)
    · exact .inl (.inr h)
    · exact .inr (.inl h)

theorem arranged_ordered (horder : LocaleOrder engine (rules.map Rule.id))
    (hids : (rules.map Rule.id).Nodup) : Arranged engine rules (ordered engine rules) := by
  have hperm : (ordered engine rules).Perm rules := List.mergeSort_perm _ _
  refine ⟨hperm, ?_⟩
  have hdistinct : (ordered engine rules).Pairwise fun a b => a.id ≠ b.id :=
    List.pairwise_map.mp ((hperm.map Rule.id).nodup_iff.mpr hids)
  refine ((pairwise_ordered horder).and hdistinct).imp_of_mem ?_
  rintro a b ha hb ⟨hab, hne⟩
  have ha := id_mem (hperm.mem_iff.mp ha)
  have hb := id_mem (hperm.mem_iff.mp hb)
  rcases (byPriority_le_iff horder ha hb).mp (of_decide_eq_true hab) with h | ⟨-, hid⟩
  · exact h
  · exact absurd hid hne

end

-- ---------------------------------------------------------------------------
-- What the first deciding rule says
-- ---------------------------------------------------------------------------

def holds (engine : Engine) (input : EvaluationInput) (rule : Rule) : Bool :=
  match evaluateCondition engine input rule.match with
  | .ok matched => matched
  | .error _ => false

/-- The rule is evaluated and does not decide. -/
def PassedOver (engine : Engine) (input : EvaluationInput) (rule : Rule) : Prop :=
  ∃ matched, evaluateCondition engine input rule.match = .ok matched ∧
    (matched = true → rule.effect = .annotate)

def givenTier (engine : Engine) (input : EvaluationInput) (rule : Rule) : Option JsString :=
  if holds engine input rule ∧ rule.effect = .annotate then rule.tier else none

def lastTier (engine : Engine) (input : EvaluationInput) (rules : List Rule) : Option JsString :=
  (rules.filterMap (givenTier engine input)).getLast?

def traceOf (engine : Engine) (input : EvaluationInput) (rules : List Rule) :
    List RuleTraceEntry :=
  rules.map fun rule => traceEntry rule (holds engine input rule)

/-- The result for arranged rules: that of the first rule that decides, or the bundle's
default; a match that throws on the way is thrown. -/
inductive Reference (engine : Engine) (bundle : Bundle) (input : EvaluationInput)
    (arranged : List Rule) : Except Thrown PolicyResult → Prop
  | decided (before : List Rule) (rule : Rule) (after : List Rule) (decision : Decision)
      (hsplit : arranged = before ++ rule :: after)
      (hbefore : ∀ q ∈ before, PassedOver engine input q)
      (hmatch : evaluateCondition engine input rule.match = .ok true)
      (heffect : rule.effect = .decide decision) :
      Reference engine bundle input arranged <| .ok
        { decision
          ruleId := rule.id
          reason := rule.statedReason
          rateTier := lastTier engine input before
          trace := traceOf engine input (before ++ [rule])
          evaluatedRules := before.length + 1 }
  | default (hall : ∀ q ∈ arranged, PassedOver engine input q) :
      Reference engine bundle input arranged <| .ok
        { decision := bundle.defaultEffect
          ruleId := bundle.name ++ js ".default"
          reason := bundle.defaultReason
          rateTier := lastTier engine input arranged
          trace := traceOf engine input arranged
          evaluatedRules := arranged.length }
  | threw (before : List Rule) (rule : Rule) (after : List Rule) (e : Thrown)
      (hsplit : arranged = before ++ rule :: after)
      (hbefore : ∀ q ∈ before, PassedOver engine input q)
      (hmatch : evaluateCondition engine input rule.match = .error e) :
      Reference engine bundle input arranged (.error e)

section
variable {engine : Engine} {bundle : Bundle} {input : EvaluationInput}

theorem holds_of_ok {rule : Rule} {matched : Bool}
    (h : evaluateCondition engine input rule.match = .ok matched) :
    holds engine input rule = matched := by
  unfold holds
  rw [h]

theorem rule_cases (engine : Engine) (input : EvaluationInput) (rule : Rule) :
    PassedOver engine input rule ∨
      (∃ decision, evaluateCondition engine input rule.match = .ok true ∧
        rule.effect = .decide decision) ∨
      ∃ e, evaluateCondition engine input rule.match = .error e := by
  cases hmatch : evaluateCondition engine input rule.match with
  | error e => exact .inr (.inr ⟨e, rfl⟩)
  | ok matched =>
    by_cases hpassed : matched = true → rule.effect = .annotate
    · exact .inl ⟨matched, hmatch, hpassed⟩
    · obtain ⟨rfl, heffect⟩ := Classical.not_imp.mp hpassed
      cases hdecision : rule.effect with
      | annotate => exact absurd hdecision heffect
      | decide decision => exact .inr (.inl ⟨decision, rfl, rfl⟩)

/-- A rule that does not decide adds itself to the trace and its tier, if it has one. -/
theorem evaluateRules_passedOver {rule : Rule} (h : PassedOver engine input rule)
    (trace : List RuleTraceEntry) (tier : Option JsString) (rest : List Rule) :
    evaluateRules engine bundle input trace tier (rule :: rest) =
      evaluateRules engine bundle input (trace ++ traceOf engine input [rule])
        ((givenTier engine input rule).or tier) rest := by
  obtain ⟨matched, hmatch, heffect⟩ := h
  have hholds := holds_of_ok hmatch
  show (evaluateCondition engine input rule.match >>= _) = _
  rw [hmatch]
  cases matched with
  | false =>
    have hnone : givenTier engine input rule = none := by simp [givenTier, hholds]
    simp only [traceOf, List.map_cons, List.map_nil, hholds, hnone, Option.none_or]
    rfl
  | true =>
    have hannotate := heffect rfl
    have htier : givenTier engine input rule = rule.tier := by simp [givenTier, hholds, hannotate]
    simp only [traceOf, List.map_cons, List.map_nil, hholds, htier]
    rw [Outcome.ok_bind, if_pos rfl, hannotate]

theorem lastTier_cons (rule : Rule) (rules : List Rule) (tier : Option JsString) :
    (lastTier engine input rules).or ((givenTier engine input rule).or tier) =
      (lastTier engine input (rule :: rules)).or tier := by
  unfold lastTier
  cases htier : givenTier engine input rule with
  | none => simp [htier]
  | some t =>
    rw [List.filterMap_cons_some htier]
    cases hlast : (rules.filterMap (givenTier engine input)).getLast? with
    | none => simp [List.getLast?_eq_none_iff.mp hlast]
    | some u => simp [List.getLast?_cons, hlast]

theorem lastTier_snoc (rules : List Rule) (rule : Rule) :
    lastTier engine input (rules ++ [rule]) =
      (givenTier engine input rule).or (lastTier engine input rules) := by
  unfold lastTier
  cases htier : givenTier engine input rule with
  | none => simp [htier]
  | some t => simp [List.filterMap_append, htier]

theorem evaluateRules_append {before : List Rule}
    (h : ∀ q ∈ before, PassedOver engine input q) (trace : List RuleTraceEntry)
    (tier : Option JsString) (rest : List Rule) :
    evaluateRules engine bundle input trace tier (before ++ rest) =
      evaluateRules engine bundle input (trace ++ traceOf engine input before)
        ((lastTier engine input before).or tier) rest := by
  induction before generalizing trace tier with
  | nil => simp [traceOf, lastTier]
  | cons q before ih =>
    have hq := h q List.mem_cons_self
    have hrest : ∀ r ∈ before, PassedOver engine input r := fun r hr =>
      h r (List.mem_cons_of_mem _ hr)
    rw [List.cons_append, evaluateRules_passedOver hq, ih hrest]
    rw [lastTier_cons]
    simp [traceOf]

theorem evaluateRules_decided {rule : Rule} {decision : Decision}
    (hmatch : evaluateCondition engine input rule.match = .ok true)
    (heffect : rule.effect = .decide decision) (trace : List RuleTraceEntry)
    (tier : Option JsString) (rest : List Rule) :
    evaluateRules engine bundle input trace tier (rule :: rest) = .ok
      { decision
        ruleId := rule.id
        reason := rule.statedReason
        rateTier := tier
        trace := trace ++ traceOf engine input [rule]
        evaluatedRules := trace.length + 1 } := by
  have hholds := holds_of_ok hmatch
  show (evaluateCondition engine input rule.match >>= _) = _
  rw [hmatch, Outcome.ok_bind, if_pos rfl, heffect]
  simp [traceOf, hholds, pure, Except.pure]

theorem evaluateRules_threw {rule : Rule} {e : Thrown}
    (hmatch : evaluateCondition engine input rule.match = .error e) (trace : List RuleTraceEntry)
    (tier : Option JsString) (rest : List Rule) :
    evaluateRules engine bundle input trace tier (rule :: rest) = .error e := by
  show (evaluateCondition engine input rule.match >>= _) = _
  rw [hmatch]
  rfl

theorem evaluateRules_rules (rules : List Rule) (trace : List RuleTraceEntry)
    (tier : Option JsString) (arranged : List Rule) :
    evaluateRules engine { bundle with rules } input trace tier arranged =
      evaluateRules engine bundle input trace tier arranged := by
  induction arranged generalizing trace tier with
  | nil => rfl
  | cons rule rest ih =>
    unfold evaluateRules
    simp only [ih]

@[simp] theorem traceOf_length (rules : List Rule) :
    (traceOf engine input rules).length = rules.length := by simp [traceOf]

theorem traceOf_append (rules rules' : List Rule) : traceOf engine input (rules ++ rules') =
    traceOf engine input rules ++ traceOf engine input rules' := by simp [traceOf]

theorem evaluateRules_reference {arranged before after : List Rule}
    (hsplit : arranged = before ++ after) (hbefore : ∀ q ∈ before, PassedOver engine input q) :
    Reference engine bundle input arranged
      (evaluateRules engine bundle input (traceOf engine input before)
        (lastTier engine input before) after) := by
  induction after generalizing before with
  | nil =>
    rw [List.append_nil] at hsplit
    subst hsplit
    have hresult : Reference engine bundle input arranged _ := .default hbefore
    have hlength : (traceOf engine input arranged).length = arranged.length := traceOf_length _
    rw [← hlength] at hresult
    exact hresult
  | cons rule after ih =>
    rcases rule_cases engine input rule with hrule | ⟨decision, hmatch, hdecision⟩ | ⟨e, hmatch⟩
    · have hall : ∀ q ∈ before ++ [rule], PassedOver engine input q := by
        intro q hq
        rcases List.mem_append.mp hq with hq | hq
        · exact hbefore q hq
        · rwa [List.mem_singleton.mp hq]
      rw [evaluateRules_passedOver hrule, ← traceOf_append, ← lastTier_snoc]
      exact ih (by simp [hsplit]) hall
    · rw [evaluateRules_decided hmatch hdecision, traceOf_length, ← traceOf_append]
      exact .decided before rule after decision hsplit hbefore hmatch hdecision
    · rw [evaluateRules_threw hmatch]
      exact .threw before rule after e hsplit hbefore hmatch

theorem reference_unique {arranged : List Rule} {result : Except Thrown PolicyResult}
    (h : Reference engine bundle input arranged result) :
    evaluateRules engine bundle input [] none arranged = result := by
  cases h with
  | decided before rule after decision hsplit hbefore hmatch heffect =>
    rw [hsplit, evaluateRules_append hbefore, evaluateRules_decided hmatch heffect, List.nil_append,
      Option.or_none, traceOf_length, traceOf_append]
  | default hall =>
    have happend : evaluateRules engine bundle input [] none (arranged ++ []) = _ :=
      evaluateRules_append hall [] none []
    rw [List.append_nil] at happend
    rw [happend]
    simp [evaluateRules, pure, Except.pure]
  | threw before rule after e hsplit hbefore hmatch =>
    rw [hsplit, evaluateRules_append hbefore, evaluateRules_threw hmatch]

end

-- ---------------------------------------------------------------------------
-- Every bundle
-- ---------------------------------------------------------------------------

/-- A condition throws before a rule decides. -/
def Throws (engine : Engine) (input : EvaluationInput) (rules : List Rule) : Prop :=
  ∃ pre rule post e, rules = pre ++ rule :: post ∧ (∀ q ∈ pre, PassedOver engine input q) ∧
    evaluateCondition engine input rule.match = .error e

/-- `evaluate` returns the reference result of the one arrangement of the bundle's rules, and the
same for every order of them. -/
structure FollowsReference (engine : Engine) (bundle : Bundle) (input : EvaluationInput) : Prop where
  arranged : ∃! arranged, Arranged engine bundle.rules arranged
  result : ∀ arranged, Arranged engine bundle.rules arranged →
    ∃ result, evaluate engine bundle input = .ok result ∧
      Reference engine bundle input arranged (.ok result)
  unordered : ∀ rules, rules.Perm bundle.rules →
    evaluate engine { bundle with rules } input = evaluate engine bundle input

section
variable {engine : Engine} {bundle : Bundle} {input : EvaluationInput}

theorem LocaleOrder.perm {ids ids' : List JsString} (h : LocaleOrder engine ids)
    (hperm : ids'.Perm ids) : LocaleOrder engine ids' where
  equal a ha b hb := h.equal a (hperm.mem_iff.mp ha) b (hperm.mem_iff.mp hb)
  swap a ha b hb := h.swap a (hperm.mem_iff.mp ha) b (hperm.mem_iff.mp hb)
  trans a ha b hb c hc :=
    h.trans a (hperm.mem_iff.mp ha) b (hperm.mem_iff.mp hb) c (hperm.mem_iff.mp hc)

theorem evaluate_perm (horder : LocaleOrder engine (bundle.rules.map Rule.id))
    (hids : (bundle.rules.map Rule.id).Nodup) {rules : List Rule} (hperm : rules.Perm bundle.rules) :
    evaluate engine { bundle with rules } input = evaluate engine bundle input := by
  have hids' : (rules.map Rule.id).Nodup := (hperm.map Rule.id).nodup_iff.mpr hids
  have harranged := arranged_ordered (horder.perm (hperm.map Rule.id)) hids'
  have hsame : ordered engine rules = ordered engine bundle.rules :=
    arranged_unique horder ⟨harranged.perm.trans hperm, harranged.ascending⟩
      (arranged_ordered horder hids)
  unfold evaluate
  dsimp only
  rw [hsame]
  exact evaluateRules_rules rules [] none _

theorem evaluate_reference : Reference engine bundle input (ordered engine bundle.rules)
    (evaluate engine bundle input) :=
  evaluateRules_reference (List.nil_append _).symm fun _ h => absurd h List.not_mem_nil

theorem evaluate_error_iff :
    (∃ e, evaluate engine bundle input = .error e) ↔ Throws engine input (ordered engine bundle.rules) := by
  constructor
  · rintro ⟨e, h⟩
    have href : Reference engine bundle input (ordered engine bundle.rules)
        (evaluate engine bundle input) := evaluate_reference
    rw [h] at href
    cases href with
    | threw before rule after _ hsplit hbefore hmatch =>
      exact ⟨before, rule, after, e, hsplit, hbefore, hmatch⟩
  · rintro ⟨pre, rule, post, e, hsplit, hpre, hmatch⟩
    exact ⟨e, reference_unique (.threw pre rule post e hsplit hpre hmatch)⟩

end

/-- With distinct ids that `localeCompare` tells apart, `evaluate` follows the reference exactly
when no condition throws before a rule decides. -/
theorem evaluate_is_reference (engine : Engine) (bundle : Bundle)
    (horder : LocaleOrder engine (bundle.rules.map Rule.id))
    (hids : (bundle.rules.map Rule.id).Nodup) (input : EvaluationInput) :
    FollowsReference engine bundle input ↔
      ∀ arranged, Arranged engine bundle.rules arranged → ¬ Throws engine input arranged := by
  have hordered := arranged_ordered horder hids
  constructor
  · intro h arranged harranged hthrows
    obtain ⟨result, hresult, -⟩ := h.result arranged harranged
    rw [arranged_unique horder harranged hordered] at hthrows
    obtain ⟨e, herror⟩ := evaluate_error_iff.mpr hthrows
    cases hresult.symm.trans herror
  · intro h
    refine ⟨⟨_, hordered, fun _ h => arranged_unique horder h hordered⟩, ?_,
      fun rules hperm => evaluate_perm horder hids hperm⟩
    intro arranged harranged
    obtain rfl := arranged_unique horder harranged hordered
    cases hresult : evaluate engine bundle input with
    | error e => exact absurd (evaluate_error_iff.mp ⟨e, hresult⟩) (h _ harranged)
    | ok result => exact ⟨result, rfl, hresult ▸ evaluate_reference⟩

theorem plainEngine_localeOrder (ids : List JsString) : LocaleOrder plainEngine ids where
  equal a _ b _ := by
    unfold plainEngine
    dsimp only
    split
    · next h => simp [h]
    · next h => split <;> simp [h]
  swap a _ b _ := by
    unfold plainEngine
    dsimp only
    by_cases h : a = b
    · subst h
      simp
    · rcases List.le_total a b with hle | hle
      · have hlt := (List.le_iff_lt_or_eq.mp hle).resolve_right h
        have hnot : ¬ b < a := fun hgt => List.lt_irrefl a (List.lt_trans hlt hgt)
        simp [h, Ne.symm h, hlt, hnot]
      · have hlt := (List.le_iff_lt_or_eq.mp hle).resolve_right (Ne.symm h)
        have hnot : ¬ a < b := fun hgt => List.lt_irrefl a (List.lt_trans hgt hlt)
        simp [h, Ne.symm h, hnot, hlt]
  trans a _ b _ c _ := by
    unfold plainEngine
    dsimp only
    intro hab hbc
    have hltab : a < b := by
      by_contra hnot
      split at hab <;> simp_all
    have hltbc : b < c := by
      by_contra hnot
      split at hbc <;> simp_all
    have hlt : a < c := List.lt_trans hltab hltbc
    have hne : a ≠ c := by
      rintro rfl
      exact List.lt_irrefl a hlt
    simp [hne, hlt]

theorem plainEngine_localePreorder : LocalePreorder plainEngine :=
  localePreorder_of_order plainEngine_localeOrder

def ties : Bundle where
  name := js "ties"
  rules :=
    [{ id := js "b-rule", priority := 10, effect := .decide .allow
       «match» := { path := some (js "tool"), op := some .exists_ } },
      { id := js "a-rule", priority := 10, effect := .decide .deny
        «match» := { path := some (js "tool"), op := some .exists_ } }]

def queryCall : EvaluationInput where
  tool := js "sf.query"
  server := js "salesforce"
  principal := ⟨js "usr_alice", js "acme-corp", js "analyst", [], none⟩
  tenant := ⟨js "acme-corp", js "pro"⟩

theorem ties_is_reference : FollowsReference plainEngine ties queryCall := by
  refine (evaluate_is_reference plainEngine ties (plainEngine_localeOrder _) (by decide +kernel)
    queryCall).mpr ?_
  rintro arranged harranged ⟨pre, rule, post, e, rfl, -, hmatch⟩
  have hmem : rule ∈ ties.rules := harranged.perm.mem_iff.mp (by simp)
  rcases List.mem_pair.mp hmem with rfl | rfl
  · cases hmatch
  · cases hmatch

def oddLimit : EvaluationInput :=
  { queryCall with «arguments» := [(js "limit", .object [(js "toString", .null)])] }

def largeCalls : Bundle where
  name := js "large-calls"
  rules :=
    [{ id := js "deny-large", effect := .decide .deny
       «match» :=
        { path := some (js "arguments.limit"), op := some .gt
          value := some (.number (.finite 100)) } }]

/-- Where the reference has the default for a result, the evaluation throws. -/
theorem odd_limit_throws : (largeCalls.rules.map Rule.id).Nodup ∧
    ¬ FollowsReference plainEngine largeCalls oddLimit := by
  refine ⟨by decide, fun h => ?_⟩
  obtain ⟨arranged, harranged, -⟩ := h.arranged
  obtain ⟨result, hresult, -⟩ := h.result arranged harranged
  unfold evaluate ordered largeCalls at hresult
  rw [List.mergeSort_singleton] at hresult
  cases hresult

end McpGateway.Policy
