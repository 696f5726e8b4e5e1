import McpGateway.Lib.Outcome
import McpGateway.Policy.Malformed

/-!
# The baseline bundle

The rules of the deployment, as the bundle's file lists them. Their descriptions,
which no decision quotes, are left out. For a tenant on the restricted plan and
a tool of the CRM that only reads, three of them are left to decide a call.
-/

namespace McpGateway.Policy

open Js

def texts (items : List String) : Json := .array (items.map fun s => .string (js s))

def leaf (path : String) (op : Operator) (value : Json) : Condition :=
  { path := some (js path), op := some op, value := some value }

def denyDestructiveSql : Rule where
  id := js "deny-destructive-sql"
  priority := 5
  effect := .decide .deny
  reason := some (js "Warehouse access is read-only; the statement attempts a write")
  «match» :=
    { all := some
        [leaf "tool" .eq (.string (js "pg.query")),
          leaf "arguments.sql" .matches_ (.string (js
            "(?is)\\b(insert|update|delete|drop|alter|truncate|grant|revoke|create|copy)\\b"))] }

def denyPiiOnRestrictedPlan : Rule where
  id := js "deny-pii-on-restricted-plan"
  priority := 10
  effect := .decide .deny
  reason := some (js "The restricted plan does not permit querying personal data fields")
  «match» :=
    { all := some
        [leaf "tenant.plan" .eq (.string (js "restricted")),
          leaf "tool" .in_ (texts ["sf.query", "sf.get_contact", "pg.query"]),
          { any := some
              [leaf "arguments.sql" .matches_ (.string (js
                  "(?i)(ssn|social_security|tax_id|date_of_birth|passport|national_id|email|phone)")),
                leaf "arguments.soql" .matches_ (.string (js
                  "(?i)(ssn|social_security|tax_id|birthdate|passport|national_id|email|phone)")),
                leaf "arguments.fields" .containsAny
                  (texts ["ssn", "tax_id", "birthdate", "national_id", "email", "phone"])] }] }

def denyCrossTenantAccess : Rule where
  id := js "deny-cross-tenant-access"
  priority := 15
  effect := .decide .deny
  reason := some (js "Arguments reference a tenant other than the caller's own")
  «match» :=
    { all := some
        [{ path := some (js "arguments.tenantId"), op := some .exists_ },
          leaf "arguments.tenantId" .neField (.string (js "principal.tenantId"))] }

def denyBulkExtraction : Rule where
  id := js "deny-bulk-extraction"
  priority := 30
  effect := .decide .deny
  reason := some (js "Requested row limit exceeds the interactive query ceiling of 5000")
  «match» :=
    { any := some
        [leaf "arguments.limit" .gt (.number (.finite 5000)),
          leaf "arguments.maxRows" .gt (.number (.finite 5000))] }

def denyWriteWithoutScope : Rule where
  id := js "deny-write-without-scope"
  priority := 20
  effect := .decide .deny
  reason := some (js "Caller does not hold the write scope this tool requires")
  «match» :=
    { all := some
        [leaf "tool" .in_ (texts ["sf.create_task"]),
          leaf "principal.scopes" .notContains (.string (js "salesforce:write"))] }

def denyWarehouseQueryForViewers : Rule where
  id := js "deny-warehouse-query-for-viewers"
  priority := 40
  effect := .decide .deny
  reason := some (js "The viewer role cannot execute warehouse queries")
  «match» :=
    { all := some
        [leaf "principal.role" .eq (.string (js "viewer")),
          leaf "tool" .eq (.string (js "pg.query"))] }

def tierEnterpriseBurst : Rule where
  id := js "tier-enterprise-burst"
  priority := 50
  effect := .annotate
  rateTier := some (js "burst")
  «match» := { all := some [leaf "tenant.plan" .eq (.string (js "enterprise"))] }

def tierRestrictedThrottle : Rule where
  id := js "tier-restricted-throttle"
  priority := 55
  effect := .annotate
  rateTier := some (js "throttled")
  «match» := { all := some [leaf "tenant.plan" .eq (.string (js "restricted"))] }

def allowKnownTools : Rule where
  id := js "allow-known-tools"
  priority := 1000
  effect := .decide .allow
  reason := some (js "Tool is permitted by the baseline catalogue")
  «match» :=
    { all := some
        [leaf "tool" .in_ (texts
          ["sf.query", "sf.get_contact", "sf.list_opportunities", "sf.create_task",
            "pg.list_tables", "pg.describe_table", "pg.query"])] }

def baseline : Bundle where
  name := js "baseline"
  defaultEffect := .deny
  defaultReason := js "No policy rule permits this call"
  rules :=
    [denyDestructiveSql, denyPiiOnRestrictedPlan, denyCrossTenantAccess, denyBulkExtraction,
      denyWriteWithoutScope, denyWarehouseQueryForViewers, tierEnterpriseBurst,
      tierRestrictedThrottle, allowKnownTools]

-- ---------------------------------------------------------------------------
-- Evaluating a rule
-- ---------------------------------------------------------------------------

section
variable {engine : Engine} {input : EvaluationInput}

theorem evaluate_all_nil : evaluateCondition engine input { all := some [] } = .ok true := rfl

theorem evaluate_all_cons (c : Condition) (cs : List Condition) :
    evaluateCondition engine input { all := some (c :: cs) } =
      (evaluateCondition engine input c >>= fun held =>
        if held then evaluateCondition engine input { all := some cs } else .ok false) := rfl

theorem evaluate_any_cons (c : Condition) (cs : List Condition) :
    evaluateCondition engine input { any := some (c :: cs) } =
      (evaluateCondition engine input c >>= fun held =>
        if held then .ok true else evaluateCondition engine input { any := some cs }) := rfl

theorem evaluate_tool_eq (s : String) :
    evaluateCondition engine input (leaf "tool" .eq (.string (js s))) =
      .ok (input.tool == js s) := rfl

theorem evaluate_plan_eq (s : String) :
    evaluateCondition engine input (leaf "tenant.plan" .eq (.string (js s))) =
      .ok (input.tenant.plan == js s) := rfl

theorem evaluate_role_eq (s : String) :
    evaluateCondition engine input (leaf "principal.role" .eq (.string (js s))) =
      .ok (input.principal.role == js s) := rfl

theorem evaluate_tool_in (tools : List String) :
    evaluateCondition engine input (leaf "tool" .in_ (texts tools)) =
      .ok (tools.any fun s => js s == input.tool) := by
  show Except.ok (includes (tools.map fun s => Json.string (js s)) (.json (.string input.tool))) = _
  simp [includes, strictEquals, List.any_map, Function.comp_def]

theorem any_false {cs : List Condition}
    (h : evaluateCondition engine input { any := some cs } = .ok false) :
    ∀ c ∈ cs, evaluateCondition engine input c = .ok false := by
  induction cs with
  | nil => exact fun _ hc => nomatch hc
  | cons c cs ih =>
    rw [evaluate_any_cons] at h
    obtain ⟨held, hheld, h⟩ := Outcome.bind_eq_ok.mp h
    cases held with
    | true => cases h
    | false =>
      intro c' hc'
      rcases List.mem_cons.mp hc' with rfl | hc'
      · exact hheld
      · exact ih h c' hc'

-- ---------------------------------------------------------------------------
-- Deciding by the arranged rules
-- ---------------------------------------------------------------------------

theorem baseline_ordered (engine : Engine) : ordered engine baseline.rules =
    [denyDestructiveSql, denyPiiOnRestrictedPlan, denyCrossTenantAccess, denyWriteWithoutScope,
      denyBulkExtraction, denyWarehouseQueryForViewers, tierEnterpriseBurst,
      tierRestrictedThrottle, allowKnownTools] := by
  simp [ordered, baseline, List.mergeSort, List.MergeSort.Internal.splitInTwo, byPriority,
    denyDestructiveSql, denyPiiOnRestrictedPlan, denyCrossTenantAccess, denyWriteWithoutScope,
    denyBulkExtraction, denyWarehouseQueryForViewers, tierEnterpriseBurst, tierRestrictedThrottle,
    allowKnownTools]

variable {bundle : Bundle} {rule : Rule} {rest : List Rule}

theorem permits_deny (heffect : rule.effect = .decide .deny) :
    Permits engine bundle input (rule :: rest) ↔
      evaluateCondition engine input rule.match = .ok false ∧ Permits engine bundle input rest := by
  rw [Permits]
  constructor
  · rintro (⟨-, hallow⟩ | ⟨⟨matched, hmatched, hannotate⟩, hrest⟩)
    · cases heffect.symm.trans hallow
    · cases matched with
      | false => exact ⟨hmatched, hrest⟩
      | true => cases heffect.symm.trans (hannotate rfl)
  · rintro ⟨hfalse, hrest⟩
    exact .inr ⟨⟨false, hfalse, by rintro ⟨⟩⟩, hrest⟩

theorem permits_annotate {matched : Bool} (heffect : rule.effect = .annotate)
    (hmatch : evaluateCondition engine input rule.match = .ok matched) :
    Permits engine bundle input (rule :: rest) ↔ Permits engine bundle input rest := by
  rw [Permits]
  constructor
  · rintro (⟨-, hallow⟩ | ⟨-, hrest⟩)
    · cases heffect.symm.trans hallow
    · exact hrest
  · exact fun hrest => .inr ⟨⟨matched, hmatch, fun _ => heffect⟩, hrest⟩

theorem permits_allow (heffect : rule.effect = .decide .allow)
    (hmatch : evaluateCondition engine input rule.match = .ok true) :
    Permits engine bundle input (rule :: rest) := .inl ⟨hmatch, heffect⟩

-- ---------------------------------------------------------------------------
-- The restricted plan
-- ---------------------------------------------------------------------------

def readingTools : List JsString := [js "sf.query", js "sf.get_contact", js "sf.list_opportunities"]

def Passes (engine : Engine) (input : EvaluationInput) : Prop :=
  ∀ rule ∈ [denyPiiOnRestrictedPlan, denyCrossTenantAccess, denyBulkExtraction],
    evaluateCondition engine input rule.match = .ok false

theorem readingTools_listed {tool : JsString} (h : tool ∈ readingTools) :
    tool ≠ js "pg.query" ∧ (["sf.create_task"].any fun s => js s == tool) = false ∧
      (["sf.query", "sf.get_contact", "sf.list_opportunities", "sf.create_task", "pg.list_tables",
        "pg.describe_table", "pg.query"].any fun s => js s == tool) = true := by
  revert tool
  decide +kernel

theorem other_denials (h : input.tool ∈ readingTools) :
    evaluateCondition engine input denyDestructiveSql.match = .ok false ∧
      evaluateCondition engine input denyWriteWithoutScope.match = .ok false ∧
      evaluateCondition engine input denyWarehouseQueryForViewers.match = .ok false := by
  obtain ⟨hwarehouse, hwrite, -⟩ := readingTools_listed h
  have hne : (input.tool == js "pg.query") = false := beq_false_of_ne hwarehouse
  refine ⟨?_, ?_, ?_⟩
  · unfold denyDestructiveSql
    dsimp only
    rw [evaluate_all_cons, evaluate_tool_eq, hne]
    rfl
  · unfold denyWriteWithoutScope
    dsimp only
    rw [evaluate_all_cons, evaluate_tool_in, hwrite]
    rfl
  · unfold denyWarehouseQueryForViewers
    dsimp only
    rw [evaluate_all_cons, evaluate_role_eq, Outcome.ok_bind, evaluate_all_cons, evaluate_tool_eq,
      hne]
    cases input.principal.role == js "viewer" <;> rfl

theorem last_rules (hplan : input.tenant.plan = js "restricted") (htool : input.tool ∈ readingTools) :
    Permits engine baseline input [tierEnterpriseBurst, tierRestrictedThrottle, allowKnownTools] := by
  obtain ⟨-, -, hlisted⟩ := readingTools_listed htool
  have hburst : evaluateCondition engine input tierEnterpriseBurst.match = .ok false := by
    unfold tierEnterpriseBurst
    dsimp only
    rw [evaluate_all_cons, evaluate_plan_eq, hplan]
    rfl
  have hthrottle : evaluateCondition engine input tierRestrictedThrottle.match = .ok true := by
    unfold tierRestrictedThrottle
    dsimp only
    rw [evaluate_all_cons, evaluate_plan_eq, hplan]
    rfl
  have hallow : evaluateCondition engine input allowKnownTools.match = .ok true := by
    unfold allowKnownTools
    dsimp only
    rw [evaluate_all_cons, evaluate_tool_in, hlisted]
    rfl
  rw [permits_annotate rfl hburst, permits_annotate rfl hthrottle]
  exact permits_allow rfl hallow

/-- A reading call of a tenant on the restricted plan is allowed if three rules pass it. -/
theorem restricted_allows_iff (hplan : input.tenant.plan = js "restricted")
    (htool : input.tool ∈ readingTools) :
    Allows engine baseline input ↔ Passes engine input := by
  have hdenials : evaluateCondition engine input denyDestructiveSql.match = .ok false ∧
      evaluateCondition engine input denyWriteWithoutScope.match = .ok false ∧
      evaluateCondition engine input denyWarehouseQueryForViewers.match = .ok false :=
    other_denials htool
  obtain ⟨hsql, hwrite, hviewers⟩ := hdenials
  rw [allows_iff, baseline_ordered]
  repeat rw [permits_deny rfl]
  unfold Passes
  simp only [hsql, hwrite, hviewers, last_rules hplan htool, List.forall_mem_cons, true_and,
    and_true, List.not_mem_nil, false_implies, implies_true]

-- ---------------------------------------------------------------------------
-- The words of personal data
-- ---------------------------------------------------------------------------

def personalWords : List JsString :=
  [js "ssn", js "social_security", js "tax_id", js "birthdate", js "passport", js "national_id",
    js "email", js "phone"]

theorem personalWords_compiled (engine : Engine) :
    compilePattern engine (js
        "(?i)(ssn|social_security|tax_id|birthdate|passport|national_id|email|phone)") =
      some (Regex.test isWordChar
        (Regex.anyOf (personalWords.map (Regex.literal (sameLetter true))))) := by
  have hflags : inlineFlags (js
      "(?i)(ssn|social_security|tax_id|birthdate|passport|national_id|email|phone)") =
        some (js "i", js
          "(ssn|social_security|tax_id|birthdate|passport|national_id|email|phone)") := by
    decide +kernel
  have hwords : wordAlternatives (js
      "(ssn|social_security|tax_id|birthdate|passport|national_id|email|phone)") =
        some personalWords := by
    decide +kernel
  unfold compilePattern
  rw [hflags]
  dsimp only
  rw [if_neg (by decide +kernel)]
  unfold compileRegExp
  rw [hwords]
  rfl

theorem passes_words (hplan : input.tenant.plan = js "restricted")
    (htool : input.tool = js "sf.query") (h : Passes engine input) {soql word run : JsString}
    (hsoql : input.arguments.lookup (js "soql") = some (.string soql)) (hword : word ∈ personalWords)
    (hrun : List.Forall₂ (fun c d => sameLetter true c d = true) word run) : ¬ run <:+: soql := by
  rintro ⟨before, after, rfl⟩
  have hmatch := h denyPiiOnRestrictedPlan List.mem_cons_self
  unfold denyPiiOnRestrictedPlan at hmatch
  dsimp only at hmatch
  rw [evaluate_all_cons, evaluate_plan_eq, hplan, Outcome.ok_bind, if_pos (by decide),
    evaluate_all_cons, evaluate_tool_in, htool, Outcome.ok_bind, if_pos (by decide),
    evaluate_all_cons, evaluate_all_nil] at hmatch
  obtain ⟨held, hheld, hmatch⟩ := Outcome.bind_eq_ok.mp hmatch
  cases held with
  | true => cases hmatch
  | false =>
    have hleaf := any_false hheld _ (List.mem_cons_of_mem _ List.mem_cons_self)
    have hpattern : matchesPattern engine (property input.arguments (js "soql"))
        (.json (.string (js
          "(?i)(ssn|social_security|tax_id|birthdate|passport|national_id|email|phone)"))) =
        .ok false := hleaf
    have htext : property input.arguments (js "soql") =
        .json (.string (before ++ run ++ after)) := by
      unfold property
      rw [hsoql]
    unfold matchesPattern at hpattern
    rw [htext] at hpattern
    dsimp only [haystack, Outcome.ok_bind] at hpattern
    have hends : (run.reverse ++ before.reverse, after) ∈
        (Regex.anyOf (personalWords.map (Regex.literal (sameLetter true)))).ends isWordChar
          (before.reverse, run ++ after) :=
      Regex.mem_ends_anyOf (List.mem_map_of_mem hword) (Regex.literal_ends hrun)
    have htest : Regex.test isWordChar
        (Regex.anyOf (personalWords.map (Regex.literal (sameLetter true))))
        (before ++ run ++ after) = true := Regex.test_of_ends hends (by simp)
    rw [personalWords_compiled] at hpattern
    have hfalse : Regex.test isWordChar
        (Regex.anyOf (personalWords.map (Regex.literal (sameLetter true))))
        (before ++ run ++ after) = false := Except.ok.inj hpattern
    cases htest.symm.trans hfalse

end

end McpGateway.Policy
