import McpGateway.Policy.Schema
import McpGateway.Shared.Errors

/-!
# The evaluator

Conversions to a number and the joining of an array throw on an object that has
a `toString` of its own; nothing else in an evaluation does.
-/

namespace McpGateway.Policy

open Js Shared

-- ---------------------------------------------------------------------------
-- Values
-- ---------------------------------------------------------------------------

def readPath (input : EvaluationInput) (path : JsString) : Value :=
  (path.splitOn fullStop).foldl Value.member (.json input.document)

def asArray : Value → List Json
  | .json (.array items) => items
  | _ => []

/-- `===`; two objects are the same when they are read from the same place. -/
def strictEquals (samePlace : Bool) : Value → Value → Bool
  | .undefined, .undefined => true
  | .json .null, .json .null => true
  | .json (.boolean a), .json (.boolean b) => a == b
  | .json (.number a), .json (.number b) => a.strictEq b
  | .json (.string a), .json (.string b) => a == b
  | .json (.array _), .json (.array _) => samePlace
  | .json (.object _), .json (.object _) => samePlace
  | .method of name, .method of' name' => of == of' && name == name'
  | .prototype of, .prototype of' => of == of'
  | _, _ => false

/-- `items.includes(value)`, of items that come from elsewhere than the value. -/
def includes (items : List Json) (value : Value) : Bool :=
  items.any fun item =>
    match item, value with
    | .number .nan, .json (.number .nan) => true
    | item, value => strictEquals false (.json item) value

/-- `typeof item === 'string' ? item.toLowerCase() : item`. -/
def lowerText (engine : Engine) : Json → Json
  | .string s => .string (engine.toLowerCase s)
  | item => item

def compareNumbers (left right : Value) (compare : ℚ → ℚ → Bool) (engine : Engine) :
    Except Thrown Bool := do
  let a ← converted (left.toNumber engine)
  let b ← converted (right.toNumber engine)
  return a.isFinite && b.isFinite && compare a.value b.value

-- ---------------------------------------------------------------------------
-- Patterns
-- ---------------------------------------------------------------------------

/-- Inline-flag prefixes JavaScript accepts once translated. -/
def supportedInlineFlags : JsString := js "imsu"

/-- `^\(\?([a-zA-Z]+)\)`: the letters of a leading flag group and what follows it. -/
def inlineFlags (pattern : JsString) : Option (JsString × JsString) :=
  match pattern with
  | leftParen :: c :: rest =>
    let letters := rest.takeWhile isLetter
    match rest.dropWhile isLetter with
    | rightParen :: body => if c = unit '?' ∧ letters ≠ [] then some (letters, body) else none
    | _ => none
  | _ => none

/-- The compiled pattern's `test`; `none` is a `SyntaxError`. -/
def compilePattern (engine : Engine) (pattern : JsString) : Option (JsString → Bool) :=
  match inlineFlags pattern with
  | none => compileRegExp engine pattern []
  | some (requested, body) =>
    if requested.any (fun flag => !supportedInlineFlags.contains flag) then none
    else compileRegExp engine body requested.eraseDups

/-- What a pattern is matched against: a string, or an array joined by blanks. -/
def haystack (engine : Engine) : Value → Except Thrown (Option JsString)
  | .json (.array items) => some <$> converted (joinItems engine [blank] items)
  | .prototype .array => .ok (some [])
  | .json (.string s) => .ok (some s)
  | _ => .ok none

def matchesPattern (engine : Engine) (value pattern : Value) : Except Thrown Bool :=
  match pattern with
  | .json (.string pattern) => do
    match ← haystack engine value with
    | none => return false
    | some text =>
      match compilePattern engine pattern with
      | some test => return test text
      -- a malformed pattern must not silently allow the request through
      | none => return false
  | _ => return false

-- ---------------------------------------------------------------------------
-- Conditions
-- ---------------------------------------------------------------------------

def applyOperator (engine : Engine) (op : Operator) (path : JsString) (expected : Value)
    (input : EvaluationInput) : Except Thrown Bool :=
  let actual := readPath input path
  match op with
  | .eq => return strictEquals false actual expected
  | .ne => return !strictEquals false actual expected
  | .in_ => return includes (asArray expected) actual
  | .notIn => return !includes (asArray expected) actual
  | .matches_ => matchesPattern engine actual expected
  | .notMatches => return !(← matchesPattern engine actual expected)
  | .gt => compareNumbers actual expected (fun a b => decide (b < a)) engine
  | .gte => compareNumbers actual expected (fun a b => decide (b ≤ a)) engine
  | .lt => compareNumbers actual expected (fun a b => decide (a < b)) engine
  | .lte => compareNumbers actual expected (fun a b => decide (a ≤ b)) engine
  | .exists_ => return !isMissing actual
  | .missing => return isMissing actual
  | .contains => return includes (asArray actual) expected
  | .notContains => return !includes (asArray actual) expected
  | .containsAny =>
    return (asArray expected).any fun candidate =>
      includes ((asArray actual).map (lowerText engine)) (.json (lowerText engine candidate))
  | .startsWith =>
    match actual, expected with
    | .json (.string s), .json (.string start) => return start.isPrefixOf s
    | _, _ => return false
  | .eqField =>
    match expected with
    | .json (.string field) =>
      return strictEquals (decide (path = field)) actual (readPath input field)
    | _ => return false
  | .neField =>
    match expected with
    | .json (.string field) =>
      return !strictEquals (decide (path = field)) actual (readPath input field)
    | _ => return false
where
  isMissing : Value → Bool
    | .undefined | .json .null => true
    | _ => false

/-- The value of a condition, `undefined` when the file gives none. -/
def expectedValue (value : Option Json) : Value := (value.map Value.json).getD .undefined

/-- A condition with neither a combinator nor both path and operator never holds. -/
def applyLeaf (engine : Engine) (path : Option JsString) (op : Option Operator)
    (value : Option Json) (input : EvaluationInput) : Except Thrown Bool :=
  match path, op with
  | some path, some op =>
    if path = [] then return false
    else applyOperator engine op path (expectedValue value) input
  | _, _ => return false

def evaluateCondition (engine : Engine) (input : EvaluationInput) : Condition → Except Thrown Bool
  | ⟨_, _, _, some children, _, _⟩ => every children
  | ⟨_, _, _, none, some children, _⟩ => some' children
  | ⟨_, _, _, none, none, some child⟩ => (!·) <$> evaluateCondition engine input child
  | ⟨path, op, value, none, none, none⟩ => applyLeaf engine path op value input
where
  every : List Condition → Except Thrown Bool
    | [] => return true
    | child :: rest => do if ← evaluateCondition engine input child then every rest else return false
  some' : List Condition → Except Thrown Bool
    | [] => return false
    | child :: rest => do if ← evaluateCondition engine input child then return true else some' rest

-- ---------------------------------------------------------------------------
-- Bundles
-- ---------------------------------------------------------------------------

structure RuleTraceEntry where
  ruleId : JsString
  matched : Bool
  effect : Option Decision
  detail : Option JsString
  deriving DecidableEq

structure PolicyResult where
  decision : Decision
  ruleId : JsString
  reason : JsString
  rateTier : Option JsString
  trace : List RuleTraceEntry
  evaluatedRules : Nat
  deriving DecidableEq

/-- `rule.rateTier` when it is truthy. -/
def Rule.tier (rule : Rule) : Option JsString := rule.rateTier.filter fun tier => !tier.isEmpty

def Effect.decision? : Effect → Option Decision
  | .decide decision => some decision
  | .annotate => none

/-- `rule.reason ?? rule.description`; a description is always there. -/
def Rule.statedReason (rule : Rule) : JsString := rule.reason.getD rule.description

def traceEntry (rule : Rule) (matched : Bool) : RuleTraceEntry where
  ruleId := rule.id
  matched := matched
  effect := rule.effect.decision?
  detail :=
    if rule.effect = .annotate ∧ matched = true then
      rule.tier.map fun tier => js "rateTier=" ++ tier
    else none

/-- Ties break on id. -/
def byPriority (engine : Engine) (a b : Rule) : ℤ :=
  if a.priority = b.priority then engine.localeCompare a.id b.id
  else (a.priority : ℤ) - b.priority

def ordered (engine : Engine) (rules : List Rule) : List Rule :=
  rules.mergeSort fun a b => decide (byPriority engine a b ≤ 0)

def evaluateRules (engine : Engine) (bundle : Bundle) (input : EvaluationInput) :
    List RuleTraceEntry → Option JsString → List Rule → Except Thrown PolicyResult
  | trace, rateTier, [] =>
    return { decision := bundle.defaultEffect
             ruleId := bundle.name ++ js ".default"
             reason := bundle.defaultReason
             rateTier
             trace
             evaluatedRules := trace.length }
  | trace, rateTier, rule :: rest => do
    let matched ← evaluateCondition engine input rule.match
    let trace := trace ++ [traceEntry rule matched]
    if matched then
      match rule.effect with
      | .annotate => evaluateRules engine bundle input trace (rule.tier.or rateTier) rest
      | .decide decision =>
        return { decision
                 ruleId := rule.id
                 reason := rule.statedReason
                 rateTier
                 trace
                 evaluatedRules := trace.length }
    else evaluateRules engine bundle input trace rateTier rest

def evaluate (engine : Engine) (bundle : Bundle) (input : EvaluationInput) :
    Except Thrown PolicyResult :=
  evaluateRules engine bundle input [] none (ordered engine bundle.rules)

end McpGateway.Policy
