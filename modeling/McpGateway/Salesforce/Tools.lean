import McpGateway.Js.Map
import McpGateway.Salesforce.Soql

/-!
# The CRM tools

Four tools over one dataset, of which only the last changes it. A call that
creates a task carries the random id and the clock it will read.
-/

namespace McpGateway.Salesforce

open Js Shared McpGateway.Runtime

def maxRows : Nat := 200

structure ListArguments where
  stage : Option JsString := none
  minAmount : Option JsNumber := none
  closingBefore : Option JsString := none
  openOnly : Bool := false
  limit : Nat := 50

structure TaskArguments where
  subject : JsString
  relatedTo : Option JsString := none
  contactId : Option JsString := none
  dueDate : JsString
  priority : JsString := js "Normal"

inductive Call
  | query (soql : JsString)
  | getContact (contactId : JsString)
  | listOpportunities (args : ListArguments)
  | createTask (args : TaskArguments) (randomUUID : JsString) (now : TimeValue)

def Call.requiredScopes : Call → List JsString
  | .query _ | .getContact _ | .listOpportunities _ => [js "salesforce:read"]
  | .createTask .. => [js "salesforce:write"]

-- ---------------------------------------------------------------------------
-- Arguments
-- ---------------------------------------------------------------------------

def stringOf (minLength : Nat) : Json → Option JsString
  | .string s => if minLength ≤ s.length then some s else none
  | _ => none

def booleanOf : Json → Option Bool
  | .boolean b => some b
  | _ => none

def amountOf : Json → Option JsNumber
  | .number n => if (JsNumber.finite 0).le n then some n else none
  | _ => none

def limitOf : Json → Option Nat
  | .number (.finite q) => if q.den = 1 ∧ 1 ≤ q ∧ q ≤ maxRows then some q.num.toNat else none
  | _ => none

def optionalArgument {α : Type} (arguments : List (JsString × Json)) (name : String)
    (read : Json → Option α) : Option (Option α) :=
  match arguments.lookup (js name) with
  | none => some none
  | some v => (read v).map some

/-- The arguments of a tool that reads, validated; `none` is refused. -/
def readArguments (tool : JsString) (arguments : List (JsString × Json)) : Option Call :=
  if tool = js "sf.query" then
    ((arguments.lookup (js "soql")).bind (stringOf 1)).map .query
  else if tool = js "sf.get_contact" then
    ((arguments.lookup (js "contactId")).bind (stringOf 3)).map .getContact
  else if tool = js "sf.list_opportunities" then do
    let stage ← optionalArgument arguments "stage" (stringOf 0)
    let minAmount ← optionalArgument arguments "minAmount" amountOf
    let closingBefore ← optionalArgument arguments "closingBefore" (stringOf 0)
    let openOnly ← optionalArgument arguments "openOnly" booleanOf
    let limit ← optionalArgument arguments "limit" limitOf
    return .listOpportunities
      { stage, minAmount, closingBefore, openOnly := openOnly.getD false, limit := limit.getD 50 }
  else none

-- ---------------------------------------------------------------------------
-- Results
-- ---------------------------------------------------------------------------

def natural (n : Nat) : Json := .number (.finite n)

def truthy (text : Option JsString) : Option JsString := text.filter fun s => !s.isEmpty

section
variable (engine : Engine) (sorter : Sorter) (dataset : Dataset) (principal : DownstreamPrincipal)

-- ---------------------------------------------------------------------------
-- sf.query
-- ---------------------------------------------------------------------------

def permittedRecords : ResolvedObject → List CrmRecord
  | .sobject object => visibleRecords dataset object principal
  | .inherited _ => []

/-- A function is not printed. -/
def ResolvedObject.props : ResolvedObject → List (JsString × Json)
  | .sobject name => [(js "object", .string name.text)]
  | .inherited (.json v) => [(js "object", v)]
  | .inherited (.prototype .object) => [(js "object", .object [])]
  | .inherited (.prototype .array) => [(js "object", .array [])]
  | .inherited _ => []

def query (soql : JsString) : Except Thrown Json := do
  let parsed ← parseSoql soql
  -- visibility is applied before the query runs
  let permitted := permittedRecords dataset principal parsed.object
  let result ← executeQuery engine sorter parsed permitted maxRows
  return .object
    ([(js "totalSize", natural result.totalSize), (js "done", .boolean result.done),
        (js "records", .array result.records)] ++
      parsed.object.props ++
      [(js "visibility", .string (describeVisibility principal)),
        (js "recordsInScope", natural permitted.length)])

-- ---------------------------------------------------------------------------
-- sf.get_contact
-- ---------------------------------------------------------------------------

def findVisible (records : List CrmRecord) (id : JsString) : Option CrmRecord :=
  (records.find? fun record => record.id == id).filter fun record => isVisible record principal

def getContact (contactId : JsString) : Except Thrown Json :=
  match dataset.contacts.find? fun record => record.id == contactId with
  | some contact =>
    if isVisible contact.toCrmRecord principal then
      let account := findVisible principal dataset.accounts contact.accountId
      .ok (.object
        [(js "contact", contact.json),
          (js "account", (account.map CrmRecord.json).getD .null),
          (js "visibility", .string (describeVisibility principal))])
    else .error (.gateway (notFoundError (js "Contact " ++ contactId)))
  | none => .error (.gateway (notFoundError (js "Contact " ++ contactId)))

-- ---------------------------------------------------------------------------
-- sf.list_opportunities
-- ---------------------------------------------------------------------------

def keeps (args : ListArguments) (opportunity : OpportunityRecord) : Bool :=
  (truthy args.stage).all (fun stage =>
    engine.toLowerCase opportunity.stageName == engine.toLowerCase stage) &&
  args.minAmount.all (fun minAmount => !opportunity.amount.lt minAmount) &&
  !(args.openOnly && (js "Closed").isPrefixOf opportunity.stageName) &&
  (truthy args.closingBefore).all fun closingBefore =>
    !(engine.parsedDate closingBefore).le (engine.parsedDate opportunity.closeDate)

structure StageTotal where
  count : Nat
  value : JsNumber

/-- What the process has on `Object.prototype` besides what the language puts there: the entry of
a stage named `__proto__` is `Object.prototype` itself, and counting in it leaves it with a
`count` and a `value`, both NaN. -/
structure ObjectPrototype where
  counted : Bool := false
  deriving DecidableEq

def ObjectPrototype.names (prototype : ObjectPrototype) : List JsString :=
  inheritedNames ++ if prototype.counted then [js "count", js "value"] else []

def addToStage (totals : JsMap JsString StageTotal) (opportunity : OpportunityRecord) :
    JsMap JsString StageTotal :=
  let entry := (totals.get opportunity.stageName).getD { count := 0, value := .finite 0 }
  totals.set opportunity.stageName
    { count := entry.count + 1, value := entry.value.add opportunity.amount }

structure Stages where
  totals : JsMap JsString StageTotal
  prototype : ObjectPrototype

/-- A turn of the loop over the opportunities. A new stage named like an inherited NaN has the
NaN for its entry, and a property of a number cannot be set. -/
def Stages.add (stages : Stages) (opportunity : OpportunityRecord) : Except Thrown Stages :=
  let name := opportunity.stageName
  if (stages.totals.get name).isNone && stages.prototype.counted &&
      [js "count", js "value"].contains name then
    .error (.other (some (js "Cannot create property 'count' on number 'NaN'")))
  else
    .ok
      { totals := addToStage stages.totals opportunity
        prototype := { counted := stages.prototype.counted || name == js "__proto__" } }

def arrayIndex (name : JsString) : Option Nat :=
  let n := Json.digitsValue name
  if name.all isDigit && name == decimal n && n < 2 ^ 32 - 1 then some n else none

/-- The order of an object's properties: array indices come first. -/
def propertyOrder {α : Type} (props : List (JsString × α)) : List (JsString × α) :=
  (props.filter fun p => (arrayIndex p.1).isSome).mergeSort
      (fun p q => (arrayIndex p.1).getD 0 ≤ (arrayIndex q.1).getD 0) ++
    props.filter fun p => !(arrayIndex p.1).isSome

def StageTotal.json (total : StageTotal) : Json :=
  .object [(js "count", natural total.count), (js "value", .number total.value)]

/-- The entry of a name that the language puts on `Object.prototype` is what is inherited, and
not printed. -/
def stagesJson (totals : JsMap JsString StageTotal) : Json :=
  .object ((propertyOrder (totals.entries.filter fun e => !inheritedNames.contains e.1)).map
    fun e => (e.1, e.2.json))

/-- The result, and what `Object.prototype` has afterwards. -/
def listOpportunities (prototype : ObjectPrototype) (args : ListArguments) :
    Except Thrown (Json × ObjectPrototype) := do
  let permitted := dataset.opportunities.filter fun record =>
    isVisible record.toCrmRecord principal
  let filtered := permitted.filter (keeps engine args)
  let sorted := sorter.sort (fun a b => b.amount.sub a.amount) filtered
  let totalValue := filtered.foldl
    (fun sum opportunity => JsNumber.add sum opportunity.amount) (.finite 0)
  let weightedValue := filtered.foldl
    (fun sum opportunity =>
      JsNumber.add sum ((opportunity.amount.mul opportunity.probability).divBy 100)) (.finite 0)
  let byStage ← filtered.foldlM Stages.add { totals := .empty, prototype }
  return (.object
    [(js "totalSize", natural filtered.length),
      (js "totalValue", .number totalValue.round),
      (js "weightedValue", .number weightedValue.round),
      (js "byStage", stagesJson byStage.totals),
      (js "visibility", .string (describeVisibility principal)),
      (js "visibilityLevel", .string (visibilityFor principal).text),
      (js "records", .array ((sorted.take args.limit).map fun record => record.json))],
    byStage.prototype)

-- ---------------------------------------------------------------------------
-- sf.create_task
-- ---------------------------------------------------------------------------

def referenced (id : JsString) : Option CrmRecord :=
  ((dataset.records .account).find? fun record => record.id == id).or
    (((dataset.records .opportunity).find? fun record => record.id == id).or
      ((dataset.records .contact).find? fun record => record.id == id))

def checkReference (label : JsString) (id : Option JsString) : Except Thrown Unit :=
  match truthy id with
  | none => .ok ()
  | some id =>
    match (referenced dataset id).filter fun record => isVisible record principal with
    | some _ => .ok ()
    | none =>
      .error (.gateway (notFoundError (js "Record " ++ id ++ js " referenced by " ++ label)))

def optionalText (text : Option JsString) : Json := (text.map Json.string).getD .null

def taskRecord (args : TaskArguments) (randomUUID : JsString) (now : TimeValue) : CrmRecord :=
  let id := js "00T" ++ toUpperCase ((randomUUID.filter (· ≠ hyphen)).take 12)
  { props :=
      [(js "Id", .string id),
        (js "TenantId", .string principal.tenantId),
        (js "Subject", .string args.subject),
        (js "WhatId", optionalText args.relatedTo),
        (js "WhoId", optionalText args.contactId),
        (js "ActivityDate", .string args.dueDate),
        (js "Status", .string (js "Not Started")),
        (js "Priority", .string args.priority),
        -- ownership follows the token, not an argument
        (js "OwnerId", .string principal.subject),
        (js "CreatedDate", .string now.isoString)]
    id
    tenantId := principal.tenantId
    ownerId := principal.subject
    territory := none
    hasId := rfl
    hasTenantId := rfl
    hasOwnerId := rfl
    hasTerritory := rfl }

def createTask (args : TaskArguments) (randomUUID : JsString) (now : TimeValue) :
    Except Thrown (Json × Dataset) := do
  checkReference dataset principal (js "relatedTo") args.relatedTo
  checkReference dataset principal (js "contactId") args.contactId
  let task := taskRecord principal args randomUUID now
  return (.object [(js "created", .boolean true), (js "task", task.json)],
    { dataset with tasks := dataset.tasks ++ [task] })

-- ---------------------------------------------------------------------------
-- Calls
-- ---------------------------------------------------------------------------

/-- A call, in a process whose `Object.prototype` is the one of the language. -/
def handler (call : Call) : Except Thrown (Json × Dataset) :=
  match call with
  | .query soql => (query engine sorter dataset principal soql).map (·, dataset)
  | .getContact contactId => (getContact dataset principal contactId).map (·, dataset)
  | .listOpportunities args =>
    ((listOpportunities engine sorter dataset principal {} args).map Prod.fst).map (·, dataset)
  | .createTask args randomUUID now => createTask dataset principal args randomUUID now

end

def step (engine : Engine) (sorter : Sorter) (principal : DownstreamPrincipal) (dataset : Dataset)
    (call : Call) : Dataset × ToolResponse :=
  callTool call.requiredScopes principal
    (fun dataset => handler engine sorter dataset principal call) dataset

end McpGateway.Salesforce
