import McpGateway.Js.Convert
import McpGateway.Runtime.Tool

/-!
# The CRM records

A record is the object that was loaded, with the properties its type promises.
What a caller sees of the records is decided by the scopes of the token, the
tenant first.
-/

namespace McpGateway.Salesforce

open Js McpGateway.Runtime

structure CrmRecord where
  props : List (JsString × Json)
  id : JsString
  tenantId : JsString
  ownerId : JsString
  territory : Option JsString
  hasId : props.lookup (js "Id") = some (.string id)
  hasTenantId : props.lookup (js "TenantId") = some (.string tenantId)
  hasOwnerId : props.lookup (js "OwnerId") = some (.string ownerId)
  hasTerritory : props.lookup (js "Territory") = territory.map .string

structure ContactRecord extends CrmRecord where
  accountId : JsString
  email : JsString
  phone : JsString
  hasAccountId : props.lookup (js "AccountId") = some (.string accountId)
  hasEmail : props.lookup (js "Email") = some (.string email)
  hasPhone : props.lookup (js "Phone") = some (.string phone)

structure OpportunityRecord extends CrmRecord where
  stageName : JsString
  amount : JsNumber
  probability : JsNumber
  closeDate : JsString
  hasStageName : props.lookup (js "StageName") = some (.string stageName)
  hasAmount : props.lookup (js "Amount") = some (.number amount)
  hasProbability : props.lookup (js "Probability") = some (.number probability)
  hasCloseDate : props.lookup (js "CloseDate") = some (.string closeDate)

def CrmRecord.json (record : CrmRecord) : Json := .object record.props

inductive SObjectName
  | account
  | contact
  | opportunity
  | task
  deriving DecidableEq

def SObjectName.text : SObjectName → JsString
  | .account => js "Account"
  | .contact => js "Contact"
  | .opportunity => js "Opportunity"
  | .task => js "Task"

structure Dataset where
  accounts : List CrmRecord
  contacts : List ContactRecord
  opportunities : List OpportunityRecord
  tasks : List CrmRecord

def Dataset.records (dataset : Dataset) : SObjectName → List CrmRecord
  | .account => dataset.accounts
  | .contact => dataset.contacts.map ContactRecord.toCrmRecord
  | .opportunity => dataset.opportunities.map OpportunityRecord.toCrmRecord
  | .task => dataset.tasks

-- ---------------------------------------------------------------------------
-- Visibility
-- ---------------------------------------------------------------------------

inductive Visibility
  | own
  | territory
  | tenant
  deriving DecidableEq

def Visibility.text : Visibility → JsString
  | .own => js "own"
  | .territory => js "territory"
  | .tenant => js "tenant"

def visibilityFor (principal : DownstreamPrincipal) : Visibility :=
  if principal.scopes.contains (js "salesforce:read.all") then .tenant
  else if principal.scopes.contains (js "salesforce:read.team") then .territory
  else .own

def isVisible (record : CrmRecord) (principal : DownstreamPrincipal) : Bool :=
  if record.tenantId ≠ principal.tenantId then false
  else
    match visibilityFor principal with
    | .tenant => true
    -- without a territory on the token nothing is in it
    | .territory => principal.territory.isSome && record.territory == principal.territory
    | .own => record.ownerId == principal.subject

def visibleRecords (dataset : Dataset) (object : SObjectName) (principal : DownstreamPrincipal) :
    List CrmRecord :=
  (dataset.records object).filter fun record => isVisible record principal

def describeVisibility (principal : DownstreamPrincipal) : JsString :=
  match visibilityFor principal with
  | .tenant => js "All records in the tenant (salesforce:read.all)"
  | .territory =>
    js "Records in the " ++ principal.territory.getD (js "unknown") ++
      js " territory (salesforce:read.team)"
  | .own => js "Records owned by the caller (salesforce:read)"

end McpGateway.Salesforce
