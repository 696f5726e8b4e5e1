import McpGateway.Lib.History
import McpGateway.Salesforce.Tools

/-!
# Invisible records do not show

Looking an id up and then asking whether the record is visible is looking it up
among the visible records, as long as ids are unique. So every tool answers from
what the principal sees, and leaves two datasets alike that were.
-/

namespace McpGateway.Salesforce

open Js Shared McpGateway.Runtime

-- ---------------------------------------------------------------------------
-- Lookups
-- ---------------------------------------------------------------------------

theorem find?_filter_of_nodup {α κ : Type} [BEq κ] [LawfulBEq κ] {key : α → κ} {keep : α → Bool}
    {xs : List α} (h : (xs.map key).Nodup) (k : κ) :
    (xs.find? fun x => key x == k).filter keep = (xs.filter keep).find? fun x => key x == k := by
  induction xs with
  | nil => rfl
  | cons x xs ih =>
    obtain ⟨hx, hxs⟩ := List.nodup_cons.mp h
    by_cases hk : key x = k
    · have hrest : (xs.filter keep).find? (fun y => key y == k) = none := by
        rw [List.find?_eq_none]
        intro y hy hyk
        refine hx (List.mem_map.mpr ⟨y, (List.mem_filter.mp hy).1, ?_⟩)
        rw [hk, LawfulBEq.eq_of_beq hyk]
      by_cases hkeep : keep x = true
      · simp [hk, hkeep]
      · simp [hk, hkeep, hrest]
    · by_cases hkeep : keep x = true
      · simp [hk, hkeep, ih hxs]
      · simp [hk, hkeep, ih hxs]

section
variable {engine : Engine} {sorter : Sorter} {p : DownstreamPrincipal} {d d' : Dataset}

-- ---------------------------------------------------------------------------
-- Records and their types
-- ---------------------------------------------------------------------------

theorem toCrmRecord_injective : Function.Injective ContactRecord.toCrmRecord := by
  rintro ⟨r, account, email, phone, haccount, hemail, hphone⟩ ⟨r', _, _, _, haccount', hemail', hphone'⟩ hr
  obtain rfl : r = r' := hr
  rw [haccount] at haccount'
  rw [hemail] at hemail'
  rw [hphone] at hphone'
  cases haccount'
  cases hemail'
  cases hphone'
  rfl

theorem OpportunityRecord.toCrmRecord_injective :
    Function.Injective OpportunityRecord.toCrmRecord := by
  rintro ⟨r, stage, amount, probability, close, hstage, hamount, hprobability, hclose⟩
    ⟨r', _, _, _, _, hstage', hamount', hprobability', hclose'⟩ hr
  obtain rfl : r = r' := hr
  rw [hstage] at hstage'
  rw [hamount] at hamount'
  rw [hprobability] at hprobability'
  rw [hclose] at hclose'
  cases hstage'
  cases hamount'
  cases hprobability'
  cases hclose'
  rfl

-- ---------------------------------------------------------------------------
-- Two datasets a principal cannot tell apart
-- ---------------------------------------------------------------------------

def Dataset.ids (dataset : Dataset) : List JsString :=
  [SObjectName.account, .opportunity, .contact, .task].flatMap fun object =>
    (dataset.records object).map CrmRecord.id

/-- No two records of the dataset have one id. -/
def Dataset.UniqueIds (dataset : Dataset) : Prop := dataset.ids.Nodup

def Dataset.referable (dataset : Dataset) : List CrmRecord :=
  dataset.records .account ++ (dataset.records .opportunity ++ dataset.records .contact)

theorem Dataset.UniqueIds.referable (h : d.UniqueIds) : (d.referable.map CrmRecord.id).Nodup := by
  unfold Dataset.UniqueIds Dataset.ids at h
  simp only [List.flatMap_cons, List.flatMap_nil, List.append_nil, ← List.append_assoc] at h
  simpa [Dataset.referable, List.append_assoc] using (List.nodup_append.mp h).1

structure Alike (p : DownstreamPrincipal) (d d' : Dataset) : Prop where
  unique : (d.referable.map CrmRecord.id).Nodup
  unique' : (d'.referable.map CrmRecord.id).Nodup
  visible : ∀ object, visibleRecords d object p = visibleRecords d' object p

theorem referenced_eq (id : JsString) :
    referenced d id = d.referable.find? fun record => record.id == id := by
  simp [referenced, Dataset.referable, List.find?_append]

theorem visible_referable (h : ∀ object, visibleRecords d object p = visibleRecords d' object p) :
    (d.referable.filter fun record => isVisible record p) =
      d'.referable.filter fun record => isVisible record p := by
  unfold visibleRecords at h
  simp only [Dataset.referable, List.filter_append, h]

theorem visible_contacts (h : ∀ object, visibleRecords d object p = visibleRecords d' object p) :
    (d.contacts.filter fun contact => isVisible contact.toCrmRecord p) =
      d'.contacts.filter fun contact => isVisible contact.toCrmRecord p := by
  apply List.map_injective_iff.mpr toCrmRecord_injective
  have hcontacts := h .contact
  unfold visibleRecords Dataset.records at hcontacts
  simpa only [List.filter_map, Function.comp_def] using hcontacts

theorem visible_opportunities
    (h : ∀ object, visibleRecords d object p = visibleRecords d' object p) :
    (d.opportunities.filter fun opportunity => isVisible opportunity.toCrmRecord p) =
      d'.opportunities.filter fun opportunity => isVisible opportunity.toCrmRecord p := by
  apply List.map_injective_iff.mpr OpportunityRecord.toCrmRecord_injective
  have hopportunities := h .opportunity
  unfold visibleRecords Dataset.records at hopportunities
  simpa only [List.filter_map, Function.comp_def] using hopportunities

-- ---------------------------------------------------------------------------
-- The tools
-- ---------------------------------------------------------------------------

theorem query_alike (h : Alike p d d') (soql : JsString) :
    query engine sorter d p soql = query engine sorter d' p soql := by
  have hpermitted (object : ResolvedObject) :
      permittedRecords d p object = permittedRecords d' p object := by
    cases object with
    | sobject name => exact h.visible name
    | inherited value => rfl
  unfold query
  simp only [hpermitted]

theorem findVisible_alike (h : Alike p d d') (id : JsString) :
    findVisible p d.accounts id = findVisible p d'.accounts id := by
  have hunique (e : Dataset) (he : (e.referable.map CrmRecord.id).Nodup) :
      (e.accounts.map CrmRecord.id).Nodup := by
    unfold Dataset.referable at he
    rw [List.map_append] at he
    exact (List.nodup_append.mp he).1
  unfold findVisible
  rw [find?_filter_of_nodup (hunique d h.unique), find?_filter_of_nodup (hunique d' h.unique')]
  exact congrArg _ (h.visible .account)

def visibleContact (p : DownstreamPrincipal) (dataset : Dataset) (id : JsString) :
    Option ContactRecord :=
  (dataset.contacts.filter fun contact => isVisible contact.toCrmRecord p).find? fun contact =>
    contact.id == id

theorem getContact_eq (h : (d.referable.map CrmRecord.id).Nodup) (id : JsString) :
    getContact d p id =
      match visibleContact p d id with
      | some contact => .ok (.object
          [(js "contact", contact.json),
            (js "account", ((findVisible p d.accounts contact.accountId).map CrmRecord.json).getD .null),
            (js "visibility", .string (describeVisibility p))])
      | none => .error (.gateway (notFoundError (js "Contact " ++ id))) := by
  have hunique : (d.contacts.map fun contact => contact.id).Nodup := by
    unfold Dataset.referable at h
    rw [List.map_append, List.map_append, ← List.append_assoc] at h
    have hcontacts := (List.nodup_append.mp h).2.1
    unfold Dataset.records at hcontacts
    rwa [List.map_map] at hcontacts
  unfold visibleContact getContact
  rw [← find?_filter_of_nodup hunique]
  cases d.contacts.find? fun contact => contact.id == id with
  | none => rfl
  | some contact =>
    dsimp only
    rw [Option.filter_some]
    by_cases hvisible : isVisible contact.toCrmRecord p = true
    · rw [if_pos hvisible, if_pos hvisible]
    · rw [if_neg hvisible, if_neg hvisible]

theorem getContact_alike (h : Alike p d d') (id : JsString) :
    getContact d p id = getContact d' p id := by
  rw [getContact_eq h.unique, getContact_eq h.unique']
  unfold visibleContact
  rw [visible_contacts h.visible]
  simp only [findVisible_alike h]

theorem listOpportunities_alike (h : Alike p d d') (args : ListArguments) :
    listOpportunities engine sorter d p {} args = listOpportunities engine sorter d' p {} args := by
  unfold listOpportunities
  simp only [visible_opportunities h.visible]

theorem checkReference_alike (h : Alike p d d') (label : JsString) (id : Option JsString) :
    checkReference d p label id = checkReference d' p label id := by
  have hreferenced (id : JsString) :
      (referenced d id).filter (fun record => isVisible record p) =
        (referenced d' id).filter fun record => isVisible record p := by
    rw [referenced_eq, referenced_eq, find?_filter_of_nodup h.unique,
      find?_filter_of_nodup h.unique', visible_referable h.visible]
  unfold checkReference
  simp only [hreferenced]

theorem Alike.addTask (h : Alike p d d') (task : CrmRecord) :
    Alike p { d with tasks := d.tasks ++ [task] } { d' with tasks := d'.tasks ++ [task] } := by
  refine ⟨h.unique, h.unique', ?_⟩
  intro object
  cases object with
  | task =>
    have htasks := h.visible .task
    unfold visibleRecords Dataset.records at htasks ⊢
    simp only [List.filter_append, htasks]
  | account => exact h.visible .account
  | contact => exact h.visible .contact
  | opportunity => exact h.visible .opportunity

theorem createTask_alike (h : Alike p d d') (args : TaskArguments) (randomUUID : JsString)
    (now : TimeValue) :
    SameOutcome (Alike p) (createTask d p args randomUUID now)
      (createTask d' p args randomUUID now) := by
  unfold createTask
  rw [checkReference_alike h, checkReference_alike h]
  cases checkReference d' p (js "relatedTo") args.relatedTo with
  | error e => exact .error e
  | ok =>
    cases checkReference d' p (js "contactId") args.contactId with
    | error e => exact .error e
    | ok => exact .ok _ (h.addTask _)

theorem sameOutcome_map (h : Alike p d d') (result : Except Thrown Json) :
    SameOutcome (Alike p) (result.map (·, d)) (result.map (·, d')) := by
  cases result with
  | error e => exact .error e
  | ok result => exact .ok result h

theorem handler_alike (h : Alike p d d') (call : Call) :
    SameOutcome (Alike p) (handler engine sorter d p call) (handler engine sorter d' p call) := by
  cases call with
  | query soql =>
    unfold handler
    dsimp only
    rw [query_alike h]
    exact sameOutcome_map h _
  | getContact contactId =>
    unfold handler
    dsimp only
    rw [getContact_alike h]
    exact sameOutcome_map h _
  | listOpportunities args =>
    unfold handler
    dsimp only
    rw [listOpportunities_alike h]
    exact sameOutcome_map h _
  | createTask args randomUUID now => exact createTask_alike h args randomUUID now

end

-- ---------------------------------------------------------------------------
-- Runs
-- ---------------------------------------------------------------------------

def responses (engine : Engine) (sorter : Sorter) (p : DownstreamPrincipal) (dataset : Dataset)
    (calls : List Call) : List ToolResponse :=
  (History.transcript (step engine sorter p) dataset calls).map Prod.snd

theorem responses_from_visible (engine : Engine) (sorter : Sorter) (p : DownstreamPrincipal)
    (d d' : Dataset) (hd : d.UniqueIds) (hd' : d'.UniqueIds)
    (hvisible : ∀ object, visibleRecords d object p = visibleRecords d' object p)
    (calls : List Call) : responses engine sorter p d calls = responses engine sorter p d' calls := by
  unfold responses
  congr 1
  apply History.transcript_eq_of_related (R := Alike p)
  · intro s s' call h
    exact callTool_related h (handler_alike h call)
  · exact ⟨hd.referable, hd'.referable, hvisible⟩

def contactOf (owner id : JsString) : ContactRecord where
  props :=
    [(js "Id", .string id), (js "TenantId", .string (js "acme-corp")),
      (js "OwnerId", .string owner), (js "AccountId", .string (js "001")),
      (js "Email", .string (js "noah@acme.example")), (js "Phone", .string (js "555-0100"))]
  id
  tenantId := js "acme-corp"
  ownerId := owner
  territory := none
  accountId := js "001"
  email := js "noah@acme.example"
  phone := js "555-0100"
  hasId := rfl
  hasTenantId := rfl
  hasOwnerId := rfl
  hasTerritory := rfl
  hasAccountId := rfl
  hasEmail := rfl
  hasPhone := rfl

def crm (contacts : List ContactRecord) : Dataset := ⟨[], contacts, [], []⟩

def alice : DownstreamPrincipal where
  subject := js "usr_alice"
  tenantId := js "acme-corp"
  scopes := [js "salesforce:read", js "salesforce:write"]
  territory := none

def probes : List Call :=
  [.getContact (js "003B"),
    .createTask { subject := js "call", contactId := some (js "003B"), dueDate := js "2026-01-01" }
      (js "5f3a71c9-0000-4000-8000-000000000000") ⟨0, epoch_inRange⟩,
    .query (js "SELECT * FROM Contact")]

theorem bobs_contact_does_not_show :
    responses plainEngine mergeSorter alice
        (crm [contactOf (js "usr_bob") (js "003B"), contactOf (js "usr_alice") (js "003A")]) probes =
      responses plainEngine mergeSorter alice (crm [contactOf (js "usr_alice") (js "003A")])
        probes := by
  have hhidden : isVisible (contactOf (js "usr_bob") (js "003B")).toCrmRecord alice = false := by
    decide +kernel
  apply responses_from_visible
  · unfold Dataset.UniqueIds
    decide +kernel
  · unfold Dataset.UniqueIds
    decide +kernel
  · intro object
    unfold visibleRecords
    cases object with
    | contact => simp only [crm, Dataset.records, List.map_cons, List.filter_cons, hhidden]; rfl
    | account => exact List.filter_nil
    | opportunity => exact List.filter_nil
    | task => exact List.filter_nil

end McpGateway.Salesforce
