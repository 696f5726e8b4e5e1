import McpGateway.Js.JsonLaws
import McpGateway.Policy.Baseline
import McpGateway.Salesforce.Noninterference
import McpGateway.Salesforce.SoqlLaws

/-!
# Personal data and the restricted plan

The rule against personal data reads the text of a query, the tools decide what
is printed. A field that a query names is in its text, so the rule sees it; a
star and a lookup by id name nothing, and print whole contacts.
-/

namespace McpGateway.Salesforce

open Js Shared McpGateway.Runtime

-- ---------------------------------------------------------------------------
-- What is claimed
-- ---------------------------------------------------------------------------

def partsAt (result : Json) (name : String) : List Json :=
  match (Value.json result).member (js name) with
  | .json (.array items) => items
  | .json v => [v]
  | _ => []

def contactParts (call : Call) (result : Json) : List Json :=
  match call with
  | .query soql =>
    match parseSoql soql with
    | .ok ⟨.sobject .contact, _, _, _, _, _⟩ => partsAt result "records"
    | _ => []
  | .getContact _ => partsAt result "contact"
  | _ => []

def Prints (part : Json) (name : String) (text : JsString) : Prop :=
  ∃ props, part = .object props ∧ props.lookup (js name) = some (.string text)

def Discloses (dataset : Dataset) (call : Call) (result : Json) : Prop :=
  ∃ part ∈ contactParts call result, ∃ contact ∈ dataset.contacts,
    Prints part "Email" contact.email ∨ Prints part "Phone" contact.phone

/-- A call that the bundle allows has no personal data in its result. -/
def NothingPersonal (engine : Engine) (sorter : Sorter) (p : DownstreamPrincipal)
    (dataset : Dataset) (input : Policy.EvaluationInput) : Prop :=
  Policy.Allows engine Policy.baseline input →
    ∀ call, readArguments input.tool input.arguments = some call →
      ∀ result, (step engine sorter p dataset call).2 = .content result →
        ¬ Discloses dataset call result

structure Yields (engine : Engine) (parsed : ParsedQuery) (records : List CrmRecord) : Prop where
  runs : Runs engine parsed records
  row : matching engine parsed records ≠ []
  limit : effectiveLimit parsed.limit maxRows ≠ 0

def PrintsContact (engine : Engine) (p : DownstreamPrincipal) (dataset : Dataset) : Call → Prop
  | .query soql => ∃ parsed, parseSoql soql = .ok parsed ∧ parsed.object = .sobject .contact ∧
      parsed.fields = .star ∧ Yields engine parsed (visibleRecords dataset .contact p)
  | .getContact contactId => ∃ contact,
      (dataset.contacts.find? fun record => record.id == contactId) = some contact ∧
        isVisible contact.toCrmRecord p = true
  | _ => False

/-- The rules pass the call, the token has the scope, and a whole contact is printed. -/
structure Leaks (engine : Engine) (p : DownstreamPrincipal) (dataset : Dataset)
    (input : Policy.EvaluationInput) : Prop where
  passes : Policy.Passes engine input
  scope : hasScope p.scopes (js "salesforce:read") = true
  contact : ∃ call, readArguments input.tool input.arguments = some call ∧
    PrintsContact engine p dataset call

-- ---------------------------------------------------------------------------
-- Printing
-- ---------------------------------------------------------------------------

section
variable {engine : Engine} {sorter : Sorter} {p : DownstreamPrincipal} {dataset : Dataset}

/-- What the assignments leave under a name, they found there or wrote there at that name. -/
theorem lookup_assign {record : CrmRecord} {name : JsString} {v : Json} {out : Projected}
    {names : List JsString}
    (h : (names.foldl (Projected.assign record) out).props.lookup name = some v) :
    name ∈ names ∨ out.props.lookup name = some v := by
  induction names generalizing out with
  | nil => exact .inr h
  | cons field names ih =>
    rcases ih h with hmem | hout
    · exact .inl (List.mem_cons_of_mem field hmem)
    · unfold Projected.assign at hout
      split at hout
      · split at hout
        · exact .inr hout
        · rw [Json.lookup_setProp] at hout
          split at hout
          · next hname => exact .inl (hname ▸ List.mem_cons_self)
          · exact .inr hout
      · exact .inr hout

theorem prints_named {names : List JsString} {record : CrmRecord} {name : String} {text : JsString}
    (h : Prints (project (.named names) record) name text) : js name ∈ names := by
  obtain ⟨props, hprops, hlookup⟩ := h
  obtain rfl := Json.object.inj hprops
  refine (lookup_assign hlookup).resolve_right ?_
  rintro ⟨⟩

theorem personal_names : ∀ name ∈ ["Email", "Phone"], ∃ word ∈ Policy.personalWords,
    List.Forall₂ (fun c d => sameLetter true c d = true) word (js name) := by
  intro name hname
  rcases List.mem_cons.mp hname with rfl | hname
  · exact ⟨js "email", by decide +kernel, by decide +kernel⟩
  · obtain rfl := List.mem_singleton.mp hname
    exact ⟨js "phone", by decide +kernel, by decide +kernel⟩

-- ---------------------------------------------------------------------------
-- What an allowed call discloses
-- ---------------------------------------------------------------------------

theorem query_result {soql : JsString} {result : Json} {after : Dataset}
    (h : handler engine sorter dataset p (.query soql) = .ok (result, after)) :
    ∃ parsed rows, parseSoql soql = .ok parsed ∧
      executeQuery engine sorter parsed (permittedRecords dataset p parsed.object) maxRows =
        .ok rows ∧ partsAt result "records" = rows.records := by
  obtain ⟨value, hvalue, hresult⟩ := Outcome.map_eq_ok.mp h
  cases hresult
  obtain ⟨parsed, hparsed, hvalue⟩ := Outcome.bind_eq_ok.mp hvalue
  obtain ⟨rows, hrows, hvalue⟩ := Outcome.bind_eq_ok.mp hvalue
  cases hvalue
  exact ⟨parsed, rows, hparsed, hrows, rfl⟩

theorem query_returns (sorter : Sorter) {soql : JsString} {parsed : ParsedQuery}
    (hparsed : parseSoql soql = .ok parsed)
    (hruns : Runs engine parsed (permittedRecords dataset p parsed.object)) :
    ∃ result, handler engine sorter dataset p (.query soql) = .ok (result, dataset) := by
  obtain ⟨rows, hrows⟩ := executeQuery_returns sorter hruns maxRows
  unfold handler query
  dsimp only
  rw [hparsed, Outcome.ok_bind, hrows]
  exact ⟨_, rfl⟩

theorem query_discloses {soql : JsString} {result : Json} {after : Dataset}
    (hresult : handler engine sorter dataset p (.query soql) = .ok (result, after))
    (hwords : ∀ name ∈ ["Email", "Phone"], ¬ js name <:+: soql)
    (h : Discloses dataset (.query soql) result) : PrintsContact engine p dataset (.query soql) := by
  obtain ⟨part, hpart, contact, -, hprints⟩ := h
  obtain ⟨parsed, rows, hparsed, hrows, hparts⟩ := query_result hresult
  obtain ⟨hruns, sorted, hperm, hrecords⟩ := executeQuery_ok hrows
  unfold contactParts at hpart
  dsimp only at hpart
  rw [hparsed] at hpart
  obtain ⟨object, fields, conditions, combinator, orderBy, limit⟩ := parsed
  cases object with
  | inherited value => cases hpart
  | sobject name =>
    cases name with
    | account => cases hpart
    | opportunity => cases hpart
    | task => cases hpart
    | contact =>
      dsimp only at hpart
      rw [hparts, hrecords] at hpart
      obtain ⟨record, hrecord, rfl⟩ := List.mem_map.mp hpart
      have hmatching := hperm.mem_iff.mp (List.mem_of_mem_take hrecord)
      cases fields with
      | star =>
        refine ⟨_, hparsed, rfl, rfl, hruns, List.ne_nil_of_mem hmatching, ?_⟩
        intro hzero
        rw [hzero] at hrecord
        cases hrecord
      | named names =>
        rcases hprints with hprints | hprints
        · exact absurd (parseSoql_within hparsed rfl (prints_named hprints)) (hwords _ (by simp))
        · exact absurd (parseSoql_within hparsed rfl (prints_named hprints)) (hwords _ (by simp))

theorem star_discloses {soql : JsString} (h : PrintsContact engine p dataset (.query soql)) :
    ∃ result, handler engine sorter dataset p (.query soql) = .ok (result, dataset) ∧
      Discloses dataset (.query soql) result := by
  obtain ⟨parsed, hparsed, hobject, hfields, hyields⟩ := h
  have hruns : Runs engine parsed (permittedRecords dataset p parsed.object) := by
    rw [hobject]
    exact hyields.runs
  obtain ⟨result, hresult⟩ := query_returns sorter hparsed hruns
  refine ⟨result, hresult, ?_⟩
  obtain ⟨parsed', rows, hparsed', hrows, hparts⟩ := query_result hresult
  cases hparsed.symm.trans hparsed'
  obtain ⟨-, sorted, hperm, hrecords⟩ := executeQuery_ok hrows
  rw [hobject] at hperm
  obtain ⟨record, hrecord⟩ : ∃ record, record ∈ sorted.take (effectiveLimit parsed.limit maxRows) := by
    apply List.exists_mem_of_ne_nil
    intro hnil
    rcases List.take_eq_nil_iff.mp hnil with hzero | hempty
    · exact hyields.limit hzero
    · rw [hempty] at hperm
      exact hyields.row hperm.symm.eq_nil
  have hvisible := (List.mem_filter.mp (hperm.mem_iff.mp (List.mem_of_mem_take hrecord))).1
  obtain ⟨contact, hcontact, rfl⟩ := List.mem_map.mp (List.mem_filter.mp hvisible).1
  refine ⟨contact.json, ?_, contact, hcontact, .inl ⟨_, rfl, contact.hasEmail⟩⟩
  unfold contactParts
  obtain ⟨object, fields, conditions, combinator, orderBy, limit⟩ := parsed
  cases hobject
  dsimp only
  rw [hparsed]
  dsimp only
  rw [hparts, hrecords, hfields]
  exact List.mem_map.mpr ⟨contact.toCrmRecord, hrecord, rfl⟩

theorem getContact_result {contactId : JsString} {result : Json} {after : Dataset}
    (h : handler engine sorter dataset p (.getContact contactId) = .ok (result, after)) :
    PrintsContact engine p dataset (.getContact contactId) := by
  obtain ⟨value, hvalue, -⟩ := Outcome.map_eq_ok.mp h
  unfold getContact at hvalue
  split at hvalue
  · next contact hfind =>
    split at hvalue
    · next hvisible => exact ⟨contact, hfind, hvisible⟩
    · cases hvalue
  · cases hvalue

theorem getContact_discloses {contactId : JsString}
    (h : PrintsContact engine p dataset (.getContact contactId)) :
    ∃ result, handler engine sorter dataset p (.getContact contactId) = .ok (result, dataset) ∧
      Discloses dataset (.getContact contactId) result := by
  obtain ⟨contact, hfind, hvisible⟩ := h
  unfold handler getContact
  dsimp only
  rw [hfind]
  dsimp only
  rw [if_pos hvisible]
  refine ⟨_, rfl, contact.json, List.mem_singleton.mpr rfl, contact, List.mem_of_find?_eq_some hfind, ?_⟩
  exact .inl ⟨_, rfl, contact.hasEmail⟩

theorem readArguments_tool {tool : JsString} {arguments : List (JsString × Json)} {soql : JsString}
    (h : readArguments tool arguments = some (.query soql)) :
    tool = js "sf.query" ∧ arguments.lookup (js "soql") = some (.string soql) := by
  unfold readArguments at h
  split at h
  · next htool =>
    obtain ⟨text, htext, hquery⟩ := Option.map_eq_some_iff.mp h
    cases hquery
    obtain ⟨v, hv, hstring⟩ := Option.bind_eq_some_iff.mp htext
    unfold stringOf at hstring
    split at hstring
    · split at hstring
      · cases hstring
        exact ⟨htool, hv⟩
      · cases hstring
    · cases hstring
  · split at h
    · obtain ⟨_, -, hcontact⟩ := Option.map_eq_some_iff.mp h
      cases hcontact
    · split at h
      · simp [Option.bind_eq_some_iff] at h
      · cases h

/-- A reading call prints a contact if it discloses one, when the rules have passed it. -/
theorem printsContact_of_discloses {input : Policy.EvaluationInput} {call : Call} {result : Json}
    {after : Dataset} (hplan : input.tenant.plan = js "restricted")
    (hpasses : Policy.Passes engine input)
    (hcall : readArguments input.tool input.arguments = some call)
    (hresult : handler engine sorter dataset p call = .ok (result, after))
    (h : Discloses dataset call result) : PrintsContact engine p dataset call := by
  cases call with
  | query soql =>
    obtain ⟨htool, hsoql⟩ := readArguments_tool hcall
    refine query_discloses hresult ?_ h
    intro name hname
    obtain ⟨word, hword, hsame⟩ := personal_names name hname
    exact Policy.passes_words hplan htool hpasses hsoql hword hsame
  | getContact contactId => exact getContact_result hresult
  | listOpportunities args =>
    obtain ⟨part, hpart, -⟩ := h
    cases hpart
  | createTask args randomUUID now =>
    obtain ⟨part, hpart, -⟩ := h
    cases hpart

theorem not_nothingPersonal {input : Policy.EvaluationInput} (sorter : Sorter)
    (hplan : input.tenant.plan = js "restricted") (htool : input.tool ∈ Policy.readingTools)
    (h : Leaks engine p dataset input) : ¬ NothingPersonal engine sorter p dataset input := by
  intro hnothing
  obtain ⟨hpasses, hscope, call, hcall, hprints⟩ := h
  have hallows := (Policy.restricted_allows_iff hplan htool).mpr hpasses
  have hdiscloses : call.requiredScopes = [js "salesforce:read"] ∧
      ∃ result, handler engine sorter dataset p call = .ok (result, dataset) ∧
        Discloses dataset call result := by
    cases call with
    | query soql => exact ⟨rfl, star_discloses hprints⟩
    | getContact contactId => exact ⟨rfl, getContact_discloses hprints⟩
    | listOpportunities args => exact absurd hprints id
    | createTask args randomUUID now => exact absurd hprints id
  obtain ⟨hrequired, result, hresult, hdisclosed⟩ := hdiscloses
  refine hnothing hallows call hcall result ?_ hdisclosed
  refine callTool_content.mpr ⟨?_, dataset, hresult⟩
  rw [hrequired, missingScopes_single]
  exact hscope

end

-- ---------------------------------------------------------------------------
-- When nothing is disclosed
-- ---------------------------------------------------------------------------

theorem nothing_personal_iff (engine : Engine) (sorter : Sorter) (p : DownstreamPrincipal)
    (dataset : Dataset) (input : Policy.EvaluationInput)
    (hplan : input.tenant.plan = js "restricted") (htool : input.tool ∈ Policy.readingTools) :
    NothingPersonal engine sorter p dataset input ↔ ¬ Leaks engine p dataset input := by
  constructor
  · exact fun hnothing hleaks => not_nothingPersonal sorter hplan htool hleaks hnothing
  · intro hsafe hallows call hcall result hresult hdiscloses
    have hpasses := (Policy.restricted_allows_iff hplan htool).mp hallows
    obtain ⟨hscopes, after, hhandler⟩ := callTool_content.mp hresult
    have hprints := printsContact_of_discloses hplan hpasses hcall hhandler hdiscloses
    have hrequired : call.requiredScopes = [js "salesforce:read"] := by
      cases call with
      | createTask args randomUUID now => exact absurd hprints id
      | query soql => rfl
      | getContact contactId => rfl
      | listOpportunities args => rfl
    rw [hrequired, missingScopes_single] at hscopes
    exact hsafe ⟨hpasses, hscopes, call, hcall, hprints⟩

def restrictedCall (tool argument text : String) : Policy.EvaluationInput where
  tool := js tool
  server := js "salesforce"
  principal := ⟨js "usr_alice", js "acme-corp", js "analyst", [js "salesforce:read"], none⟩
  tenant := ⟨js "acme-corp", js "restricted"⟩
  arguments := [(js argument, .string (js text))]

def oneContact : Dataset := crm [contactOf (js "usr_alice") (js "003A")]

theorem oneContact_visible :
    visibleRecords oneContact .contact alice =
      [(contactOf (js "usr_alice") (js "003A")).toCrmRecord] := by
  have hvisible : isVisible (contactOf (js "usr_alice") (js "003A")).toCrmRecord alice = true := by
    decide +kernel
  simp [visibleRecords, oneContact, crm, Dataset.records, hvisible]

theorem star_parsed : parseSoql (js "SELECT * FROM Contact") =
    .ok ⟨.sobject .contact, .star, [], .and, none, none⟩ := rfl

/-- A lookup by id and a star both get a contact through. -/
theorem restricted_plan_leaks :
    ¬ NothingPersonal plainEngine mergeSorter alice oneContact
        (restrictedCall "sf.get_contact" "contactId" "003A") ∧
      ¬ NothingPersonal plainEngine mergeSorter alice oneContact
        (restrictedCall "sf.query" "soql" "SELECT * FROM Contact") := by
  constructor
  · apply not_nothingPersonal mergeSorter rfl (by decide +kernel)
    refine ⟨?_, by decide +kernel, .getContact (js "003A"), rfl, ?_⟩
    · simp only [Policy.Passes, List.forall_mem_cons, List.not_mem_nil, false_implies, implies_true, and_true]
      exact ⟨rfl, rfl, rfl⟩
    · exact ⟨_, rfl, by decide +kernel⟩
  · apply not_nothingPersonal mergeSorter rfl (by decide +kernel)
    refine ⟨?_, by decide +kernel, .query (js "SELECT * FROM Contact"), rfl, ?_⟩
    · simp only [Policy.Passes, List.forall_mem_cons, List.not_mem_nil, false_implies, implies_true, and_true]
      exact ⟨rfl, rfl, rfl⟩
    · refine ⟨_, star_parsed, rfl, rfl, ?_⟩
      rw [oneContact_visible]
      refine ⟨⟨fun _ _ => ⟨true, rfl⟩, fun _ h => nomatch h⟩, ?_, by decide⟩
      exact List.cons_ne_nil _ _

theorem lookup_personal_iff :
    NothingPersonal plainEngine mergeSorter alice oneContact
        (restrictedCall "sf.get_contact" "contactId" "003A") ↔
      ¬ Leaks plainEngine alice oneContact
        (restrictedCall "sf.get_contact" "contactId" "003A") :=
  nothing_personal_iff plainEngine mergeSorter alice oneContact _ rfl (by decide +kernel)

end McpGateway.Salesforce
