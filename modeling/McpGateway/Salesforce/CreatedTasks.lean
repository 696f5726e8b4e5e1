import McpGateway.Lib.History
import McpGateway.Lib.Staged
import McpGateway.Salesforce.Reach
import McpGateway.Salesforce.Tools

/-!
# Created tasks are read back

A task is owned by whoever created it and has no territory. It is pushed after
everything that can throw, and nothing takes a task out again. Whether its
creator sees it is a matter of the creator's level: at the level of the team a
record without a territory is nobody's.
-/

namespace McpGateway.Salesforce

open Js Shared McpGateway.Runtime McpGateway.Staged

-- ---------------------------------------------------------------------------
-- Arguments
-- ---------------------------------------------------------------------------

/-- `z.string().min(1).max(255)`. -/
def subjectOf (v : Json) : Option JsString := (stringOf 1 v).filter fun s => s.length ≤ 255

/-- Four digits, two and two, with hyphens between them. -/
def isDay (s : JsString) : Bool :=
  s.length == 10 && s.zipIdx.all fun (c, i) => if i = 4 ∨ i = 7 then c == hyphen else isDigit c

def dueDateOf (v : Json) : Option JsString := (stringOf 0 v).filter isDay

def priorityOf (v : Json) : Option JsString :=
  (stringOf 0 v).filter fun s => [js "Low", js "Normal", js "High"].contains s

/-- The arguments of `sf.create_task`, validated. -/
def readTaskArguments (arguments : List (JsString × Json)) : Option TaskArguments := do
  let subject ← (arguments.lookup (js "subject")).bind subjectOf
  let relatedTo ← optionalArgument arguments "relatedTo" (stringOf 0)
  let contactId ← optionalArgument arguments "contactId" (stringOf 0)
  let dueDate ← (arguments.lookup (js "dueDate")).bind dueDateOf
  let priority ← optionalArgument arguments "priority" priorityOf
  return { subject, relatedTo, contactId, dueDate, priority := priority.getD (js "Normal") }

-- ---------------------------------------------------------------------------
-- The handler, statement by statement
-- ---------------------------------------------------------------------------

def checkReferenceStep (principal : DownstreamPrincipal) (label : JsString)
    (id : Option JsString) : Throwing Dataset Thrown Unit := do
  match checkReference (← get) principal label id with
  | .ok () => pure ()
  | .error e => throw e

def createTaskSteps (principal : DownstreamPrincipal) (args : TaskArguments)
    (randomUUID : JsString) (now : TimeValue) : Throwing Dataset Thrown Json := do
  checkReferenceStep principal (js "relatedTo") args.relatedTo
  checkReferenceStep principal (js "contactId") args.contactId
  let task := taskRecord principal args randomUUID now
  modify fun dataset => { dataset with tasks := dataset.tasks ++ [task] }
  return .object [(js "created", .boolean true), (js "task", task.json)]

section
variable {p : DownstreamPrincipal} {args : TaskArguments} {uuid : JsString} {now : TimeValue}
  {d : Dataset}

theorem checkReferenceStep_run (label : JsString) (id : Option JsString) :
    (checkReferenceStep p label id).run.run d = (checkReference d p label id, d) := by
  unfold checkReferenceStep
  show ((match checkReference d p label id with
    | .ok () => pure ()
    | .error e => throw e : Throwing Dataset Thrown Unit)).run.run d = _
  cases checkReference d p label id with
  | ok u => rfl
  | error e => rfl

theorem createTaskSteps_run :
    (createTaskSteps p args uuid now).run.run d =
      match createTask d p args uuid now with
      | .ok (result, d') => (.ok result, d')
      | .error e => (.error e, d) := by
  unfold createTaskSteps createTask
  rw [run_bind, checkReferenceStep_run]
  cases checkReference d p (js "relatedTo") args.relatedTo with
  | error e => rfl
  | ok u =>
    dsimp only
    rw [run_bind, checkReferenceStep_run]
    cases checkReference d p (js "contactId") args.contactId with
    | error e => rfl
    | ok u => rfl

theorem createTask_ok {result : Json} {d' : Dataset}
    (h : createTask d p args uuid now = .ok (result, d')) :
    result = .object [(js "created", .boolean true),
        (js "task", (taskRecord p args uuid now).json)] ∧
      d' = { d with tasks := d.tasks ++ [taskRecord p args uuid now] } := by
  unfold createTask at h
  cases hrelated : checkReference d p (js "relatedTo") args.relatedTo with
  | error e =>
    rw [hrelated] at h
    cases h
  | ok u =>
    cases hcontact : checkReference d p (js "contactId") args.contactId with
    | error e =>
      rw [hrelated, hcontact] at h
      cases h
    | ok u =>
      rw [hrelated, hcontact] at h
      cases h
      exact ⟨rfl, rfl⟩

end

-- ---------------------------------------------------------------------------
-- Creations
-- ---------------------------------------------------------------------------

structure Creation where
  principal : DownstreamPrincipal
  arguments : List (JsString × Json)
  randomUUID : JsString
  now : TimeValue

/-- The server takes a call of `sf.create_task`; arguments that are refused reach no handler. -/
def create (dataset : Dataset) (c : Creation) : Dataset × Option ToolResponse :=
  match readTaskArguments c.arguments with
  | none => (dataset, none)
  | some args =>
    let (dataset, response) := callTool [js "salesforce:write"] c.principal
      (fun dataset => createTask dataset c.principal args c.randomUUID c.now) dataset
    (dataset, some response)

/-- The creation succeeds with this task. -/
def Succeeds (dataset : Dataset) (c : Creation) (task : CrmRecord) : Prop :=
  ∃ args, readTaskArguments c.arguments = some args ∧
    task = taskRecord c.principal args c.randomUUID c.now ∧
    create dataset c = ({ dataset with tasks := dataset.tasks ++ [task] },
      some (.content (.object [(js "created", .boolean true), (js "task", task.json)])))

section
variable {d : Dataset} {c : Creation} {task : CrmRecord}

/-- A creation adds its task to the list, or it adds nothing and says that it did not. -/
theorem create_cases (d : Dataset) (c : Creation) :
    (∃ task, Succeeds d c task) ∨
      (create d c).1 = d ∧ ∀ result, (create d c).2 ≠ some (.content result) := by
  unfold Succeeds create
  cases hargs : readTaskArguments c.arguments with
  | none => exact .inr ⟨rfl, by simp⟩
  | some args =>
    unfold callTool
    by_cases habsent : (missingScopes c.principal [js "salesforce:write"]).isEmpty = true
    · cases hcreate : createTask d c.principal args c.randomUUID c.now with
      | ok outcome =>
        obtain ⟨result, d'⟩ := outcome
        obtain ⟨rfl, rfl⟩ := createTask_ok hcreate
        exact .inl ⟨_, args, rfl, rfl, by simp only [habsent, if_true, hcreate]⟩
      | error e => exact .inr (by simp [habsent, hcreate])
    · exact .inr (by simp [habsent])

theorem Succeeds.tasks (h : Succeeds d c task) : (create d c).1.tasks = d.tasks ++ [task] := by
  obtain ⟨args, -, -, hcreate⟩ := h
  rw [hcreate]

theorem create_keeps (d : Dataset) (c : Creation) :
    ∃ rest, (create d c).1.tasks = d.tasks ++ rest := by
  rcases create_cases d c with ⟨task, h⟩ | ⟨h, -⟩
  · exact ⟨[task], h.tasks⟩
  · exact ⟨[], by rw [h, List.append_nil]⟩

theorem creations_keep (d : Dataset) (cs : List Creation) :
    ∃ rest, (History.final create d cs).tasks = d.tasks ++ rest := by
  induction cs using List.reverseRecOn with
  | nil => exact ⟨[], (List.append_nil _).symm⟩
  | append_singleton cs c ih =>
    obtain ⟨before, hbefore⟩ := ih
    obtain ⟨rest, hrest⟩ := create_keeps (History.final create d cs) c
    refine ⟨before ++ rest, ?_⟩
    rw [History.final_snoc, hrest, hbefore, List.append_assoc]

end

-- ---------------------------------------------------------------------------
-- Reading back
-- ---------------------------------------------------------------------------

def readTasks : Call := .query (js "SELECT * FROM Task")

structure AsGiven (c : Creation) (task : CrmRecord) : Prop where
  subject : task.props.lookup (js "Subject") = c.arguments.lookup (js "subject")
  relatedTo : task.props.lookup (js "WhatId") = some ((c.arguments.lookup (js "relatedTo")).getD .null)
  contactId : task.props.lookup (js "WhoId") = some ((c.arguments.lookup (js "contactId")).getD .null)
  dueDate : task.props.lookup (js "ActivityDate") = c.arguments.lookup (js "dueDate")
  priority : task.props.lookup (js "Priority") =
    some ((c.arguments.lookup (js "priority")).getD (.string (js "Normal")))

/-- The creator sees the task of a creation in a later dataset, at one place; no other has its
id unless the random ids repeat. -/
structure SeenByCreator (engine : Engine) (sorter : Sorter) (before : Dataset) (c : Creation)
    (task : CrmRecord) (later : Dataset) : Prop where
  once : ∃ rest, later.tasks = before.tasks ++ task :: rest ∧
    visibleRecords later .task c.principal =
      (before.tasks.filter fun record => isVisible record c.principal) ++
        task :: rest.filter fun record => isVisible record c.principal
  unique : (later.tasks.map CrmRecord.id).Nodup →
    ((visibleRecords later .task c.principal).filter fun record => record.id == task.id) = [task]
  counted : ∃ props,
    (step engine sorter c.principal later readTasks).2 = .content (.object props) ∧
      props.lookup (js "recordsInScope") =
        some (natural (visibleRecords later .task c.principal).length)

/-- What is asked of a dataset after a creation. -/
structure ReadBack (engine : Engine) (sorter : Sorter) (before : Dataset) (c : Creation)
    (task : CrmRecord) (later : Dataset) : Prop where
  seen : SeenByCreator engine sorter before c task later
  given : AsGiven c task
  hidden : ∀ q : DownstreamPrincipal, q.tenantId ≠ c.principal.tenantId →
    task ∉ visibleRecords later .task q

section
variable {engine : Engine} {sorter : Sorter} {d later : Dataset} {c : Creation} {task : CrmRecord}

theorem optionalArgument_lookup {α : Type} {arguments : List (JsString × Json)} {name : String}
    {read : Json → Option α} {text : α → Json} {value : Option α} (fallback : Json)
    (h : optionalArgument arguments name read = some value)
    (hread : ∀ v a, read v = some a → text a = v) :
    (value.map text).getD fallback = (arguments.lookup (js name)).getD fallback := by
  unfold optionalArgument at h
  cases hlookup : arguments.lookup (js name) with
  | none =>
    rw [hlookup] at h
    cases h
    rfl
  | some v =>
    rw [hlookup] at h
    obtain ⟨a, ha, rfl⟩ := Option.map_eq_some_iff.mp h
    exact hread v a ha

theorem stringOf_some {n : Nat} {v : Json} {s : JsString} (h : stringOf n v = some s) :
    Json.string s = v := by
  unfold stringOf at h
  split at h
  · split at h
    · cases h
      rfl
    · cases h
  · cases h

theorem stringOf_filter {n : Nat} {keep : JsString → Bool} {v : Json} {s : JsString}
    (h : (stringOf n v).filter keep = some s) : Json.string s = v :=
  stringOf_some (Option.filter_eq_some_iff.mp h).1

theorem requiredArgument_lookup {arguments : List (JsString × Json)} {name : String}
    {read : Json → Option JsString} {s : JsString}
    (h : (arguments.lookup (js name)).bind read = some s)
    (hread : ∀ v s, read v = some s → Json.string s = v) :
    some (Json.string s) = arguments.lookup (js name) := by
  obtain ⟨v, hv, hs⟩ := Option.bind_eq_some_iff.mp h
  rw [hv, hread v s hs]

theorem readTaskArguments_some {arguments : List (JsString × Json)} {args : TaskArguments}
    (h : readTaskArguments arguments = some args) :
    some (Json.string args.subject) = arguments.lookup (js "subject") ∧
      optionalText args.relatedTo = (arguments.lookup (js "relatedTo")).getD .null ∧
      optionalText args.contactId = (arguments.lookup (js "contactId")).getD .null ∧
      some (Json.string args.dueDate) = arguments.lookup (js "dueDate") ∧
      Json.string args.priority =
        (arguments.lookup (js "priority")).getD (.string (js "Normal")) := by
  unfold readTaskArguments at h
  obtain ⟨subject, hsubject, h⟩ := Option.bind_eq_some_iff.mp h
  obtain ⟨relatedTo, hrelatedTo, h⟩ := Option.bind_eq_some_iff.mp h
  obtain ⟨contactId, hcontactId, h⟩ := Option.bind_eq_some_iff.mp h
  obtain ⟨dueDate, hdueDate, h⟩ := Option.bind_eq_some_iff.mp h
  obtain ⟨priority, hpriority, h⟩ := Option.bind_eq_some_iff.mp h
  cases h
  refine ⟨requiredArgument_lookup hsubject fun _ _ => stringOf_filter,
    optionalArgument_lookup .null hrelatedTo fun _ _ => stringOf_some,
    optionalArgument_lookup .null hcontactId fun _ _ => stringOf_some,
    requiredArgument_lookup hdueDate fun _ _ => stringOf_filter, ?_⟩
  rw [← optionalArgument_lookup (.string (js "Normal")) hpriority fun _ _ => stringOf_filter]
  cases priority with
  | none => rfl
  | some s => rfl

theorem Succeeds.given (h : Succeeds d c task) : AsGiven c task := by
  obtain ⟨args, hargs, rfl, -⟩ := h
  obtain ⟨hsubject, hrelatedTo, hcontactId, hdueDate, hpriority⟩ := readTaskArguments_some hargs
  constructor
  · exact hsubject
  · exact congrArg some hrelatedTo
  · exact congrArg some hcontactId
  · exact hdueDate
  · exact congrArg some hpriority

theorem Succeeds.isVisible_iff (h : Succeeds d c task) :
    isVisible task c.principal = true ↔ (HoldsTeam c.principal → HoldsAll c.principal) := by
  obtain ⟨args, -, rfl, -⟩ := h
  by_cases hall : HoldsAll c.principal
  · simp [isVisible_of_all hall, hall, taskRecord]
  · by_cases hteam : HoldsTeam c.principal
    · simp only [isVisible_of_team hteam hall, hteam, hall, InTerritory, taskRecord]
      grind
    · simp [isVisible_of_own hteam hall, hteam, Owns, taskRecord]

theorem Succeeds.hidden (h : Succeeds d c task) {q : DownstreamPrincipal}
    (hq : q.tenantId ≠ c.principal.tenantId) : isVisible task q = false := by
  obtain ⟨args, -, rfl, -⟩ := h
  exact if_pos (Ne.symm hq)

theorem filter_id_eq {records : List CrmRecord} {record : CrmRecord}
    (hnodup : (records.map CrmRecord.id).Nodup) (h : record ∈ records) :
    (records.filter fun other => other.id == record.id) = [record] := by
  induction records with
  | nil => cases h
  | cons other records ih =>
    obtain ⟨hother, hrest⟩ := List.nodup_cons.mp hnodup
    rcases List.mem_cons.mp h with rfl | h
    · rw [List.filter_cons, if_pos (beq_self_eq_true record.id), List.cons_inj_right,
        List.filter_eq_nil_iff]
      intro a ha heq
      rw [← LawfulBEq.eq_of_beq heq] at hother
      exact hother (List.mem_map_of_mem ha)
    · have hne : ¬ (other.id == record.id) = true := fun heq =>
        hother (LawfulBEq.eq_of_beq heq ▸ List.mem_map_of_mem h)
      rw [List.filter_cons, if_neg hne, ih hrest h]

theorem tasks_parsed : parseSoql (js "SELECT * FROM Task") =
    .ok ⟨.sobject .task, .star, [], .and, none, none⟩ := rfl

theorem matched_all {parsed : ParsedQuery} (h : parsed.conditions = []) (records : List CrmRecord) :
    Outcome.filterExcept (matchesQuery engine parsed) records = .ok records := by
  have hall : ∀ record ∈ records, matchesQuery engine parsed record = .ok true :=
    fun record _ => if_pos h
  rw [Outcome.filterExcept_of_ok hall, List.filter_true]

theorem readTasks_counts {p : DownstreamPrincipal}
    (h : hasScope p.scopes (js "salesforce:read") = true) :
    ∃ props, (step engine sorter p d readTasks).2 = .content (.object props) ∧
      props.lookup (js "recordsInScope") = some (natural (visibleRecords d .task p).length) := by
  have hresult : ∃ props, query engine sorter d p (js "SELECT * FROM Task") = .ok (.object props) ∧
      props.lookup (js "recordsInScope") = some (natural (visibleRecords d .task p).length) := by
    unfold query executeQuery
    rw [tasks_parsed]
    dsimp only [Outcome.ok_bind, permittedRecords]
    rw [matched_all rfl]
    exact ⟨_, rfl, rfl⟩
  obtain ⟨props, hquery, hscope⟩ := hresult
  refine ⟨props, callTool_content.mpr ⟨missingScopes_single.mpr h, d, ?_⟩, hscope⟩
  show (query engine sorter d p (js "SELECT * FROM Task")).map (·, d) = _
  rw [hquery]
  rfl

end

/-- Of every later dataset, a task that was created is read back if and only if its creator's
level is not that of the team; a creation that throws leaves the tasks as they were. -/
theorem created_task_read_back (engine : Engine) (sorter : Sorter) (d : Dataset) (c : Creation)
    (hread : hasScope c.principal.scopes (js "salesforce:read") = true) :
    (∀ args e d', (createTaskSteps c.principal args c.randomUUID c.now).run.run d = (.error e, d') →
      d'.tasks = d.tasks) ∧
    ((∀ result, (create d c).2 ≠ some (.content result)) → (create d c).1.tasks = d.tasks) ∧
    ∀ task, Succeeds d c task →
      ((∀ later, ReadBack engine sorter d c task (History.final create (create d c).1 later)) ↔
        (HoldsTeam c.principal → HoldsAll c.principal)) := by
  refine ⟨fun args e d' h => ?_, fun h => ?_, fun task htask => ?_⟩
  · rw [createTaskSteps_run] at h
    split at h
    · cases h
    · cases h
      rfl
  · rcases create_cases d c with ⟨task, args, -, -, hcreate⟩ | ⟨hsame, -⟩
    · exact absurd (congrArg Prod.snd hcreate) (h _)
    · rw [hsame]
  · rw [← htask.isVisible_iff]
    constructor
    · intro h
      obtain ⟨rest, -, hvisible⟩ := (h []).seen.once
      have hmem : task ∈ visibleRecords (History.final create (create d c).1 []) .task c.principal := by
        rw [hvisible]
        simp
      exact (List.mem_filter.mp hmem).2
    · intro hvisible later
      obtain ⟨rest, hrest⟩ := creations_keep (create d c).1 later
      have htasks : (History.final create (create d c).1 later).tasks = d.tasks ++ task :: rest := by
        rw [hrest, htask.tasks, List.append_assoc, List.singleton_append]
      refine ⟨⟨⟨rest, htasks, ?_⟩, fun hunique => ?_, readTasks_counts hread⟩, htask.given,
        fun q hq hmem => ?_⟩
      · show List.filter _ (History.final create (create d c).1 later).tasks = _
        rw [htasks, List.filter_append, List.filter_cons, if_pos hvisible]
      · have hmem : task ∈ visibleRecords (History.final create (create d c).1 later) .task
            c.principal := by
          refine List.mem_filter.mpr ⟨?_, hvisible⟩
          show task ∈ (History.final create (create d c).1 later).tasks
          rw [htasks]
          simp
        exact filter_id_eq (hunique.sublist (List.filter_sublist.map _)) hmem
      · have hshown := (List.mem_filter.mp hmem).2
        rw [htask.hidden hq] at hshown
        cases hshown

def westTask (scopes : List JsString) : Creation where
  principal :=
    { subject := js "usr_bob", tenantId := js "acme-corp", scopes, territory := some (js "West") }
  arguments :=
    [(js "subject", .string (js "call back")), (js "dueDate", .string (js "2026-01-01"))]
  randomUUID := js "5f3a71c9-0000-4000-8000-000000000000"
  now := ⟨0, epoch_inRange⟩

def westTaskRecord (scopes : List JsString) : CrmRecord :=
  taskRecord (westTask scopes).principal { subject := js "call back", dueDate := js "2026-01-01" }
    (westTask scopes).randomUUID (westTask scopes).now

def emptyCrm : Dataset := ⟨[], [], [], []⟩

def sellerScopes : List JsString := [js "salesforce:read", js "salesforce:write"]

def teamScopes : List JsString :=
  [js "salesforce:read", js "salesforce:read.team", js "salesforce:write"]

/-- A manager's task is created and the manager does not see it. -/
theorem manager_does_not_see_task :
    Succeeds emptyCrm (westTask teamScopes) (westTaskRecord teamScopes) ∧
      visibleRecords (create emptyCrm (westTask teamScopes)).1 .task
        (westTask teamScopes).principal = [] := by
  have hsucceeds : Succeeds emptyCrm (westTask teamScopes) (westTaskRecord teamScopes) :=
    ⟨_, rfl, rfl, rfl⟩
  have hhidden : isVisible (westTaskRecord teamScopes) (westTask teamScopes).principal = false := by
    decide +kernel
  refine ⟨hsucceeds, List.filter_eq_nil_iff.mpr ?_⟩
  show ∀ record ∈ (create emptyCrm (westTask teamScopes)).1.tasks, _
  rw [hsucceeds.tasks]
  simp [emptyCrm, hhidden]

/-- A seller's task is created, and read back from then on. -/
theorem seller_reads_task_back :
    hasScope (westTask sellerScopes).principal.scopes (js "salesforce:read") = true ∧
      Succeeds emptyCrm (westTask sellerScopes) (westTaskRecord sellerScopes) ∧
      ∀ later, ReadBack plainEngine mergeSorter emptyCrm (westTask sellerScopes)
        (westTaskRecord sellerScopes)
        (History.final create (create emptyCrm (westTask sellerScopes)).1 later) := by
  have hread : hasScope (westTask sellerScopes).principal.scopes (js "salesforce:read") = true := by
    decide +kernel
  have hsucceeds : Succeeds emptyCrm (westTask sellerScopes) (westTaskRecord sellerScopes) :=
    ⟨_, rfl, rfl, rfl⟩
  refine ⟨hread, hsucceeds, ?_⟩
  refine ((created_task_read_back plainEngine mergeSorter emptyCrm _ hread).2.2 _ hsucceeds).mpr ?_
  intro hteam
  refine absurd hteam ?_
  unfold HoldsTeam
  decide +kernel

end McpGateway.Salesforce
