import McpGateway.Js.FileUrl
import McpGateway.Js.Map
import McpGateway.Policy.Malformed

/-!
# Loading policies

Every file of the directory is read, parsed and checked on its own, and its bundle is
kept under the name that the file states. A listed name is read as a relative URL, so
the file that is read need not be the one that is listed.
-/

namespace McpGateway.Policy

open Js Shared

-- ---------------------------------------------------------------------------
-- The schema
-- ---------------------------------------------------------------------------

def optional {α : Type} (read : Json → Option α) : Option Json → Option (Option α)
  | none => some none
  | some v => (read v).map some

def withDefault {α : Type} (read : Json → Option α) (default : α) : Option Json → Option α
  | none => some default
  | some v => read v

def readString : Json → Option JsString
  | .string s => some s
  | _ => none

def readName : Json → Option JsString
  | .string s => if s = [] then none else some s
  | _ => none

def operatorNames : List (JsString × Operator) :=
  [(js "eq", .eq), (js "ne", .ne), (js "in", .in_), (js "not_in", .notIn),
    (js "matches", .matches_), (js "not_matches", .notMatches), (js "gt", .gt), (js "gte", .gte),
    (js "lt", .lt), (js "lte", .lte), (js "exists", .exists_), (js "missing", .missing),
    (js "contains", .contains), (js "not_contains", .notContains),
    (js "contains_any", .containsAny), (js "starts_with", .startsWith),
    (js "eq_field", .eqField), (js "ne_field", .neField)]

def readOperator : Json → Option Operator
  | .string s => operatorNames.lookup s
  | _ => none

def decisionNames : List (JsString × Decision) := [(js "allow", .allow), (js "deny", .deny)]

def readDecision : Json → Option Decision
  | .string s => decisionNames.lookup s
  | _ => none

def readEffect : Json → Option Effect
  | .string s =>
    if s = js "annotate" then some .annotate else (decisionNames.lookup s).map .decide
  | _ => none

def readPriority : Json → Option Nat
  | .number .negZero => some 0
  | .number (.finite n) => if n.den = 1 ∧ 0 ≤ n then some n.num.toNat else none
  | _ => none

/-- `conditionSchema`: keys that it does not name are passed over. -/
def readCondition : Json → Option Condition
  | .object props => do
    let path ← optional readName (props.lookup (js "path"))
    let op ← optional readOperator (props.lookup (js "op"))
    let all ← children (js "all") props
    let any ← children (js "any") props
    let not ← child props
    if all.isSome || any.isSome || not.isSome || (path.isSome && op.isSome) then
      some { path, op, value := props.lookup (js "value"), all, any, not }
    else none
  | _ => none
where
  children (name : JsString) : List (JsString × Json) → Option (Option (List Condition))
    | [] => some none
    | (key, v) :: rest => if key = name then (conditions v).map some else children name rest
  child : List (JsString × Json) → Option (Option Condition)
    | [] => some none
    | (key, v) :: rest => if key = js "not" then (readCondition v).map some else child rest
  conditions : Json → Option (List Condition)
    | .array items => each items
    | _ => none
  each : List Json → Option (List Condition)
    | [] => some []
    | item :: rest => do return (← readCondition item) :: (← each rest)

/-- `ruleSchema`. -/
def readRule : Json → Option Rule
  | .object props => do
    let id ← (props.lookup (js "id")).bind readName
    let priority ← withDefault readPriority 500 (props.lookup (js "priority"))
    let effect ← (props.lookup (js "effect")).bind readEffect
    let description ← withDefault readString [] (props.lookup (js "description"))
    let reason ← optional readString (props.lookup (js "reason"))
    let rateTier ← optional readString (props.lookup (js "rateTier"))
    let condition ← (props.lookup (js "match")).bind readCondition
    return { id, priority, effect, description, reason, rateTier, «match» := condition }
  | _ => none

def readRules : Json → Option (List Rule)
  | .array items => if items.isEmpty then none else each items
  | _ => none
where
  each : List Json → Option (List Rule)
    | [] => some []
    | item :: rest => do return (← readRule item) :: (← each rest)

def readVersion : Json → Option Unit
  | .number n => if n = .finite 1 then some () else none
  | _ => none

/-- `bundleSchema`. -/
def readBundle : Json → Option Bundle
  | .object props => do
    let _ ← (props.lookup (js "version")).bind readVersion
    let name ← (props.lookup (js "name")).bind readName
    let defaultEffect ← withDefault readDecision .deny (props.lookup (js "defaultEffect"))
    let defaultReason ← withDefault readString (js "No policy rule permits this call")
      (props.lookup (js "defaultReason"))
    let rules ← (props.lookup (js "rules")).bind readRules
    return { name, defaultEffect, defaultReason, rules }
  | _ => none

-- ---------------------------------------------------------------------------
-- The loader
-- ---------------------------------------------------------------------------

structure Issue where
  path : List JsString
  message : JsString

/-- What the loader is given: the URL of a directory that could be read, the file system, and the
parsers. -/
structure PolicySource where
  /-- The segments of the URL, the last one empty when it ends in a slash. -/
  url : List JsString
  directory : List JsString
  directory_eq : fileUrlToPath (if url.getLast? = some [] then url.dropLast else url) =
    some directory
  isLocalhost : JsString → Bool
  /-- What is thrown for a name that gives no file URL. -/
  notResolved : JsString → Thrown
  /-- The text of the file at a path. -/
  readFile : List JsString → Except Thrown JsString
  parseYaml : JsString → Except Thrown Json
  /-- The issues of a document that the schema refuses. -/
  issues : Json → List Issue

/-- `dir.pathname`. -/
def PolicySource.pathname (source : PolicySource) : JsString := source.url.flatMap (slash :: ·)

def PolicySource.resolve (source : PolicySource) (file : JsString) : Option (List JsString) :=
  (resolveFileUrl source.isLocalhost source.url file).bind fileUrlToPath

structure PolicyCatalogue where
  bundles : JsMap JsString Bundle

def PolicyCatalogue.get (catalogue : PolicyCatalogue) (name : JsString) : Except Thrown Bundle :=
  match catalogue.bundles.get name with
  | some bundle => .ok bundle
  | none => .error (.gateway (configurationError (js "Unknown policy bundle '" ++ name ++ js "'")))

def PolicyCatalogue.list (catalogue : PolicyCatalogue) : List Bundle :=
  catalogue.bundles.entries.map Prod.snd

def Issue.text (issue : Issue) : JsString :=
  let path := List.intercalate (js ".") issue.path
  js "  " ++ (if path = [] then js "(root)" else path) ++ js ": " ++ issue.message

def invalidBundle (file : JsString) (issues : List Issue) : GatewayError :=
  configurationError (js "Invalid policy bundle '" ++ file ++ js "':\n" ++
    List.intercalate (js "\n") (issues.map Issue.text))

def duplicateId (id file : JsString) : GatewayError :=
  configurationError (js "Duplicate rule id '" ++ id ++ js "' in bundle '" ++ file ++ js "'")

/-- The loop over the rules, with the ids so far. -/
def checkIds (file : JsString) (ids : List JsString) : List Rule → Except Thrown Unit
  | [] => .ok ()
  | rule :: rest =>
    if ids.contains rule.id then .error (.gateway (duplicateId rule.id file))
    else checkIds file (ids ++ [rule.id]) rest

def readBundleAt (source : PolicySource) (file : JsString) (path : List JsString) :
    Except Thrown Bundle := do
  let raw ← source.readFile path
  let document ← source.parseYaml raw
  match readBundle document with
  | none => .error (.gateway (invalidBundle file (source.issues document)))
  | some bundle => do
    checkIds file [] bundle.rules
    return bundle

def loadFile (source : PolicySource) (file : JsString) : Except Thrown Bundle :=
  match source.resolve file with
  | none => .error (source.notResolved file)
  | some path => readBundleAt source file path

def loadFiles (source : PolicySource) (bundles : JsMap JsString Bundle) :
    List JsString → Except Thrown (JsMap JsString Bundle)
  | [] => .ok bundles
  | file :: rest => do
    let bundle ← loadFile source file
    loadFiles source (bundles.set bundle.name bundle) rest

def isPolicyFile (name : JsString) : Bool :=
  (js ".yaml").isSuffixOf name || (js ".yml").isSuffixOf name

/-- `readdir` gives the names in some order, or rejects. -/
def loadPolicies (source : PolicySource) (entries : Option (List JsString)) :
    Except Thrown PolicyCatalogue :=
  match entries with
  | none =>
    .error (.gateway (configurationError (js "Policy directory not found: " ++ source.pathname)))
  | some entries => do
    let files := entries.filter isPolicyFile
    if files = [] then
      .error (.gateway (configurationError (js "No policy bundles found in " ++ source.pathname)))
    else return { bundles := ← loadFiles source .empty files }

-- ---------------------------------------------------------------------------
-- What is accepted
-- ---------------------------------------------------------------------------

theorem readName_ne_nil {v : Json} {s : JsString} (h : readName v = some s) : s ≠ [] := by
  cases v with
  | string t =>
    by_cases ht : t = []
    · rw [readName, if_pos ht] at h
      cases h
    · rw [readName, if_neg ht] at h
      cases h
      exact ht
  | _ => cases h

mutual

theorem wellFormed_of_readCondition : ∀ (v : Json) (c : Condition), readCondition v = some c →
    c.wellFormed = true
  | .object props, c, h => by
    rw [readCondition] at h
    simp only [Option.bind_eq_bind, Option.bind_eq_some_iff] at h
    obtain ⟨path, hpath, op, -, all, hall, any, hany, not, hnot, h⟩ := h
    split at h
    · next hparts =>
      cases h
      have hname : path.all (fun path => !path.isEmpty) = true := by
        cases path with
        | none => rfl
        | some path =>
          cases hprop : props.lookup (js "path") with
          | none =>
            rw [hprop] at hpath
            cases hpath
          | some v =>
            rw [hprop] at hpath
            obtain ⟨s, hs, hsome⟩ := Option.map_eq_some_iff.mp hpath
            cases hsome
            simpa using readName_ne_nil hs
      rw [Condition.wellFormed, hname, hparts, wellFormed_of_children _ _ _ hall,
        wellFormed_of_children _ _ _ hany, wellFormed_of_child _ _ hnot]
      rfl
    · cases h
  | .null, _, h | .boolean _, _, h | .number _, _, h | .string _, _, h | .array _, _, h => by
    cases h

theorem wellFormed_of_children (name : JsString) : ∀ (props : List (JsString × Json))
    (children : Option (List Condition)), readCondition.children name props = some children →
    Condition.wellFormed.lists children = true
  | [], _, h => by
    cases h
    rfl
  | (key, v) :: rest, children, h => by
    rw [readCondition.children] at h
    split at h
    · obtain ⟨conditions, hconditions, hsome⟩ := Option.map_eq_some_iff.mp h
      cases hsome
      exact wellFormed_of_conditions v conditions hconditions
    · exact wellFormed_of_children name rest children h

theorem wellFormed_of_child : ∀ (props : List (JsString × Json)) (child : Option Condition),
    readCondition.child props = some child → Condition.wellFormed.child child = true
  | [], _, h => by
    cases h
    rfl
  | (key, v) :: rest, child, h => by
    rw [readCondition.child] at h
    split at h
    · obtain ⟨c, hc, hsome⟩ := Option.map_eq_some_iff.mp h
      cases hsome
      exact wellFormed_of_readCondition v c hc
    · exact wellFormed_of_child rest child h

theorem wellFormed_of_conditions : ∀ (v : Json) (conditions : List Condition),
    readCondition.conditions v = some conditions → Condition.wellFormed.each conditions = true
  | .array items, conditions, h => wellFormed_of_each items conditions h
  | .null, _, h | .boolean _, _, h | .number _, _, h | .string _, _, h | .object _, _, h => by
    cases h

theorem wellFormed_of_each : ∀ (items : List Json) (conditions : List Condition),
    readCondition.each items = some conditions → Condition.wellFormed.each conditions = true
  | [], _, h => by
    cases h
    rfl
  | item :: rest, conditions, h => by
    rw [readCondition.each] at h
    simp only [Option.bind_eq_bind, Option.bind_eq_some_iff, Option.pure_def,
      Option.some.injEq] at h
    obtain ⟨c, hc, cs, hcs, rfl⟩ := h
    rw [Condition.wellFormed.each, wellFormed_of_readCondition item c hc,
      wellFormed_of_each rest cs hcs]
    rfl

end

theorem readRule_ok {v : Json} {rule : Rule} (h : readRule v = some rule) :
    rule.id ≠ [] ∧ rule.match.wellFormed = true := by
  cases v with
  | object props =>
    simp only [readRule, Option.bind_eq_bind, Option.bind_eq_some_iff, Option.pure_def,
      Option.some.injEq] at h
    obtain ⟨id, ⟨v, -, hid⟩, _, -, _, -, _, -, _, -, _, -, c, ⟨w, -, hc⟩, rfl⟩ := h
    exact ⟨readName_ne_nil hid, wellFormed_of_readCondition w c hc⟩
  | _ => cases h

theorem readRules_ok {v : Json} {rules : List Rule} (h : readRules v = some rules) :
    rules ≠ [] ∧ ∀ rule ∈ rules, ∃ item, readRule item = some rule := by
  have heach (items : List Json) : ∀ rules, readRules.each items = some rules →
      rules.length = items.length ∧ ∀ rule ∈ rules, ∃ item, readRule item = some rule := by
    induction items with
    | nil =>
      rintro _ ⟨⟩
      exact ⟨rfl, fun _ h => absurd h List.not_mem_nil⟩
    | cons item rest ih =>
      intro rules h
      simp only [readRules.each, Option.bind_eq_bind, Option.bind_eq_some_iff, Option.pure_def,
        Option.some.injEq] at h
      obtain ⟨rule, hrule, rules, hrules, rfl⟩ := h
      obtain ⟨hlength, hread⟩ := ih rules hrules
      exact ⟨congrArg (· + 1) hlength, List.forall_mem_cons.mpr ⟨⟨item, hrule⟩, hread⟩⟩
  cases v with
  | array items =>
    cases items with
    | nil => cases h
    | cons item rest =>
      obtain ⟨hlength, hread⟩ := heach (item :: rest) rules h
      exact ⟨List.ne_nil_of_length_eq_add_one hlength, hread⟩
  | _ => cases h

theorem readBundle_ok {v : Json} {bundle : Bundle} (h : readBundle v = some bundle) :
    bundle.name ≠ [] ∧ bundle.rules ≠ [] ∧
      ∀ rule ∈ bundle.rules, rule.id ≠ [] ∧ rule.match.wellFormed = true := by
  cases v with
  | object props =>
    simp only [readBundle, Option.bind_eq_bind, Option.bind_eq_some_iff, Option.pure_def,
      Option.some.injEq] at h
    obtain ⟨_, -, name, ⟨v, -, hname⟩, _, -, _, -, rules, ⟨w, -, hrules⟩, rfl⟩ := h
    obtain ⟨hne, hread⟩ := readRules_ok hrules
    refine ⟨readName_ne_nil hname, hne, fun rule hrule => ?_⟩
    obtain ⟨item, hitem⟩ := hread rule hrule
    exact readRule_ok hitem
  | _ => cases h

theorem checkIds_ok {file : JsString} {ids : List JsString} {rules : List Rule}
    (h : checkIds file ids rules = .ok ()) :
    (rules.map Rule.id).Nodup ∧ ∀ rule ∈ rules, rule.id ∉ ids := by
  induction rules generalizing ids with
  | nil => exact ⟨List.nodup_nil, fun _ h => absurd h List.not_mem_nil⟩
  | cons rule rest ih =>
    rw [checkIds] at h
    split at h
    · cases h
    · next hnew =>
      obtain ⟨hnodup, hrest⟩ := ih h
      refine ⟨?_, List.forall_mem_cons.mpr ⟨?_, fun q hq hid => ?_⟩⟩
      · rw [List.map_cons, List.nodup_cons]
        refine ⟨fun hmem => ?_, hnodup⟩
        obtain ⟨q, hq, hid⟩ := List.mem_map.mp hmem
        exact hrest q hq (List.mem_append_right _ (List.mem_singleton.mpr hid))
      · exact fun hid => hnew (List.contains_iff_mem.mpr hid)
      · exact hrest q hq (List.mem_append_left _ hid)

/-- A file that is loaded has a bundle as the schema describes, with distinct ids. -/
theorem accepted_of_loadFile {source : PolicySource} {file : JsString} {bundle : Bundle}
    (h : loadFile source file = .ok bundle) : bundle.Accepted := by
  unfold loadFile at h
  split at h
  · cases h
  obtain ⟨raw, -, h⟩ := Outcome.bind_eq_ok.mp h
  obtain ⟨document, -, h⟩ := Outcome.bind_eq_ok.mp h
  split at h
  · cases h
  · next bundle' hread =>
    obtain ⟨⟨⟩, hids, hsame⟩ := Outcome.bind_eq_ok.mp h
    cases hsame
    obtain ⟨hname, hrules, hrule⟩ := readBundle_ok hread
    exact ⟨hname, hrules, fun rule h => (hrule rule h).1, fun rule h => (hrule rule h).2,
      (checkIds_ok hids).1⟩

-- ---------------------------------------------------------------------------
-- What is asked of the loader
-- ---------------------------------------------------------------------------

/-- The bundles are the same under every name; the order of the list is left open. -/
structure SameCatalogue (catalogue catalogue' : PolicyCatalogue) : Prop where
  get : ∀ name, catalogue.get name = catalogue'.get name
  list : catalogue.list.Perm catalogue'.list

def SameOutcome : Except Thrown PolicyCatalogue → Except Thrown PolicyCatalogue → Prop
  | .ok catalogue, .ok catalogue' => SameCatalogue catalogue catalogue'
  | .error _, .error _ => True
  | _, _ => False

def statedBundle (source : PolicySource) (file : JsString) : Except Thrown Bundle :=
  readBundleAt source file (source.directory ++ [file])

/-- A catalogue that is loaded has all the rules of all the files, each under the name its file
states, and does not depend on the order of the files. -/
structure NothingDropped (source : PolicySource) (entries : List JsString) : Prop where
  kept : ∀ catalogue, loadPolicies source (some entries) = .ok catalogue →
    ∀ file ∈ entries.filter isPolicyFile, ∃ stated, statedBundle source file = .ok stated ∧
      ∃ bundle, catalogue.get stated.name = .ok bundle ∧
        ∀ rule ∈ stated.rules, rule ∈ bundle.rules
  distinct : ∀ catalogue, loadPolicies source (some entries) = .ok catalogue →
    ∀ bundle ∈ catalogue.list, (bundle.rules.map Rule.id).Nodup
  unordered : ∀ entries', entries'.Perm entries →
    SameOutcome (loadPolicies source (some entries')) (loadPolicies source (some entries))

/-- Every listed name gives a bundle. -/
def AllLoad (source : PolicySource) (files : List JsString) : Prop :=
  ∀ file ∈ files, ∃ bundle, loadFile source file = .ok bundle

/-- Names read with one bundle name give one bundle. -/
def OneBundleEach (source : PolicySource) (files : List JsString) : Prop :=
  ∀ file ∈ files, ∀ file' ∈ files, ∀ bundle bundle', loadFile source file = .ok bundle →
    loadFile source file' = .ok bundle' → bundle.name = bundle'.name → bundle = bundle'

/-- The path that is read for a listed name is the one of its file. -/
def ReadsItself (source : PolicySource) (file : JsString) : Prop :=
  source.resolve file = some (source.directory ++ [file])

/-- The file is a bundle, and what is read for some listed name has its name and its rules. -/
def StatedElsewhere (source : PolicySource) (files : List JsString) (file : JsString) : Prop :=
  ∃ stated, statedBundle source file = .ok stated ∧
    ∃ file' ∈ files, ∃ bundle, loadFile source file' = .ok bundle ∧ bundle.name = stated.name ∧
      ∀ rule ∈ stated.rules, rule ∈ bundle.rules

-- ---------------------------------------------------------------------------
-- The bundles of the files
-- ---------------------------------------------------------------------------

def store (bundles : JsMap JsString Bundle) (bundle : Bundle) : JsMap JsString Bundle :=
  bundles.set bundle.name bundle

section
variable {source : PolicySource} {files entries : List JsString} {bundles : List Bundle}
  {m m' : JsMap JsString Bundle}

/-- Loading succeeds when every file does, and stores the bundles one after the other. -/
theorem loadFiles_ok : loadFiles source m files = .ok m' ↔
    ∃ bundles, List.Forall₂ (fun file bundle => loadFile source file = .ok bundle) files bundles ∧
      m' = bundles.foldl store m := by
  induction files generalizing m with
  | nil =>
    constructor
    · rintro ⟨⟩
      exact ⟨[], .nil, rfl⟩
    · rintro ⟨_, ⟨⟩, rfl⟩
      rfl
  | cons file rest ih =>
    rw [loadFiles, Outcome.bind_eq_ok]
    constructor
    · rintro ⟨bundle, hbundle, h⟩
      obtain ⟨bundles, hrest, rfl⟩ := ih.mp h
      exact ⟨bundle :: bundles, .cons hbundle hrest, rfl⟩
    · rintro ⟨_, ⟨⟩ | ⟨hbundle, hrest⟩, rfl⟩
      exact ⟨_, hbundle, ih.mpr ⟨_, hrest, rfl⟩⟩

theorem loadPolicies_ok {catalogue : PolicyCatalogue} :
    loadPolicies source (some entries) = .ok catalogue ↔
      entries.filter isPolicyFile ≠ [] ∧ ∃ bundles,
        List.Forall₂ (fun file bundle => loadFile source file = .ok bundle)
          (entries.filter isPolicyFile) bundles ∧
        catalogue.bundles = bundles.foldl store .empty := by
  unfold loadPolicies
  dsimp only
  by_cases hfiles : entries.filter isPolicyFile = []
  · rw [if_pos hfiles]
    constructor
    · intro h
      cases h
    · exact fun h => absurd hfiles h.1
  · rw [if_neg hfiles, Outcome.bind_eq_ok]
    constructor
    · rintro ⟨bundles, h, hcatalogue⟩
      cases hcatalogue
      exact ⟨hfiles, loadFiles_ok.mp h⟩
    · rintro ⟨-, h⟩
      exact ⟨catalogue.bundles, loadFiles_ok.mpr h, rfl⟩

/-- A stored bundle was given under its name, and each that was given has one stored. -/
theorem get_stored {name : JsString} {bundle : Bundle}
    (h : (bundles.foldl store m).get name = some bundle) :
    bundle ∈ bundles ∧ bundle.name = name ∨ m.get name = some bundle := by
  induction bundles generalizing m with
  | nil => exact .inr h
  | cons first rest ih =>
    rcases ih h with ⟨hmem, hname⟩ | hfirst
    · exact .inl ⟨List.mem_cons_of_mem _ hmem, hname⟩
    · rw [store, JsMap.get_set] at hfirst
      split at hfirst
      · next hname =>
        cases hfirst
        exact .inl ⟨List.mem_cons_self, hname.symm⟩
      · exact .inr hfirst

theorem stored_of_get {name : JsString} (h : (∃ bundle, m.get name = some bundle) ∨
    ∃ bundle ∈ bundles, bundle.name = name) :
    ∃ bundle, (bundles.foldl store m).get name = some bundle := by
  induction bundles generalizing m with
  | nil =>
    rcases h with h | ⟨_, h, -⟩
    · exact h
    · exact absurd h List.not_mem_nil
  | cons first rest ih =>
    apply ih
    rcases h with ⟨bundle, h⟩ | ⟨bundle, hmem, hname⟩
    · rw [store, JsMap.get_set]
      split
      · exact .inl ⟨first, rfl⟩
      · exact .inl ⟨bundle, h⟩
    · rcases List.mem_cons.mp hmem with rfl | hrest
      · rw [store, hname, JsMap.get_set_self]
        exact .inl ⟨bundle, rfl⟩
      · exact .inr ⟨bundle, hrest, hname⟩

theorem nodup_stored (h : (m.entries.map Prod.fst).Nodup) :
    ((bundles.foldl store m).entries.map Prod.fst).Nodup := by
  induction bundles generalizing m with
  | nil => exact h
  | cons first rest ih => exact ih (JsMap.nodup_keys_set h _ _)

theorem get_stored_iff (hone : ∀ bundle ∈ bundles, ∀ bundle' ∈ bundles,
    bundle.name = bundle'.name → bundle = bundle') {name : JsString} {bundle : Bundle} :
    (bundles.foldl store .empty).get name = some bundle ↔
      bundle ∈ bundles ∧ bundle.name = name := by
  constructor
  · intro h
    rcases get_stored h with h | h
    · exact h
    · cases h
  · rintro ⟨hmem, hname⟩
    obtain ⟨stored, hstored⟩ := stored_of_get (m := .empty) (.inr ⟨bundle, hmem, hname⟩)
    rcases get_stored hstored with ⟨hmem', hname'⟩ | h
    · rw [hone bundle hmem stored hmem' (hname.trans hname'.symm), hstored]
    · cases h

theorem exists_bundles (h : AllLoad source files) : ∃ bundles,
    List.Forall₂ (fun file bundle => loadFile source file = .ok bundle) files bundles := by
  induction files with
  | nil => exact ⟨[], .nil⟩
  | cons file rest ih =>
    obtain ⟨⟨bundle, hbundle⟩, hrest⟩ := List.forall_mem_cons.mp h
    obtain ⟨bundles, hbundles⟩ := ih hrest
    exact ⟨bundle :: bundles, .cons hbundle hbundles⟩

theorem mem_bundles
    (h : List.Forall₂ (fun file bundle => loadFile source file = .ok bundle) files bundles)
    {bundle : Bundle} : bundle ∈ bundles ↔ ∃ file ∈ files, loadFile source file = .ok bundle := by
  induction h with
  | nil => simp
  | @cons file first _ _ hfirst _ ih =>
    rw [List.mem_cons, List.exists_mem_cons_iff, ih, hfirst]
    constructor
    · exact Or.imp_left (congrArg _ ·.symm)
    · exact Or.imp_left (Except.ok.inj · |>.symm)

theorem allLoad_of_bundles
    (h : List.Forall₂ (fun file bundle => loadFile source file = .ok bundle) files bundles) :
    AllLoad source files := by
  induction h with
  | nil => exact fun _ h => absurd h List.not_mem_nil
  | cons hfirst _ ih => exact List.forall_mem_cons.mpr ⟨⟨_, hfirst⟩, ih⟩

theorem one_of_bundles
    (h : List.Forall₂ (fun file bundle => loadFile source file = .ok bundle) files bundles)
    (hone : OneBundleEach source files) : ∀ bundle ∈ bundles, ∀ bundle' ∈ bundles,
      bundle.name = bundle'.name → bundle = bundle' := by
  intro bundle hbundle bundle' hbundle'
  obtain ⟨file, hfile, hload⟩ := (mem_bundles h).mp hbundle
  obtain ⟨file', hfile', hload'⟩ := (mem_bundles h).mp hbundle'
  exact hone file hfile file' hfile' bundle bundle' hload hload'

theorem get_eq_ok {catalogue : PolicyCatalogue} {name : JsString} {bundle : Bundle} :
    catalogue.get name = .ok bundle ↔ catalogue.bundles.get name = some bundle := by
  unfold PolicyCatalogue.get
  cases catalogue.bundles.get name with
  | none => constructor <;> rintro ⟨⟩
  | some => simp

-- ---------------------------------------------------------------------------
-- Every directory
-- ---------------------------------------------------------------------------

theorem sameCatalogue {entries' : List JsString} {catalogue catalogue' : PolicyCatalogue}
    (hperm : entries'.Perm entries) (hone : OneBundleEach source (entries.filter isPolicyFile))
    (h : loadPolicies source (some entries) = .ok catalogue)
    (h' : loadPolicies source (some entries') = .ok catalogue') :
    SameCatalogue catalogue' catalogue := by
  obtain ⟨-, bundles, hbundles, hcatalogue⟩ := loadPolicies_ok.mp h
  obtain ⟨-, bundles', hbundles', hcatalogue'⟩ := loadPolicies_ok.mp h'
  have hfiles := hperm.filter isPolicyFile
  have hmem (bundle : Bundle) : bundle ∈ bundles' ↔ bundle ∈ bundles := by
    rw [mem_bundles hbundles, mem_bundles hbundles']
    simp only [hfiles.mem_iff]
  have hsingle := one_of_bundles hbundles hone
  have hsingle' : ∀ bundle ∈ bundles', ∀ bundle' ∈ bundles',
      bundle.name = bundle'.name → bundle = bundle' := by
    simpa only [hmem] using hsingle
  have hget (name : JsString) : catalogue'.bundles.get name = catalogue.bundles.get name := by
    rw [hcatalogue, hcatalogue']
    apply Option.ext
    intro bundle
    rw [get_stored_iff hsingle, get_stored_iff hsingle', hmem]
  refine ⟨fun name => ?_, ?_⟩
  · unfold PolicyCatalogue.get
    rw [hget]
  · apply List.Perm.map
    apply JsMap.entries_perm ?_ ?_ hget
    · rw [hcatalogue']
      exact nodup_stored List.nodup_nil
    · rw [hcatalogue]
      exact nodup_stored List.nodup_nil

theorem loadPolicies_returns : Outcome.Returns (loadPolicies source (some entries)) ↔
    entries.filter isPolicyFile ≠ [] ∧ AllLoad source (entries.filter isPolicyFile) := by
  constructor
  · rintro ⟨catalogue, h⟩
    obtain ⟨hne, bundles, hbundles, -⟩ := loadPolicies_ok.mp h
    exact ⟨hne, allLoad_of_bundles hbundles⟩
  · rintro ⟨hne, hall⟩
    obtain ⟨bundles, hbundles⟩ := exists_bundles hall
    exact ⟨⟨bundles.foldl store .empty⟩, loadPolicies_ok.mpr ⟨hne, bundles, hbundles, rfl⟩⟩

theorem AllLoad.perm {files' : List JsString} (h : AllLoad source files)
    (hperm : files'.Perm files) : AllLoad source files' :=
  fun file hfile => h file (hperm.mem_iff.mp hfile)

theorem loadPolicies_perm {entries' : List JsString} (hperm : entries'.Perm entries)
    (h : Outcome.Returns (loadPolicies source (some entries))) :
    Outcome.Returns (loadPolicies source (some entries')) := by
  have hfiles := hperm.filter isPolicyFile
  obtain ⟨hne, hall⟩ := loadPolicies_returns.mp h
  refine loadPolicies_returns.mpr ⟨fun hnil => hne ?_, hall.perm hfiles⟩
  rw [hnil] at hfiles
  exact hfiles.symm.eq_nil

theorem exists_listed_last (hall : AllLoad source (entries.filter isPolicyFile)) {file : JsString}
    (hfile : file ∈ entries.filter isPolicyFile) {bundle : Bundle}
    (hload : loadFile source file = .ok bundle) :
    ∃ entries' catalogue', entries'.Perm entries ∧
      loadPolicies source (some entries') = .ok catalogue' ∧
      catalogue'.get bundle.name = .ok bundle := by
  obtain ⟨hmem, hpolicy⟩ := List.mem_filter.mp hfile
  have hperm : (entries.erase file ++ [file]).Perm entries :=
    (List.perm_append_singleton file _).trans (List.perm_cons_erase hmem).symm
  have hfilter : (entries.erase file ++ [file]).filter isPolicyFile =
      (entries.erase file).filter isPolicyFile ++ [file] := by
    rw [List.filter_append, List.filter_singleton, hpolicy]
    rfl
  have hall' := hall.perm (hperm.filter isPolicyFile)
  rw [hfilter] at hall'
  obtain ⟨bundles, hbundles⟩ := exists_bundles fun f hf => hall' f (List.mem_append_left _ hf)
  refine ⟨_, ⟨(bundles ++ [bundle]).foldl store .empty⟩, hperm, loadPolicies_ok.mpr ⟨?_, _, ?_, rfl⟩,
    ?_⟩
  · rw [hfilter]
    exact List.append_ne_nil_of_right_ne_nil _ (List.cons_ne_nil _ _)
  · rw [hfilter]
    exact List.rel_append hbundles (.cons hload .nil)
  · rw [get_eq_ok, List.foldl_append]
    exact JsMap.get_set_self _ _ _

/-- The catalogue has a bundle under a name exactly when it is read for a listed file. -/
theorem get_loaded_iff (hone : OneBundleEach source (entries.filter isPolicyFile))
    {catalogue : PolicyCatalogue} (h : loadPolicies source (some entries) = .ok catalogue)
    {name : JsString} {bundle : Bundle} : catalogue.get name = .ok bundle ↔
      (∃ file ∈ entries.filter isPolicyFile, loadFile source file = .ok bundle) ∧
        bundle.name = name := by
  obtain ⟨-, bundles, hbundles, hcatalogue⟩ := loadPolicies_ok.mp h
  rw [get_eq_ok, hcatalogue, get_stored_iff (one_of_bundles hbundles hone), mem_bundles hbundles]

theorem oneBundleEach_of_unordered (h : ∀ entries', entries'.Perm entries →
      SameOutcome (loadPolicies source (some entries')) (loadPolicies source (some entries)))
    (hall : AllLoad source (entries.filter isPolicyFile)) :
    OneBundleEach source (entries.filter isPolicyFile) := by
  intro file hfile file' hfile' bundle bundle' hload hload' hname
  obtain ⟨catalogue, hcatalogue⟩ := loadPolicies_returns.mpr ⟨List.ne_nil_of_mem hfile, hall⟩
  have hkept : ∀ f ∈ entries.filter isPolicyFile, ∀ b, loadFile source f = .ok b →
      catalogue.get b.name = .ok b := by
    intro f hf b hb
    obtain ⟨entries', catalogue', hperm, hload', hget⟩ := exists_listed_last hall hf hb
    have hsame := h entries' hperm
    rw [hcatalogue, hload'] at hsame
    rw [← hsame.get, hget]
  have hget := hkept file hfile bundle hload
  rw [hname, hkept file' hfile' bundle' hload'] at hget
  exact (Except.ok.inj hget).symm

theorem distinct_of_loadPolicies {catalogue : PolicyCatalogue}
    (h : loadPolicies source (some entries) = .ok catalogue) {bundle : Bundle}
    (hbundle : bundle ∈ catalogue.list) : (bundle.rules.map Rule.id).Nodup := by
  obtain ⟨-, bundles, hbundles, hcatalogue⟩ := loadPolicies_ok.mp h
  obtain ⟨⟨name, b⟩, hentry, rfl⟩ := List.mem_map.mp hbundle
  have hnodup : (catalogue.bundles.entries.map Prod.fst).Nodup := by
    rw [hcatalogue]
    exact nodup_stored List.nodup_nil
  have hget := (JsMap.get_eq_some hnodup).mpr hentry
  rw [hcatalogue] at hget
  rcases get_stored hget with ⟨hmem, -⟩ | hempty
  · obtain ⟨file, -, hfile⟩ := (mem_bundles hbundles).mp hmem
    exact (accepted_of_loadFile hfile).distinct
  · cases hempty

end

-- ---------------------------------------------------------------------------
-- Names that read their own files
-- ---------------------------------------------------------------------------

theorem getLast?_of_isPolicyFile {file : JsString} (h : isPolicyFile file = true) :
    file.getLast? = some (unit 'l') := by
  have hends : (js ".yaml").getLast? = some (unit 'l') ∧ (js ".yml").getLast? = some (unit 'l') := by
    decide
  rcases Bool.or_eq_true_iff.mp h with h | h <;>
    obtain ⟨start, rfl⟩ := List.isSuffixOf_iff_suffix.mp h
  · rw [List.getLast?_append, hends.1, Option.some_or]
  · rw [List.getLast?_append, hends.2, Option.some_or]

/-- A name without blanks, controls, slashes, colons and the marks `#`, `?` and `%`. -/
theorem readsItself_of_plain {source : PolicySource} {file : JsString}
    (hslash : source.url.getLast? = some []) (hpolicy : isPolicyFile file = true)
    (hname : ∀ c ∈ file, isNameUnit c = true) : ReadsItself source file := by
  obtain ⟨segments, hurl⟩ := List.getLast?_eq_some_iff.mp hslash
  have hdirectory := source.directory_eq
  rw [if_pos hslash, hurl, List.dropLast_concat] at hdirectory
  unfold ReadsItself PolicySource.resolve
  rw [hurl, resolveFileUrl_name hname (getLast?_of_isPolicyFile hpolicy) (by decide),
    Option.bind_some]
  unfold fileUrlToPath at hdirectory ⊢
  rw [List.mapM_append, hdirectory]
  have hpercent : percentSign ∉ file := fun h => (isNameUnit_iff.mp (hname _ h)).2.2.2.1 rfl
  simp [decodeSegment_of_no_percent hpercent]

/-- What stands behind a number sign is no part of the path. -/
example : resolveFileUrl (fun _ => false) [js "policies", []] (js "deny.yaml#2.yaml") =
    some [js "policies", js "deny.yaml"] := by decide +kernel

theorem loadFile_of_readsItself {source : PolicySource} {file : JsString}
    (h : ReadsItself source file) : loadFile source file = statedBundle source file := by
  unfold loadFile
  rw [h]
  rfl

/-- No rule of any file is dropped, and the order of the files is open, exactly when some name
cannot be read, or names read with one bundle name give one bundle and every name reads its own
file or one that stands in for it. -/
theorem nothing_dropped_iff (source : PolicySource) (entries : List JsString) :
    NothingDropped source entries ↔
      (AllLoad source (entries.filter isPolicyFile) →
        OneBundleEach source (entries.filter isPolicyFile) ∧
        ∀ file ∈ entries.filter isPolicyFile, ReadsItself source file ∨
          StatedElsewhere source (entries.filter isPolicyFile) file) := by
  constructor
  · intro h hall
    have hone : OneBundleEach source (entries.filter isPolicyFile) :=
      oneBundleEach_of_unordered h.unordered hall
    refine ⟨hone, fun file hfile => .inr ?_⟩
    obtain ⟨catalogue, hcatalogue⟩ := loadPolicies_returns.mpr ⟨List.ne_nil_of_mem hfile, hall⟩
    obtain ⟨stated, hstated, bundle, hget, hrules⟩ := h.kept catalogue hcatalogue file hfile
    obtain ⟨⟨file', hfile', hload⟩, hname⟩ := (get_loaded_iff hone hcatalogue).mp hget
    exact ⟨stated, hstated, file', hfile', bundle, hload, hname, hrules⟩
  · intro h
    refine ⟨fun catalogue hload file hfile => ?_, fun catalogue hload bundle hbundle => ?_,
      fun entries' hperm => ?_⟩
    · obtain ⟨hone, hfiles⟩ := h (loadPolicies_returns.mp ⟨catalogue, hload⟩).2
      rcases hfiles file hfile with hself | ⟨stated, hstated, file', hfile', bundle, hb, hname, hrules⟩
      · obtain ⟨stated, hstated⟩ := (loadPolicies_returns.mp ⟨catalogue, hload⟩).2 file hfile
        refine ⟨stated, (loadFile_of_readsItself hself).symm.trans hstated, stated, ?_, fun _ => id⟩
        exact (get_loaded_iff hone hload).mpr ⟨⟨file, hfile, hstated⟩, rfl⟩
      · exact ⟨stated, hstated, bundle, (get_loaded_iff hone hload).mpr ⟨⟨file', hfile', hb⟩, hname⟩,
          hrules⟩
    · exact distinct_of_loadPolicies hload hbundle
    · cases hload : loadPolicies source (some entries) with
      | ok catalogue =>
        obtain ⟨-, hall⟩ := loadPolicies_returns.mp ⟨catalogue, hload⟩
        obtain ⟨catalogue', hload'⟩ := loadPolicies_perm hperm ⟨catalogue, hload⟩
        rw [hload']
        exact sameCatalogue hperm (h hall).1 hload hload'
      | error e =>
        cases hload' : loadPolicies source (some entries') with
        | error e' => trivial
        | ok catalogue' =>
          obtain ⟨catalogue, hok⟩ := loadPolicies_perm hperm.symm ⟨catalogue', hload'⟩
          cases hload.symm.trans hok

/-- A bundle named `baseline` with one rule. -/
def baselineDocument (id effect : JsString) : Json :=
  .object
    [(js "version", .number (.finite 1)), (js "name", .string (js "baseline")),
      (js "rules", .array
        [.object
          [(js "id", .string id), (js "effect", .string effect),
            (js "match", .object
              [(js "path", .string (js "tool")), (js "op", .string (js "exists"))])]])]

def oneRule (id : JsString) (effect : Effect) : Bundle where
  name := js "baseline"
  rules := [{ id, effect, «match» := { path := some (js "tool"), op := some .exists_ } }]

/-- Two files that state the name `baseline`. -/
def twoBaselines : PolicySource where
  url := [js "policies", []]
  directory := [js "policies"]
  directory_eq := by decide +kernel
  isLocalhost host := host = js "localhost"
  notResolved _ := .other (some (js "Invalid URL"))
  readFile path := .ok (path.getLast?.getD [])
  parseYaml text := .ok <|
    if text = js "deny.yaml" then baselineDocument (js "deny-tools") (js "deny")
    else baselineDocument (js "allow-tools") (js "allow")
  issues _ := []

/-- The rule of the first file is not in the catalogue. -/
theorem deny_rule_is_dropped :
    ¬ NothingDropped twoBaselines [js "deny.yaml", js "allow.yaml"] := by
  intro h
  have hload : loadPolicies twoBaselines (some [js "deny.yaml", js "allow.yaml"]) =
      .ok ⟨⟨[(js "baseline", oneRule (js "allow-tools") (.decide .allow))]⟩⟩ := rfl
  have hfile : loadFile twoBaselines (js "deny.yaml") =
      .ok (oneRule (js "deny-tools") (.decide .deny)) := rfl
  obtain ⟨stated, hstated, bundle, hget, hrules⟩ := h.kept _ hload (js "deny.yaml") List.mem_cons_self
  cases hfile.symm.trans hstated
  cases hget
  have hrule := List.mem_singleton.mp (hrules _ List.mem_cons_self)
  have hid : js "deny-tools" = js "allow-tools" := congrArg Rule.id hrule
  exact absurd hid (by decide +kernel)

end McpGateway.Policy
