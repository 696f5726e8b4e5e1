import McpGateway.Js.Doubles
import McpGateway.Policy.Ordering
import McpGateway.Salesforce.SoqlLaws
import Mathlib.Data.List.Perm.Basic

/-!
# What a page of a query holds

An execution filters, sorts, cuts and prints. Each of the four is said here on
its own terms: which records satisfy the conditions, what the stable order of a
column is, where the cut falls, and what is printed of a record.
-/

namespace McpGateway.Salesforce

open Js Shared

-- ---------------------------------------------------------------------------
-- The four parts
-- ---------------------------------------------------------------------------

section
variable (engine : Engine) (parsed : ParsedQuery)

/-- All conditions for AND, at least one for OR, and every record when there are none. -/
def satisfies (record : CrmRecord) : Bool :=
  let met (condition : Comparison) :=
    Outcome.holds (compare engine (property record.props condition.field) condition)
  match parsed.combinator with
  | .and => parsed.conditions.all met
  | .or => parsed.conditions.isEmpty || parsed.conditions.any met

def satisfying (records : List CrmRecord) : List CrmRecord :=
  records.filter (satisfies engine parsed)

/-- A comparison by size reads a value that is not a number as a date. -/
def Operator.comparesSize : Operator → Bool
  | .lt | .le | .gt | .ge => true
  | _ => false

/-- The values that are converted to text have one. -/
structure Converts (records : List CrmRecord) : Prop where
  compared : ∀ record ∈ records, ∀ condition ∈ parsed.conditions,
    condition.operator.comparesSize = true →
      isNumber (property record.props condition.field) = true ∨
        ((property record.props condition.field).text engine).isSome = true
  sorted : ∀ order, parsed.orderBy = some order → 2 ≤ (satisfying engine parsed records).length →
    ∀ record ∈ satisfying engine parsed records,
      isNumber (property record.props order.field) = true ∨
        (orderText engine (property record.props order.field)).isSome = true

end

def IsCut (limit : Option JsNumber) (maxRows : Nat) (k : Nat) : Prop :=
  (limit.getD (.finite maxRows)).min (.finite maxRows) = .finite k

def selected (record : CrmRecord) (field : JsString) : Option (JsString × Json) :=
  match property record.props field with
  | .json v => if field = js "__proto__" ∧ hidesSetter v = false then none else some (field, v)
  | _ => none

/-- The whole record, or the selected fields that it has, each once and in the order they are
named in. The first `__proto__` does not count, and the others only after a value that leaves no
setter. -/
def projection (fields : Fields) (record : CrmRecord) : Json :=
  match fields with
  | .star => record.json
  | .named fields =>
    .object ((fields.erase (js "__proto__")).eraseDups.filterMap (selected record))

def numberAt (field : JsString) (record : CrmRecord) : JsNumber :=
  match property record.props field with
  | .json (.number n) => n
  | _ => .nan

/-- The string in a column, empty when it is missing. -/
def textAt (field : JsString) (record : CrmRecord) : JsString :=
  match property record.props field with
  | .json (.string s) => s
  | _ => []

def NumberColumn (field : JsString) (records : List CrmRecord) : Prop :=
  ∀ record ∈ records, ∃ n, property record.props field = .json (.number n) ∧ IsDouble n ∧ n ≠ .nan

def TextColumn (field : JsString) (records : List CrmRecord) : Prop :=
  ∀ record ∈ records, (∃ s, property record.props field = .json (.string s)) ∨
    property record.props field = .undefined ∨ property record.props field = .json .null

def directed {α : Type} (direction : Direction) (le : α → α → Bool) (a b : α) : Bool :=
  match direction with
  | .asc => le a b
  | .desc => le b a

/-- The page and its figures, for the records that satisfy the conditions. -/
structure Answers (engine : Engine) (parsed : ParsedQuery) (records : List CrmRecord)
    (maxRows : Nat) (result : QueryResult) : Prop where
  totalSize : result.totalSize = (satisfying engine parsed records).length
  page : ∃ (arranged : List CrmRecord) (k : Nat),
    IsCut parsed.limit maxRows k ∧
    result.records = (arranged.take k).map (projection parsed.fields) ∧
    arranged.Perm (satisfying engine parsed records) ∧
    (parsed.orderBy = none → arranged = satisfying engine parsed records) ∧
    ∀ order, parsed.orderBy = some order →
      (NumberColumn order.field (satisfying engine parsed records) →
        StableSort (directed order.direction fun a b =>
          (numberAt order.field a).le (numberAt order.field b))
          (satisfying engine parsed records) arranged) ∧
      (TextColumn order.field (satisfying engine parsed records) →
        StableSort (directed order.direction fun a b =>
          decide (engine.localeCompare (textAt order.field a) (textAt order.field b) ≤ 0))
          (satisfying engine parsed records) arranged)
  done : result.done = true ↔ result.records.length = result.totalSize
  positions : ∃ positions : List Nat, positions.Nodup ∧
    List.Forall₂ (fun i row => ∃ record, records[i]? = some record ∧
      row = projection parsed.fields record) positions result.records

-- ---------------------------------------------------------------------------
-- Conversions
-- ---------------------------------------------------------------------------

section
variable {engine : Engine} {sorter : Sorter} {parsed : ParsedQuery} {records : List CrmRecord}

theorem returns_converted {α : Type} {text : Option α} :
    Outcome.Returns (converted text) ↔ text.isSome = true := by
  cases text with
  | none => exact iff_of_false (Outcome.not_returns_error _) Bool.false_ne_true
  | some s => exact iff_of_true (Outcome.returns_ok s) rfl

theorem literal_text (value : Literal) : (jsonText engine value.json).isSome = true := by
  cases value <;> rfl

theorem itemTexts_literals (values : List Literal) :
    (jsonText.itemTexts engine (values.map Literal.json)).isSome = true := by
  induction values with
  | nil => rfl
  | cons value values ih =>
    obtain ⟨texts, htexts⟩ := Option.isSome_iff_exists.mp ih
    cases value with
    | null =>
      show ((jsonText.itemTexts engine (values.map Literal.json)).map ([] :: ·)).isSome = true
      rw [htexts]
      rfl
    | string s | number n | boolean b =>
      simp [Literal.json, jsonText.itemTexts, jsonText, htexts]

theorem operand_text (value : Operand) :
    ((compare.operandValue value).text engine).isSome = true := by
  cases value with
  | one value => exact literal_text value
  | many values =>
    show ((jsonText.itemTexts engine (values.map Literal.json)).map Json.joinComma).isSome = true
    rw [Option.isSome_map]
    exact itemTexts_literals values

theorem returns_magnitudeOf {v : Value} :
    Outcome.Returns (magnitudeOf engine v) ↔ isNumber v = true ∨ (v.text engine).isSome = true := by
  unfold magnitudeOf
  split
  · exact iff_of_true (Outcome.returns_ok _) (.inl rfl)
  · next hnumber =>
    have hnot : isNumber v = false := by
      unfold isNumber
      split
      · next n => exact absurd rfl (hnumber n)
      · rfl
    rw [Outcome.returns_map, returns_converted, hnot]
    simp

theorem returns_bind {ε α β : Type} {x : Except ε α} {f : α → Except ε β}
    (hf : ∀ a, Outcome.Returns (f a)) : Outcome.Returns (x >>= f) ↔ Outcome.Returns x := by
  cases x with
  | ok a => exact iff_of_true (hf a) (Outcome.returns_ok a)
  | error e => exact iff_of_false (Outcome.not_returns_error e) (Outcome.not_returns_error e)

theorem returns_compare {v : Value} {condition : Comparison} :
    Outcome.Returns (compare engine v condition) ↔
      (condition.operator.comparesSize = true → isNumber v = true ∨ (v.text engine).isSome = true) := by
  obtain ⟨field, operator, value⟩ := condition
  have hsize : Outcome.Returns (do
      let left ← magnitudeOf engine v
      let right ← magnitudeOf engine (compare.operandValue value)
      return compareMagnitudes operator left right : Except Thrown Bool) ↔
        isNumber v = true ∨ (v.text engine).isSome = true := by
    rw [returns_bind, returns_magnitudeOf]
    intro left
    rw [returns_bind, returns_magnitudeOf]
    · exact .inr (operand_text value)
    · exact fun right => Outcome.returns_ok _
  cases operator with
  | lt | le | gt | ge => exact hsize.trans ⟨fun h _ => h, fun h => h rfl⟩
  | like =>
    refine iff_of_true ?_ (fun h => by cases h)
    cases value with
    | many values => exact Outcome.returns_ok _
    | one literal =>
      cases literal with
      | string pattern =>
        unfold compare
        dsimp only
        split <;> exact Outcome.returns_ok _
      | number n | boolean b | null => exact Outcome.returns_ok _
  | eq | ne | in_ =>
    refine iff_of_true ?_ (fun h => by cases h)
    cases value <;> exact Outcome.returns_ok _

theorem mapM_holds {ε α : Type} {f : α → Except ε Bool} {xs : List α}
    (h : ∀ x ∈ xs, Outcome.Returns (f x)) :
    xs.mapM f = .ok (xs.map fun x => Outcome.holds (f x)) :=
  Outcome.mapM_ok fun x hx => Outcome.returns_iff_holds.mp (h x hx)

theorem mapM_returns {ε α β : Type} {f : α → Except ε β} {xs : List α}
    (h : Outcome.Returns (xs.mapM f)) : ∀ x ∈ xs, Outcome.Returns (f x) := by
  induction xs with
  | nil =>
    intro x hx
    cases hx
  | cons y xs ih =>
    rw [List.mapM_cons] at h
    obtain ⟨out, hout⟩ := h
    obtain ⟨b, hb, hout⟩ := Outcome.bind_eq_ok.mp hout
    obtain ⟨bs, hbs, -⟩ := Outcome.bind_eq_ok.mp hout
    rw [List.forall_mem_cons]
    exact ⟨⟨b, hb⟩, ih ⟨bs, hbs⟩⟩

theorem returns_matchesQuery {record : CrmRecord} :
    Outcome.Returns (matchesQuery engine parsed record) ↔
      ∀ condition ∈ parsed.conditions, Outcome.Returns
        (compare engine (property record.props condition.field) condition) := by
  unfold matchesQuery
  split
  · next hnone =>
    rw [hnone]
    exact iff_of_true (Outcome.returns_ok true) (by simp)
  · refine (returns_bind fun _ => ⟨_, rfl⟩).trans ?_
    exact ⟨mapM_returns, fun h => ⟨_, mapM_holds h⟩⟩

theorem holds_matchesQuery {record : CrmRecord}
    (h : Outcome.Returns (matchesQuery engine parsed record)) :
    Outcome.holds (matchesQuery engine parsed record) = satisfies engine parsed record := by
  have hconditions := mapM_holds (returns_matchesQuery.mp h)
  unfold matchesQuery satisfies
  split
  · next hnone =>
    rw [hnone]
    cases parsed.combinator <;> rfl
  · next hsome =>
    rw [hconditions, Outcome.ok_bind]
    cases parsed.combinator with
    | and => simp [Outcome.holds, pure, Except.pure, List.all_map]
    | or => simp [Outcome.holds, pure, Except.pure, List.any_map, hsome]

theorem matching_eq (h : ∀ record ∈ records, Outcome.Returns (matchesQuery engine parsed record)) :
    matching engine parsed records = satisfying engine parsed records :=
  List.filter_congr fun record hrecord => holds_matchesQuery (h record hrecord)

theorem runs_iff : Runs engine parsed records ↔ Converts engine parsed records := by
  have hevaluates : (∀ record ∈ records, Outcome.Returns (matchesQuery engine parsed record)) ↔
      ∀ record ∈ records, ∀ condition ∈ parsed.conditions,
        condition.operator.comparesSize = true →
          isNumber (property record.props condition.field) = true ∨
            ((property record.props condition.field).text engine).isSome = true := by
    simp only [returns_matchesQuery, returns_compare]
  constructor
  · rintro ⟨heval, hsort⟩
    rw [matching_eq heval] at hsort
    refine ⟨hevaluates.mp heval, fun order horder hmany record hrecord => ?_⟩
    have hcomparable := ((hsort order horder).resolve_left (Nat.not_lt.mpr hmany)) record hrecord
    simpa [comparable] using hcomparable
  · rintro ⟨hcompared, hsorted⟩
    have heval := hevaluates.mpr hcompared
    refine ⟨heval, fun order horder => ?_⟩
    rw [matching_eq heval]
    rcases Nat.lt_or_ge (satisfying engine parsed records).length 2 with hfew | hmany
    · exact .inl hfew
    · refine .inr fun record hrecord => ?_
      simpa [comparable] using hsorted order horder hmany record hrecord

-- ---------------------------------------------------------------------------
-- The cut
-- ---------------------------------------------------------------------------

theorem parseLimit_natural (digits : JsString) :
    parseLimit digits = .infinity false ∨ ∃ n : ℕ, parseLimit digits = .finite n := by
  unfold parseLimit
  generalize Json.digitsValue digits = n
  by_cases hn : n = 0
  · rw [hn, roundToDouble_zero]
    exact .inr ⟨0, rfl⟩
  · obtain ⟨limit, -, hround⟩ := roundToDouble_nat
    rw [hround n hn false, overLimit]
    split
    · exact .inl rfl
    · exact .inr ⟨_, rfl⟩

theorem parseSoql_limit {soql : JsString} (h : parseSoql soql = .ok parsed) :
    ∀ n, parsed.limit = some n → n = .infinity false ∨ ∃ k : ℕ, n = .finite k := by
  unfold parseSoql at h
  obtain ⟨groups, -, h⟩ := Outcome.bind_eq_ok.mp h
  obtain ⟨object, -, h⟩ := Outcome.bind_eq_ok.mp h
  obtain ⟨fields, -, h⟩ := Outcome.bind_eq_ok.mp h
  obtain ⟨parsed', -, h⟩ := Outcome.bind_eq_ok.mp h
  cases h
  intro n hn
  obtain ⟨digits, -, rfl⟩ := Option.map_eq_some_iff.mp hn
  exact parseLimit_natural digits

theorem isCut_effectiveLimit {limit : Option JsNumber} {maxRows : Nat}
    (h : ∀ n, limit = some n → n = .infinity false ∨ ∃ k : ℕ, n = .finite k) :
    IsCut limit maxRows (effectiveLimit limit maxRows) := by
  unfold IsCut effectiveLimit
  cases limit with
  | none => simp [JsNumber.min]
  | some n =>
    rcases h n rfl with rfl | ⟨k, rfl⟩
    · simp [JsNumber.min, JsNumber.le]
    · simp only [Option.getD_some, JsNumber.min, JsNumber.le, JsNumber.value]
      rcases Nat.lt_trichotomy maxRows k with hlt | rfl | hgt
      · simp [hlt.le, hlt.not_ge]
      · simp
      · simp [hgt.le, hgt.not_ge]

-- ---------------------------------------------------------------------------
-- The projection
-- ---------------------------------------------------------------------------

theorem setProp_new {key : JsString} {v : Json} {props : List (JsString × Json)}
    (h : key ∉ props.map Prod.fst) : Json.setProp key v props = props ++ [(key, v)] := by
  induction props with
  | nil => rfl
  | cons p props ih =>
    rw [List.map_cons, List.mem_cons, not_or] at h
    rw [Json.setProp, if_neg (Ne.symm h.1), ih h.2]
    rfl

theorem setProp_same {key : JsString} {v : Json} {props : List (JsString × Json)}
    (hkeys : (props.map Prod.fst).Nodup) (h : (key, v) ∈ props) :
    Json.setProp key v props = props := by
  induction props with
  | nil => cases h
  | cons p props ih =>
    rw [List.map_cons, List.nodup_cons] at hkeys
    rcases List.mem_cons.mp h with rfl | h
    · exact if_pos rfl
    · have hne : p.1 ≠ key := fun heq => hkeys.1 (heq ▸ List.mem_map_of_mem (f := Prod.fst) h)
      rw [Json.setProp, if_neg hne, ih hkeys.2 h]

theorem selected_some {record : CrmRecord} {field : JsString} {entry : JsString × Json}
    (h : selected record field = some entry) : entry.1 = field := by
  unfold selected at h
  split at h
  · split at h
    · cases h
    · cases h
      rfl
  · cases h

theorem eraseDups_snoc (fields : List JsString) (field : JsString) :
    (fields ++ [field]).eraseDups =
      fields.eraseDups ++ if field ∈ fields then [] else [field] := by
  rw [List.eraseDups_append]
  congr 1
  split
  · next hmem => simp [List.removeAll, hmem]
  · next hmem => simp [List.removeAll, hmem, List.eraseDups_cons]

theorem nodup_eraseDups (fields : List JsString) : fields.eraseDups.Nodup := by
  induction fields using List.reverseRecOn with
  | nil => exact List.nodup_nil
  | append_singleton fields field ih =>
    rw [eraseDups_snoc]
    split
    · rwa [List.append_nil]
    · next hnew => exact ih.append (List.nodup_singleton field) (by simpa using hnew)

theorem selected_keys (record : CrmRecord) (fields : List JsString) :
    ((fields.filterMap (selected record)).map Prod.fst).Sublist fields := by
  induction fields with
  | nil => exact List.Sublist.slnil
  | cons field fields ih =>
    rw [List.filterMap_cons]
    cases hsel : selected record field with
    | none => exact ih.cons field
    | some entry =>
      rw [List.map_cons, selected_some hsel]
      exact ih.cons_cons field

theorem setProp_selected {record : CrmRecord} {fields : List JsString} {field : JsString} {v : Json}
    (h : selected record field = some (field, v)) :
    Json.setProp field v (fields.eraseDups.filterMap (selected record)) =
      (fields ++ [field]).eraseDups.filterMap (selected record) := by
  have hkeys := selected_keys record fields.eraseDups
  rw [eraseDups_snoc, List.filterMap_append]
  by_cases hmem : field ∈ fields
  · rw [if_pos hmem, List.filterMap_nil, List.append_nil]
    apply setProp_same (hkeys.nodup (nodup_eraseDups fields))
    exact List.mem_filterMap.mpr ⟨field, List.mem_eraseDups.mpr hmem, h⟩
  · rw [if_neg hmem, List.filterMap_cons, h]
    exact setProp_new fun hkey => hmem (List.mem_eraseDups.mp (hkeys.subset hkey))

theorem filterMap_snoc_none {record : CrmRecord} {fields : List JsString} {field : JsString}
    (h : selected record field = none) :
    (fields ++ [field]).eraseDups.filterMap (selected record) =
      fields.eraseDups.filterMap (selected record) := by
  rw [eraseDups_snoc, List.filterMap_append]
  split
  · rw [List.filterMap_nil, List.append_nil]
  · rw [List.filterMap_cons, h, List.filterMap_nil, List.append_nil]

theorem erase_snoc_of_ne {fields : List JsString} {field name : JsString} (h : field ≠ name) :
    (fields ++ [field]).erase name = fields.erase name ++ [field] := by
  by_cases hmem : name ∈ fields
  · rw [List.erase_append_left _ hmem]
  · rw [List.erase_append_right _ hmem, List.erase_of_not_mem hmem,
      List.erase_of_not_mem (by simpa using Ne.symm h)]

/-- The record's own `__proto__` hides the setter, once it is assigned. -/
def setterGone (record : CrmRecord) (fields : List JsString) : Bool :=
  fields.contains (js "__proto__") && (selected record (js "__proto__")).isSome

theorem selected_ne {record : CrmRecord} {field : JsString} {v : Json}
    (hv : property record.props field = .json v) (h : field ≠ js "__proto__") :
    selected record field = some (field, v) := by
  unfold selected
  rw [hv]
  exact if_neg fun hsetter => h hsetter.1

theorem setterGone_snoc_of_ne {record : CrmRecord} {fields : List JsString} {field : JsString}
    (h : field ≠ js "__proto__") :
    setterGone record (fields ++ [field]) = setterGone record fields := by
  unfold setterGone
  rw [List.contains_append, List.contains_cons, beq_false_of_ne (Ne.symm h)]
  simp

theorem selected_proto {record : CrmRecord} {v : Json}
    (hv : property record.props (js "__proto__") = .json v) :
    selected record (js "__proto__") =
      if hidesSetter v = true then some (js "__proto__", v) else none := by
  unfold selected
  rw [hv]
  dsimp only
  cases hidesSetter v <;> simp

def assigned (record : CrmRecord) (fields : List JsString) : Projected where
  props := (fields.erase (js "__proto__")).eraseDups.filterMap (selected record)
  plain := setterGone record fields

theorem assign_of_ne {record : CrmRecord} {fields : List JsString} {field : JsString}
    (h : field ≠ js "__proto__") :
    (assigned record fields).assign record field = assigned record (fields ++ [field]) := by
  unfold assigned Projected.assign
  rw [erase_snoc_of_ne h, setterGone_snoc_of_ne h]
  cases hv : property record.props field with
  | json v =>
    dsimp only
    rw [if_neg fun hsetter => h hsetter.1, setProp_selected (selected_ne hv h)]
  | undefined | method of name | prototype of =>
    rw [filterMap_snoc_none (by rw [selected, hv])]

theorem assign_first_proto {record : CrmRecord} {fields : List JsString}
    (h : js "__proto__" ∉ fields) :
    (assigned record fields).assign record (js "__proto__") =
      assigned record (fields ++ [js "__proto__"]) := by
  have herase : (fields ++ [js "__proto__"]).erase (js "__proto__") =
      fields.erase (js "__proto__") := by
    rw [List.erase_append_right _ h, List.erase_of_not_mem h]
    simp
  have hplain : setterGone record fields = false := by simp [setterGone, h]
  have hgone : setterGone record (fields ++ [js "__proto__"]) =
      (selected record (js "__proto__")).isSome := by simp [setterGone]
  unfold assigned Projected.assign
  rw [herase, hplain, hgone]
  cases hv : property record.props (js "__proto__") with
  | json v =>
    dsimp only
    rw [if_pos ⟨rfl, rfl⟩, selected_proto hv]
    cases hidesSetter v <;> rfl
  | undefined | method of name | prototype of =>
    rw [selected, hv]
    rfl

theorem assign_proto_again {record : CrmRecord} {fields : List JsString}
    (h : js "__proto__" ∈ fields) :
    (assigned record fields).assign record (js "__proto__") =
      assigned record (fields ++ [js "__proto__"]) := by
  have hgone : setterGone record (fields ++ [js "__proto__"]) = setterGone record fields := by
    simp [setterGone, h]
  unfold assigned Projected.assign
  rw [List.erase_append_left _ h, hgone]
  cases hv : property record.props (js "__proto__") with
  | json v =>
    have hsel := selected_proto hv
    dsimp only
    cases hhides : hidesSetter v with
    | true =>
      rw [hhides, if_pos rfl] at hsel
      have hplain : setterGone record fields = true := by simp [setterGone, h, hsel]
      rw [hplain, if_neg (by simp), setProp_selected hsel]
    | false =>
      rw [hhides, if_neg Bool.false_ne_true] at hsel
      have hplain : setterGone record fields = false := by simp [setterGone, hsel]
      rw [hplain, if_pos ⟨rfl, rfl⟩, filterMap_snoc_none hsel]
  | undefined | method of name | prototype of =>
    rw [filterMap_snoc_none (by rw [selected, hv])]

theorem assign_foldl (record : CrmRecord) (fields : List JsString) :
    fields.foldl (Projected.assign record) {} = assigned record fields := by
  induction fields using List.reverseRecOn with
  | nil => rfl
  | append_singleton fields field ih =>
    rw [List.foldl_append, ih, List.foldl_cons, List.foldl_nil]
    by_cases hproto : field = js "__proto__"
    · subst hproto
      by_cases hmem : js "__proto__" ∈ fields
      · exact assign_proto_again hmem
      · exact assign_first_proto hmem
    · exact assign_of_ne hproto

theorem project_eq (fields : Fields) (record : CrmRecord) :
    project fields record = projection fields record := by
  cases fields with
  | star => rfl
  | named fields =>
    unfold project
    dsimp only
    rw [assign_foldl]
    rfl

-- ---------------------------------------------------------------------------
-- The order
-- ---------------------------------------------------------------------------

theorem directed_total {α : Type} {le : α → α → Bool} {items : List α} {direction : Direction}
    (h : ∀ a ∈ items, ∀ b ∈ items, (le a b || le b a) = true) :
    ∀ a ∈ items, ∀ b ∈ items, (directed direction le a b || directed direction le b a) = true := by
  intro a ha b hb
  cases direction with
  | asc => exact h a ha b hb
  | desc => exact h b hb a ha

theorem directed_trans {α : Type} {le : α → α → Bool} {items : List α} {direction : Direction}
    (h : ∀ a ∈ items, ∀ b ∈ items, ∀ c ∈ items, le a b = true → le b c = true → le a c = true) :
    ∀ a ∈ items, ∀ b ∈ items, ∀ c ∈ items, directed direction le a b = true →
      directed direction le b c = true → directed direction le a c = true := by
  intro a ha b hb c hc hab hbc
  cases direction with
  | asc => exact h a ha b hb c hc hab hbc
  | desc => exact h c hc b hb a ha hbc hab

def orderCompare (engine : Engine) (order : OrderBy) (a b : CrmRecord) : JsNumber :=
  let n := compareValues engine (property a.props order.field) (property b.props order.field)
  if order.direction = .desc then n.neg else n

theorem numberAt_of_number {field : JsString} {record : CrmRecord} {n : JsNumber}
    (h : property record.props field = .json (.number n)) : numberAt field record = n := by
  unfold numberAt
  rw [h]

theorem sort_numbers (sorter : Sorter) {order : OrderBy} (h : NumberColumn order.field records) :
    StableSort (directed order.direction fun a b =>
      (numberAt order.field a).le (numberAt order.field b)) records
      (sorter.sort (orderCompare engine order) records) := by
  have hnumber : ∀ record ∈ records, IsDouble (numberAt order.field record) ∧
      numberAt order.field record ≠ .nan := by
    intro record hrecord
    obtain ⟨n, hn, hdouble, hnan⟩ := h record hrecord
    rw [numberAt_of_number hn]
    exact ⟨hdouble, hnan⟩
  apply sorter.stableSort_of
  · intro a ha b hb
    obtain ⟨m, hm, hmdouble, hmnan⟩ := h a ha
    obtain ⟨n, hn, hndouble, hnnan⟩ := h b hb
    rw [notAfter, orderCompare, hm, hn]
    obtain ⟨field, direction⟩ := order
    dsimp only at hm hn ⊢
    cases direction with
    | asc =>
      show (!(JsNumber.finite 0).lt (m.sub n)) = (numberAt field a).le (numberAt field b)
      rw [numberAt_of_number hm, numberAt_of_number hn, zero_lt_sub hmdouble hndouble hmnan hnnan,
        Bool.not_not]
    | desc =>
      show (!(JsNumber.finite 0).lt (m.sub n).neg) = (numberAt field b).le (numberAt field a)
      rw [numberAt_of_number hm, numberAt_of_number hn,
        zero_lt_neg_sub hmdouble hndouble hmnan hnnan, Bool.not_not]
  · apply directed_total
    intro a ha b hb
    exact le_total_of_number (hnumber a ha).2 (hnumber b hb).2
  · apply directed_trans
    intro a ha b hb c hc
    exact le_trans_of_number

theorem textAt_of_text {field : JsString} (h : TextColumn field records) {record : CrmRecord}
    (hrecord : record ∈ records) :
    isNumber (property record.props field) = false ∧
      orderText engine (property record.props field) = some (textAt field record) := by
  unfold textAt
  rcases h record hrecord with ⟨s, hs⟩ | hs | hs
  · rw [hs]
    exact ⟨rfl, rfl⟩
  · rw [hs]
    exact ⟨rfl, rfl⟩
  · rw [hs]
    exact ⟨rfl, rfl⟩

theorem compareValues_of_text {a b : Value} (h : isNumber a = false) :
    compareValues engine a b = .finite
      (engine.localeCompare ((orderText engine a).getD []) ((orderText engine b).getD [])) := by
  unfold compareValues
  split
  · cases h
  · rfl

theorem zero_lt_integer (z : ℤ) : (JsNumber.finite 0).lt (.finite z) = decide (0 < z) := by
  rw [zero_lt_finite]
  exact decide_eq_decide.mpr Int.cast_pos

theorem zero_lt_neg_integer (z : ℤ) : (JsNumber.finite 0).lt (JsNumber.finite z).neg = decide (z < 0) := by
  have hgrid : OnGrid (-(z : ℚ)) := by
    have h := onGrid_of_exponent (m := -z) (e := 0) (by decide)
    simpa using h
  show (JsNumber.finite 0).lt (JsNumber.ofRat (-z)) = _
  rw [zero_lt_ofRat hgrid]
  exact decide_eq_decide.mpr (by rw [neg_pos, Int.cast_lt_zero])

theorem sort_texts (sorter : Sorter) (hlocale : LocalePreorder engine) {order : OrderBy}
    (h : TextColumn order.field records) :
    StableSort (directed order.direction fun a b =>
      decide (engine.localeCompare (textAt order.field a) (textAt order.field b) ≤ 0)) records
      (sorter.sort (orderCompare engine order) records) := by
  apply sorter.stableSort_of
  · intro a ha b hb
    have htext (record : CrmRecord) (hrecord : record ∈ records) :
        isNumber (property record.props order.field) = false ∧
          orderText engine (property record.props order.field) =
            some (textAt order.field record) := textAt_of_text h hrecord
    obtain ⟨hnumber, hatext⟩ := htext a ha
    obtain ⟨-, hbtext⟩ := htext b hb
    rw [notAfter, orderCompare, compareValues_of_text hnumber, hatext, hbtext]
    obtain ⟨field, direction⟩ := order
    dsimp only [Option.getD_some]
    cases direction with
    | asc =>
      show (!(JsNumber.finite 0).lt (.finite _)) = decide _
      rw [zero_lt_integer, ← decide_not]
      exact decide_eq_decide.mpr (by omega)
    | desc =>
      show (!(JsNumber.finite 0).lt (JsNumber.finite _).neg) = decide _
      rw [zero_lt_neg_integer, ← decide_not]
      have hswap := hlocale.swap (textAt field a) (textAt field b)
      exact decide_eq_decide.mpr (by omega)
  · apply directed_total
    intro a _ b _
    have hswap := hlocale.swap (textAt order.field a) (textAt order.field b)
    simp only [Bool.or_eq_true, decide_eq_true_eq]
    omega
  · apply directed_trans
    intro a _ b _ c _ hab hbc
    rw [decide_eq_true_eq] at hab hbc ⊢
    exact hlocale.trans _ _ _ hab hbc

theorem orderRecords_sort {order : OrderBy} {sorted : List CrmRecord}
    (h : orderRecords engine sorter order records = .ok sorted) :
    sorted = sorter.sort (orderCompare engine order) records := by
  unfold orderRecords at h
  dsimp only at h
  split at h
  · cases h
  · cases h
    rfl

-- ---------------------------------------------------------------------------
-- The page
-- ---------------------------------------------------------------------------

theorem exists_positions {α : Type} {items kept arranged : List α} (hkept : kept.Sublist items)
    (hperm : arranged.Perm kept) : ∃ positions : List Nat, positions.Nodup ∧
      List.Forall₂ (fun a i => items[i]? = some a) arranged positions := by
  obtain ⟨indices, hindices, hascending⟩ := List.sublist_eq_map_getElem hkept
  have hat : List.Forall₂ (fun a (i : Nat) => items[i]? = some a) kept
      (indices.map fun i => i.val) := by
    rw [hindices, List.forall₂_map_left_iff, List.forall₂_map_right_iff, List.forall₂_same]
    exact fun i _ => List.getElem?_eq_getElem i.isLt
  obtain ⟨positions, hpositions, hsame⟩ := List.perm_comp_forall₂ hperm hat
  refine ⟨positions, hsame.nodup_iff.mpr ?_, hpositions⟩
  rw [List.Nodup, List.pairwise_map]
  exact hascending.imp fun {i j} hlt => Nat.ne_of_lt hlt

theorem executeQuery_answers (hlocale : LocalePreorder engine) {maxRows : Nat} {result : QueryResult}
    (hlimit : ∀ n, parsed.limit = some n → n = .infinity false ∨ ∃ k : ℕ, n = .finite k)
    (h : executeQuery engine sorter parsed records maxRows = .ok result) :
    Answers engine parsed records maxRows result := by
  unfold executeQuery at h
  obtain ⟨matched, hmatched, h⟩ := Outcome.bind_eq_ok.mp h
  obtain ⟨hreturns, rfl⟩ := Outcome.filterExcept_eq_ok.mp hmatched
  obtain ⟨arranged, harranged, h⟩ := Outcome.bind_eq_ok.mp h
  have hmatching := matching_eq hreturns
  unfold matching at hmatching
  rw [hmatching] at harranged
  cases h
  have hproject : project parsed.fields = projection parsed.fields :=
    funext fun record => project_eq parsed.fields record
  have hperm : arranged.Perm (satisfying engine parsed records) := by
    cases horder : parsed.orderBy with
    | none =>
      rw [horder] at harranged
      cases harranged
      exact List.Perm.refl _
    | some order =>
      rw [horder] at harranged
      exact (orderRecords_ok harranged).2
  refine ⟨hperm.length_eq, ⟨arranged, _, isCut_effectiveLimit hlimit, by rw [hproject], hperm, ?_, ?_⟩,
    ?_, ?_⟩
  · intro horder
    rw [horder] at harranged
    cases harranged
    rfl
  · intro order horder
    rw [horder] at harranged
    rw [orderRecords_sort harranged]
    exact ⟨fun hcolumn => sort_numbers sorter hcolumn, fun hcolumn => sort_texts sorter hlocale hcolumn⟩
  · dsimp only
    rw [List.length_map, List.length_take, decide_eq_true_eq]
    omega
  · obtain ⟨positions, hnodup, hat⟩ := exists_positions List.filter_sublist hperm
    refine ⟨positions.take (effectiveLimit parsed.limit maxRows),
      hnodup.sublist (List.take_sublist _ _), ?_⟩
    dsimp only
    rw [List.forall₂_map_right_iff, hproject]
    refine (List.forall₂_take _ hat).flip.imp ?_
    exact fun i record hrecord => ⟨record, hrecord, rfl⟩

end

/-- An execution of a parsed query returns if and only if the conversions to text that it needs
do, and then it has the figures and the page of the query. -/
theorem executeQuery_page (engine : Engine) (hlocale : LocalePreorder engine) (sorter : Sorter)
    (soql : JsString) (parsed : ParsedQuery) (hparsed : parseSoql soql = .ok parsed)
    (records : List CrmRecord) (maxRows : Nat) :
    (Outcome.Returns (executeQuery engine sorter parsed records maxRows) ↔
      Converts engine parsed records) ∧
    ∀ result, executeQuery engine sorter parsed records maxRows = .ok result →
      Answers engine parsed records maxRows result := by
  refine ⟨?_, fun result h => executeQuery_answers hlocale (parseSoql_limit hparsed) h⟩
  rw [← runs_iff]
  constructor
  · rintro ⟨result, h⟩
    exact (executeQuery_ok h).1
  · exact fun h => executeQuery_returns sorter h maxRows

/-- An account with a column that has no text, and one that is named like a prototype. -/
def oddAccount (id : JsString) : CrmRecord where
  props :=
    [(js "Id", .string id), (js "TenantId", .string (js "acme-corp")),
      (js "OwnerId", .string (js "usr_alice")), (js "Extra", .object [(js "toString", .null)]),
      (js "__proto__", .string (js "text"))]
  id
  tenantId := js "acme-corp"
  ownerId := js "usr_alice"
  territory := none
  hasId := rfl
  hasTenantId := rfl
  hasOwnerId := rfl
  hasTerritory := rfl

/-- A comparison with a value that has no text throws, and a selected column of that name is not
in the row. -/
theorem page_of_odd_account :
    (∃ parsed, parseSoql (js "SELECT Id FROM Account WHERE Extra > 1") = .ok parsed ∧
      executeQuery plainEngine mergeSorter parsed [oddAccount (js "001A")] 200 = .error typeError) ∧
    ∃ parsed, parseSoql (js "SELECT __proto__ FROM Account") = .ok parsed ∧
      parsed.fields = .named [js "__proto__"] ∧
      (oddAccount (js "001A")).props.lookup (js "__proto__") = some (.string (js "text")) ∧
      executeQuery plainEngine mergeSorter parsed [oddAccount (js "001A")] 200 =
        .ok { totalSize := 1, done := true, records := [.object []] } := by
  refine ⟨⟨_, rfl, rfl⟩, ⟨_, rfl, rfl, rfl, rfl⟩⟩

def descendingAccounts : ParsedQuery where
  object := .sobject .account
  fields := .named [js "Id"]
  conditions := []
  combinator := .and
  orderBy := some { field := js "Id", direction := .desc }
  limit := none

/-- Two accounts are asked for in descending order. -/
theorem descending_accounts_answered :
    parseSoql (js "SELECT Id FROM Account ORDER BY Id DESC") = .ok descendingAccounts ∧
      ∃ result, executeQuery plainEngine mergeSorter descendingAccounts
          [oddAccount (js "001A"), oddAccount (js "001B")] 200 = .ok result ∧
        Answers plainEngine descendingAccounts [oddAccount (js "001A"), oddAccount (js "001B")] 200
          result := by
  have hparsed : parseSoql (js "SELECT Id FROM Account ORDER BY Id DESC") =
      .ok descendingAccounts := rfl
  obtain ⟨hreturns, hanswers⟩ := executeQuery_page plainEngine Policy.plainEngine_localePreorder mergeSorter
    (js "SELECT Id FROM Account ORDER BY Id DESC") descendingAccounts hparsed
    [oddAccount (js "001A"), oddAccount (js "001B")] 200
  have hconverts : Converts plainEngine descendingAccounts
      [oddAccount (js "001A"), oddAccount (js "001B")] := by
    refine ⟨fun _ _ _ hcondition => absurd hcondition List.not_mem_nil, ?_⟩
    rintro order ⟨⟩ - record hrecord
    rcases List.mem_pair.mp (List.mem_filter.mp hrecord).1 with rfl | rfl
    · exact .inr rfl
    · exact .inr rfl
  obtain ⟨result, hresult⟩ := hreturns.mpr hconverts
  exact ⟨hparsed, result, hresult, hanswers result hresult⟩

end McpGateway.Salesforce
