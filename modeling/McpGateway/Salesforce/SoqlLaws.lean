import McpGateway.Lib.Words
import McpGateway.Salesforce.Soql

/-!
# What a query does

The fields of a parsed query are parts of its text. An execution that throws
nothing keeps the records that match, in some order, and prints a page of them.
-/

namespace McpGateway.Salesforce

open Js Shared

-- ---------------------------------------------------------------------------
-- Parts of the query text
-- ---------------------------------------------------------------------------

theorem trim_within (s : JsString) : trim s <:+: s :=
  (List.rdropWhile_prefix isSpace (trimStart s)).isInfix.trans (List.dropWhile_suffix isSpace).isInfix

theorem trimmedQuery_within (query : JsString) : trimmedQuery query <:+: query := by
  refine List.IsInfix.trans ?_ (trim_within query)
  unfold trimmedQuery Regex.removeFirst
  split
  · next start stop hexec =>
    -- the pattern ends where the text does
    obtain ⟨hspot, hstop⟩ := Regex.exec_some hexec
    obtain ⟨m, -, hstop⟩ := Regex.mem_ends_seq.mp hstop
    obtain ⟨m', -, hstop⟩ := Regex.mem_ends_seq.mp hstop
    obtain ⟨hend, rfl⟩ := Regex.mem_ends_finish.mp hstop
    rw [hend, List.append_nil, ← hspot]
    exact (List.prefix_append _ _).isInfix
  · exact List.infix_rfl

theorem mem_of_lookup {κ ν : Type} [BEq κ] [LawfulBEq κ] {entries : List (κ × ν)} {k : κ} {v : ν}
    (h : entries.lookup k = some v) : (k, v) ∈ entries := by
  obtain ⟨before, after, rfl, -⟩ := List.lookup_eq_some_iff.mp h
  exact List.mem_append_right before List.mem_cons_self

theorem parseFields_within {text : JsString} {names : List JsString} {name : JsString}
    (h : parseFields text = .ok (.named names)) (hname : name ∈ names) : name <:+: text := by
  unfold parseFields at h
  dsimp only at h
  split at h
  · cases h
  · split at h
    · cases h
    · split at h
      · cases h
      · cases h
        obtain ⟨piece, hpiece, rfl⟩ := List.mem_map.mp (List.mem_filter.mp hname).1
        exact (trim_within piece).trans ((Words.infix_of_mem_splitOnP hpiece).trans (trim_within text))

theorem queryGroups_ok {query : JsString} {groups : List (Group × JsString)}
    (h : queryGroups query = .ok groups) :
    queryPattern.exec isWordChar (trimmedQuery query) = some groups := by
  unfold queryGroups at h
  dsimp only at h
  split at h
  · cases h
  · split at h
    · cases h
    · split at h
      · next hexec =>
        cases h
        exact hexec
      · cases h

theorem parseSoql_within {query : JsString} {parsed : ParsedQuery} {names : List JsString}
    {name : JsString} (h : parseSoql query = .ok parsed) (hfields : parsed.fields = .named names)
    (hname : name ∈ names) : name <:+: query := by
  unfold parseSoql at h
  obtain ⟨groups, hgroups, h⟩ := Outcome.bind_eq_ok.mp h
  obtain ⟨object, -, h⟩ := Outcome.bind_eq_ok.mp h
  obtain ⟨fields, hparse, h⟩ := Outcome.bind_eq_ok.mp h
  obtain ⟨parsed', -, h⟩ := Outcome.bind_eq_ok.mp h
  cases h
  obtain rfl : fields = .named names := hfields
  cases hlookup : groups.lookup .fields with
  | none =>
    rw [hlookup] at hparse
    exact (parseFields_within hparse hname).trans List.nil_infix
  | some text =>
    rw [hlookup] at hparse
    exact (parseFields_within hparse hname).trans
      ((Pattern.exec_infix (queryGroups_ok hgroups) (mem_of_lookup hlookup)).trans
        (trimmedQuery_within query))

-- ---------------------------------------------------------------------------
-- Execution
-- ---------------------------------------------------------------------------

section
variable {engine : Engine} {sorter : Sorter} {parsed : ParsedQuery} {records : List CrmRecord}

def matching (engine : Engine) (parsed : ParsedQuery) (records : List CrmRecord) :
    List CrmRecord :=
  records.filter fun record => Outcome.holds (matchesQuery engine parsed record)

def comparable (engine : Engine) (order : OrderBy) (record : CrmRecord) : Bool :=
  isNumber (property record.props order.field) ||
    (orderText engine (property record.props order.field)).isSome

structure Runs (engine : Engine) (parsed : ParsedQuery) (records : List CrmRecord) : Prop where
  evaluates : ∀ record ∈ records, Outcome.Returns (matchesQuery engine parsed record)
  sortable : ∀ order, parsed.orderBy = some order →
    (matching engine parsed records).length < 2 ∨
      ∀ record ∈ matching engine parsed records, comparable engine order record = true

theorem orderRecords_ok {order : OrderBy} {sorted : List CrmRecord} :
    orderRecords engine sorter order records = .ok sorted →
      (records.length < 2 ∨ ∀ record ∈ records, comparable engine order record = true) ∧
        sorted.Perm records := by
  unfold orderRecords
  intro h
  dsimp only at h
  split at h
  · cases h
  · next hthrows =>
    cases h
    refine ⟨?_, sorter.perm _ _⟩
    rcases Nat.lt_or_ge records.length 2 with hlt | hle
    · exact .inl hlt
    · refine .inr fun record hrecord => ?_
      by_contra hbad
      refine hthrows ⟨hle, List.any_eq_true.mpr ⟨record, hrecord, ?_⟩⟩
      simpa [comparable] using hbad

theorem orderRecords_returns {order : OrderBy}
    (h : records.length < 2 ∨ ∀ record ∈ records, comparable engine order record = true) :
    Outcome.Returns (orderRecords engine sorter order records) := by
  unfold orderRecords
  dsimp only
  rw [if_neg]
  · exact Outcome.returns_ok _
  · rintro ⟨hle, hany⟩
    rcases h with hlt | hall
    · exact absurd hle (Nat.not_le.mpr hlt)
    · obtain ⟨record, hrecord, hbad⟩ := List.any_eq_true.mp hany
      have hgood := hall record hrecord
      unfold comparable at hgood
      simp_all

theorem executeQuery_ok {result : QueryResult} {limit : Nat}
    (h : executeQuery engine sorter parsed records limit = .ok result) :
    Runs engine parsed records ∧ ∃ sorted : List CrmRecord,
      sorted.Perm (matching engine parsed records) ∧
        result.records = (sorted.take (effectiveLimit parsed.limit limit)).map
          (project parsed.fields) := by
  unfold executeQuery at h
  obtain ⟨matched, hmatched, h⟩ := Outcome.bind_eq_ok.mp h
  obtain ⟨hreturns, rfl⟩ := Outcome.filterExcept_eq_ok.mp hmatched
  obtain ⟨sorted, hsorted, h⟩ := Outcome.bind_eq_ok.mp h
  cases h
  cases horder : parsed.orderBy with
  | none =>
    rw [horder] at hsorted
    cases hsorted
    exact ⟨⟨hreturns, fun order h => by cases horder.symm.trans h⟩, _, List.Perm.refl _, rfl⟩
  | some order =>
    rw [horder] at hsorted
    obtain ⟨hsortable, hperm⟩ := orderRecords_ok hsorted
    refine ⟨⟨hreturns, ?_⟩, sorted, hperm, rfl⟩
    intro order' horder'
    cases horder.symm.trans horder'
    exact hsortable

theorem executeQuery_returns (sorter : Sorter) (h : Runs engine parsed records) (limit : Nat) :
    Outcome.Returns (executeQuery engine sorter parsed records limit) := by
  have hfilter := Outcome.filterExcept_eq_ok.mpr ⟨h.evaluates, rfl⟩
  unfold executeQuery
  rw [hfilter, Outcome.ok_bind]
  cases horder : parsed.orderBy with
  | none => exact Outcome.returns_ok _
  | some order =>
    have hsorted : Outcome.Returns
        (orderRecords engine sorter order (matching engine parsed records)) :=
      orderRecords_returns (h.sortable order horder)
    obtain ⟨sorted, hsorted⟩ := hsorted
    unfold orderMatched
    dsimp only
    unfold matching at hsorted
    rw [hsorted]
    exact Outcome.returns_ok _

end

end McpGateway.Salesforce
