import McpGateway.Lib.Words
import McpGateway.RateLimit.ConfigStore

/-!
# The row a limit is read from

A row of `rate_limit_configs` is told by its tenant, scope type, tool and tier. The
index joins the four to one text, and rows with different fields can have the
same one. Which row is applied is compared here with the documented one, in
which the fields are compared one by one.
-/

namespace McpGateway.RateLimit

open Js Words

/-- What a row is unique in. -/
structure RowKey where
  tenantId : JsString
  scopeType : ScopeType
  toolName : JsString
  tier : JsString
  deriving DecidableEq, Repr

def RowKey.text (k : RowKey) : JsString := indexKey k.tenantId k.scopeType.text k.toolName k.tier

structure RowLimits where
  capacity : Nat
  refillTokens : Nat
  refillIntervalMs : Nat
  deriving DecidableEq, Repr

def RowKey.record (limits : RowKey → RowLimits) (k : RowKey) : RateLimitConfigRecord where
  tenantId := k.tenantId
  scopeType := k.scopeType
  toolName := k.toolName
  tier := k.tier
  capacity := (limits k).capacity
  refillTokens := (limits k).refillTokens
  refillIntervalMs := (limits k).refillIntervalMs

def RowKey.config (limits : RowKey → RowLimits) (k : RowKey) : BucketConfig :=
  ⟨(limits k).capacity, (limits k).refillTokens, (limits k).refillIntervalMs, some k.tier⟩

-- ---------------------------------------------------------------------------
-- The documented resolution
-- ---------------------------------------------------------------------------

/-- Exact tool at the requested tier, exact tool at the default tier, and the same for
the wildcard. -/
def userToolRows (tenantId toolName tier : JsString) : List RowKey :=
  [⟨tenantId, .userTool, toolName, tier⟩, ⟨tenantId, .userTool, toolName, js "default"⟩,
    ⟨tenantId, .userTool, js "*", tier⟩, ⟨tenantId, .userTool, js "*", js "default"⟩]

def tenantRows (tenantId tier : JsString) : List RowKey :=
  [⟨tenantId, .tenant, js "*", tier⟩, ⟨tenantId, .tenant, js "*", js "default"⟩]

/-- The first of the rows that the table has. -/
def documentedRow (rows candidates : List RowKey) : Option RowKey :=
  candidates.find? fun k => decide (k ∈ rows)

def documented (limits : RowKey → RowLimits) (rows : List RowKey) (fallback : ResolvedLimits)
    (tenantId toolName tier : JsString) : ResolvedLimits where
  tenant := ((documentedRow rows (tenantRows tenantId tier)).map (RowKey.config limits)).getD
    fallback.tenant
  userTool := ((documentedRow rows (userToolRows tenantId toolName tier)).map
    (RowKey.config limits)).getD fallback.userTool

-- ---------------------------------------------------------------------------
-- The row the index has
-- ---------------------------------------------------------------------------

def rowWith (rows : List RowKey) (text : JsString) : Option RowKey :=
  rows.reverse.find? fun r => decide (r.text = text)

/-- The row that is applied. -/
def appliedRow (rows candidates : List RowKey) : Option RowKey :=
  candidates.findSome? fun k => rowWith rows k.text

-- ---------------------------------------------------------------------------
-- Rows with the text of another one
-- ---------------------------------------------------------------------------

structure Collides (rows : List RowKey) (k r : RowKey) : Prop where
  mem : r ∈ rows
  ne : r ≠ k
  text : r.text = k.text

def LoadedAfter (rows : List RowKey) (d r : RowKey) : Prop :=
  ∃ earlier later, rows = earlier ++ d :: later ∧ d ∉ later ∧ r ∈ later

/-- A row that collides with a candidate, where no row is tried before it, does no
harm: it has the text of the documented row and is replaced by it, or that row is
found under the text of an earlier candidate. -/
def NotMistaken (rows candidates : List RowKey) : Prop :=
  ∀ tried k rest, candidates = tried ++ k :: rest → (∀ c ∈ tried, c ∉ rows) →
    ∀ r, Collides rows k r → ∃ d, documentedRow rows candidates = some d ∧
      ((r.text = d.text ∧ ¬ LoadedAfter rows d r) ∨ ∃ c ∈ tried, c.text = d.text)

section
variable {rows candidates : List RowKey} {limits : RowKey → RowLimits}

theorem indexOf_record (limits : RowKey → RowLimits) (rows : List RowKey) (text : JsString) :
    indexOf (rows.map (RowKey.record limits)) text =
      (rowWith rows text).map (RowKey.record limits) := by
  unfold rowWith
  induction rows using List.reverseRecOn with
  | nil => rfl
  | append_singleton rows r ih =>
    unfold indexOf at ih ⊢
    rw [List.map_append, List.foldl_append, List.map_singleton, List.foldl_cons, List.foldl_nil,
      List.reverse_append, List.reverse_singleton, List.singleton_append, List.find?_cons,
      Function.update_apply, ih]
    have htext : indexKey (r.record limits).tenantId (r.record limits).scopeType.text
        (r.record limits).toolName (r.record limits).tier = r.text := rfl
    rw [htext]
    by_cases h : r.text = text
    · rw [if_pos h.symm, decide_eq_true h]
      rfl
    · rw [if_neg (Ne.symm h), decide_eq_false h]

theorem findSome?_index (limits : RowKey → RowLimits) (rows candidates : List RowKey) :
    (candidates.map RowKey.text).findSome? (indexOf (rows.map (RowKey.record limits))) =
      (appliedRow rows candidates).map (RowKey.record limits) := by
  unfold appliedRow
  induction candidates with
  | nil => rfl
  | cons k candidates ih =>
    rw [List.map_cons, List.findSome?_cons, List.findSome?_cons, indexOf_record]
    cases rowWith rows k.text with
    | some r => rfl
    | none => exact ih

theorem lookup_eq (limits : RowKey → RowLimits) (rows : List RowKey) (tenantId : JsString)
    (scopeType : ScopeType) (toolName tier : JsString) :
    lookup (indexOf (rows.map (RowKey.record limits))) tenantId scopeType toolName tier =
      (appliedRow rows [⟨tenantId, scopeType, toolName, tier⟩,
        ⟨tenantId, scopeType, toolName, js "default"⟩, ⟨tenantId, scopeType, js "*", tier⟩,
        ⟨tenantId, scopeType, js "*", js "default"⟩]).map (RowKey.config limits) := by
  have hfound := findSome?_index limits rows [⟨tenantId, scopeType, toolName, tier⟩,
    ⟨tenantId, scopeType, toolName, js "default"⟩, ⟨tenantId, scopeType, js "*", tier⟩,
    ⟨tenantId, scopeType, js "*", js "default"⟩]
  simp only [List.map_cons, List.map_nil, RowKey.text] at hfound
  unfold lookup
  dsimp only
  rw [hfound, Option.map_map]
  rfl

theorem appliedRow_twice (rows candidates : List RowKey) :
    appliedRow rows (candidates ++ candidates) = appliedRow rows candidates := by
  unfold appliedRow
  rw [List.findSome?_append, Option.or_self]

theorem resolve_eq (limits : RowKey → RowLimits) (rows : List RowKey) (fallback : ResolvedLimits)
    (tenantId toolName tier : JsString) :
    resolve (indexOf (rows.map (RowKey.record limits))) fallback tenantId toolName tier =
      ⟨((appliedRow rows (tenantRows tenantId tier)).map (RowKey.config limits)).getD
          fallback.tenant,
        ((appliedRow rows (userToolRows tenantId toolName tier)).map (RowKey.config limits)).getD
          fallback.userTool⟩ := by
  have htenant := appliedRow_twice rows (tenantRows tenantId tier)
  unfold resolve
  rw [lookup_eq, lookup_eq, ← htenant]
  rfl

-- ---------------------------------------------------------------------------
-- The applied row and the documented one
-- ---------------------------------------------------------------------------

theorem rowWith_eq_some {text : JsString} {r : RowKey} : rowWith rows text = some r ↔
    r.text = text ∧ ∃ earlier later, rows = earlier ++ r :: later ∧ ∀ x ∈ later, x.text ≠ text := by
  unfold rowWith
  rw [List.find?_eq_some_iff_append, decide_eq_true_iff]
  refine and_congr_right fun _ => ⟨?_, ?_⟩
  · rintro ⟨later, earlier, hrows, hlater⟩
    refine ⟨earlier.reverse, later.reverse, ?_, ?_⟩
    · rw [← List.reverse_reverse rows, hrows]
      simp
    · intro x hx
      simpa using hlater x (List.mem_reverse.mp hx)
  · rintro ⟨earlier, later, rfl, hlater⟩
    refine ⟨later.reverse, earlier.reverse, by simp, ?_⟩
    intro x hx
    simpa using hlater x (List.mem_reverse.mp hx)

theorem rowWith_eq_none {text : JsString} :
    rowWith rows text = none ↔ ∀ r ∈ rows, r.text ≠ text := by
  unfold rowWith
  simp

theorem documentedRow_eq_some {d : RowKey} : documentedRow rows candidates = some d ↔
    d ∈ rows ∧ ∃ tried rest, candidates = tried ++ d :: rest ∧ ∀ c ∈ tried, c ∉ rows := by
  unfold documentedRow
  rw [List.find?_eq_some_iff_append]
  simp

theorem documentedRow_eq_none : documentedRow rows candidates = none ↔ ∀ c ∈ candidates, c ∉ rows := by
  unfold documentedRow
  simp

theorem loadedAfter_of_rowWith {d r : RowKey} (hd : d ∈ rows) (hne : r ≠ d)
    (hr : rowWith rows d.text = some r) : LoadedAfter rows d r := by
  obtain ⟨-, earlier, later, hrows, hlater⟩ := rowWith_eq_some.mp hr
  have hnot : d ∉ r :: later := by
    intro h
    rcases List.mem_cons.mp h with rfl | h
    · exact hne rfl
    · exact hlater d h rfl
  have hmem : d ∈ earlier := by
    rw [hrows] at hd
    exact (List.mem_append.mp hd).resolve_right hnot
  obtain ⟨after, before, hsplit, hafter⟩ := List.eq_append_cons_of_mem (List.mem_reverse.mpr hmem)
  have hearlier : earlier = before.reverse ++ d :: after.reverse := by
    rw [← List.reverse_reverse earlier, hsplit]
    simp
  refine ⟨before.reverse, after.reverse ++ r :: later, by rw [hrows, hearlier]; simp, ?_, by simp⟩
  rw [List.mem_append, List.mem_reverse]
  exact fun h => h.elim hafter hnot

theorem not_loadedAfter_of_rowWith {d r : RowKey} (hd : rowWith rows d.text = some d)
    (htext : r.text = d.text) : ¬ LoadedAfter rows d r := by
  rintro ⟨before, after, hrows, hnot, hr⟩
  obtain ⟨-, earlier, later, hrows', hlater⟩ := rowWith_eq_some.mp hd
  have hnot' : d ∉ later := fun h => hlater d h rfl
  obtain ⟨rfl, rfl⟩ := after_sep_inj hnot hnot' (hrows.symm.trans hrows')
  exact hlater r hr htext

theorem notMistaken_of_applied (h : appliedRow rows candidates = documentedRow rows candidates) :
    NotMistaken rows candidates := by
  rintro tried k rest rfl htried r ⟨hr, hne, htext⟩
  have hheld : rowWith rows k.text ≠ none := by
    intro hnone
    exact rowWith_eq_none.mp hnone r hr htext
  cases hd : documentedRow rows (tried ++ k :: rest) with
  | none =>
    rw [hd] at h
    exact absurd (List.findSome?_eq_none_iff.mp h k (by simp)) hheld
  | some d =>
    refine ⟨d, rfl, ?_⟩
    rw [hd, appliedRow, List.findSome?_append] at h
    cases hfound : tried.findSome? fun c => rowWith rows c.text with
    | some x =>
      rw [hfound, Option.some_or] at h
      obtain rfl := Option.some.inj h
      obtain ⟨c, hc, hcx⟩ := List.exists_of_findSome?_eq_some hfound
      exact .inr ⟨c, hc, (rowWith_eq_some.mp hcx).1.symm⟩
    | none =>
      obtain ⟨x, hx⟩ := Option.ne_none_iff_exists'.mp hheld
      rw [hfound, Option.none_or, List.findSome?_cons, hx] at h
      obtain rfl := Option.some.inj h
      have hsame : r.text = x.text := htext.trans (rowWith_eq_some.mp hx).1.symm
      refine .inl ⟨hsame, not_loadedAfter_of_rowWith ?_ hsame⟩
      rwa [← hsame, htext]

theorem applied_of_notMistaken (h : NotMistaken rows candidates) :
    appliedRow rows candidates = documentedRow rows candidates := by
  cases happlied : appliedRow rows candidates with
  | none =>
    rw [eq_comm, documentedRow_eq_none]
    intro c hc hmem
    exact rowWith_eq_none.mp (List.findSome?_eq_none_iff.mp happlied c hc) c hmem rfl
  | some r =>
    obtain ⟨tried, k, rest, rfl, hk, hnone⟩ := List.findSome?_eq_some_iff.mp happlied
    have htried : ∀ c ∈ tried, c ∉ rows := fun c hc hmem =>
      rowWith_eq_none.mp (hnone c hc) c hmem rfl
    obtain ⟨htext, hloaded⟩ := rowWith_eq_some.mp hk
    have hr : r ∈ rows := by
      obtain ⟨earlier, later, rfl, -⟩ := hloaded
      simp
    rw [eq_comm]
    by_cases hrk : r = k
    · subst hrk
      exact documentedRow_eq_some.mpr ⟨hr, tried, rest, rfl, htried⟩
    · obtain ⟨d, hd, hharm⟩ := h tried k rest rfl htried r ⟨hr, hrk, htext⟩
      have hdrows := (documentedRow_eq_some.mp hd).1
      rw [hd]
      rcases hharm with ⟨hsame, hafter⟩ | ⟨c, hc, hcd⟩
      · by_cases hrd : r = d
        · rw [hrd]
        · rw [← htext, hsame] at hk
          exact absurd (loadedAfter_of_rowWith hdrows hrd hk) hafter
      · exact absurd hcd.symm (rowWith_eq_none.mp (hnone c hc) d hdrows)

theorem appliedRow_eq_iff (rows candidates : List RowKey) :
    appliedRow rows candidates = documentedRow rows candidates ↔ NotMistaken rows candidates :=
  ⟨notMistaken_of_applied, applied_of_notMistaken⟩

-- ---------------------------------------------------------------------------
-- Fields without the separator
-- ---------------------------------------------------------------------------

def RowKey.Plain (k : RowKey) : Prop := verticalBar ∉ k.tenantId ∧ verticalBar ∉ k.toolName

instance (k : RowKey) : Decidable k.Plain := inferInstanceAs (Decidable (_ ∧ _))

theorem RowKey.text_eq (k : RowKey) : k.text =
    k.tenantId ++ verticalBar ::
      (k.scopeType.text ++ verticalBar :: (k.toolName ++ verticalBar :: k.tier)) := by
  have hbar : js "|" = [verticalBar] := by decide
  simp [RowKey.text, indexKey, hbar]

theorem ScopeType.verticalBar_not_mem_text (t : ScopeType) : verticalBar ∉ t.text := by
  cases t <;> decide

theorem RowKey.text_inj {k r : RowKey} (hk : k.Plain) (hr : r.Plain) (h : r.text = k.text) :
    r = k := by
  rw [RowKey.text_eq, RowKey.text_eq] at h
  obtain ⟨htenant, h⟩ := before_sep_inj hr.1 hk.1 h
  obtain ⟨hscope, h⟩ := before_sep_inj r.scopeType.verticalBar_not_mem_text
    k.scopeType.verticalBar_not_mem_text h
  obtain ⟨htool, htier⟩ := before_sep_inj hr.2 hk.2 h
  have htype : r.scopeType = k.scopeType := by
    revert hscope
    cases r.scopeType <;> cases k.scopeType <;> decide
  obtain ⟨_, _, _, _⟩ := k
  obtain ⟨_, _, _, _⟩ := r
  simp_all

theorem notMistaken_of_plain (hrows : ∀ r ∈ rows, r.Plain) (hcandidates : ∀ k ∈ candidates, k.Plain) :
    NotMistaken rows candidates := by
  rintro tried k rest rfl - r ⟨hr, hne, htext⟩
  exact absurd (RowKey.text_inj (hcandidates k (by simp)) (hrows r hr) htext) hne

/-- Two rows, or none, give the same limits whatever the limits of the rows are. -/
theorem config_eq_iff (fallback : BucketConfig) (applied documented : Option RowKey) :
    (∀ limits, (applied.map (RowKey.config limits)).getD fallback =
      (documented.map (RowKey.config limits)).getD fallback) ↔ applied = documented := by
  constructor
  · intro hall
    -- limits that tell the documented row, the other ones and the fallback apart
    have hsame := congrArg BucketConfig.capacity (hall fun k =>
      ⟨if documented = some k then fallback.capacity + 2 else fallback.capacity + 1, 0, 0⟩)
    cases applied with
    | none =>
      cases documented with
      | none => rfl
      | some d => simp [RowKey.config] at hsame
    | some r =>
      cases documented with
      | none => simp [RowKey.config] at hsame
      | some d =>
        by_cases h : d = r
        · rw [h]
        · simp [RowKey.config, h] at hsame
  · rintro rfl _
    rfl

end

/-- The limits of a call are those of the documented rows, whatever limits the rows have,
exactly when no row is mistaken for the documented one in either scope. -/
theorem resolution_documented_iff (rows : List RowKey) (fallback : ResolvedLimits)
    (tenantId toolName tier : JsString) :
    (∀ limits, resolve (indexOf (rows.map (RowKey.record limits))) fallback tenantId toolName tier =
        documented limits rows fallback tenantId toolName tier) ↔
      NotMistaken rows (tenantRows tenantId tier) ∧
        NotMistaken rows (userToolRows tenantId toolName tier) := by
  simp only [resolve_eq, documented, ResolvedLimits.mk.injEq, forall_and, config_eq_iff,
    appliedRow_eq_iff]

/-- A tenant's row for one tool is applied to a call of another tenant for another tool. -/
theorem resolution_crosses_tenants :
    ¬ ∀ (rows : List RowKey) (limits : RowKey → RowLimits) (fallback : ResolvedLimits)
      (tenantId toolName tier : JsString), rows.Nodup →
      resolve (indexOf (rows.map (RowKey.record limits))) fallback tenantId toolName tier =
        documented limits rows fallback tenantId toolName tier := by
  intro hclaim
  have hsame := hclaim
    [⟨js "acme", .userTool, js "eu|user_tool|sf.query", js "default"⟩] (fun _ => ⟨1000, 0, 0⟩)
    defaultFallback (js "acme|user_tool|eu") (js "sf.query") (js "default") (List.nodup_singleton _)
  revert hsame
  decide +kernel

end McpGateway.RateLimit
