import McpGateway.Audit.Hash
import McpGateway.Js.NumberText
import McpGateway.Lib.HashChain
import McpGateway.Shared.CanonicalLaws

/-!
# The chain binds its rows

The canonical text of a row determines its twelve fields, and a digest of 64
hexadecimal units in front of it leaves no doubt where the row starts. So the
audit log is a hash chain whose last digest binds every row before it.
-/

namespace McpGateway.Audit

open Js Shared Outcome

-- ---------------------------------------------------------------------------
-- The text of a row
-- ---------------------------------------------------------------------------

def nullableJson : Option JsString → Json
  | none => .null
  | some s => .string s

def rowProps (ts : JsString) (row : AuditRowInput) : List (JsString × Json) :=
  [(js "actor_token_jti", .string row.actorTokenJti),
    (js "arguments_hash", .string row.argumentsHash),
    (js "decision", .string row.decision.text),
    (js "deny_reason", nullableJson row.denyReason),
    (js "id", .string row.id),
    (js "latency_ms", .number (.finite row.latencyMs.value)),
    (js "mcp_server", .string row.mcpServer),
    (js "tenant_id", .string row.tenantId),
    (js "tool_name", .string row.toolName),
    (js "trace_id", nullableJson row.traceId),
    (js "ts", .string ts),
    (js "user_id", .string row.userId)]

/-- Two rows are one as far as the chain can tell: every hashed field agrees,
the latencies as numbers. -/
structure SameRow (r s : AuditRowInput) : Prop where
  id : r.id = s.id
  ts : r.ts = s.ts
  tenantId : r.tenantId = s.tenantId
  userId : r.userId = s.userId
  actorTokenJti : r.actorTokenJti = s.actorTokenJti
  mcpServer : r.mcpServer = s.mcpServer
  toolName : r.toolName = s.toolName
  argumentsHash : r.argumentsHash = s.argumentsHash
  decision : r.decision = s.decision
  denyReason : r.denyReason = s.denyReason
  latencyMs : r.latencyMs.strictEq s.latencyMs = true
  traceId : r.traceId = s.traceId

def rowKeys : List JsString :=
  [js "actor_token_jti", js "arguments_hash", js "decision", js "deny_reason", js "id",
    js "latency_ms", js "mcp_server", js "tenant_id", js "tool_name", js "trace_id", js "ts",
    js "user_id"]

theorem rowKeys_sorted : rowKeys.Pairwise (· ≤ ·) := by decide

theorem normalForm_nullable (s : Option JsString) :
    normalForm (nullable s) = .ok (some (nullableJson s)) := by
  cases s <;> rfl

section
variable {numberText : ℚ → JsString} (hnum : NumberText numberText)
include hnum

theorem canonicalRow_ok_iff {row : AuditRowInput} {s : JsString} :
    canonicalRow numberText row = .ok s ↔
      ∃ t, row.ts = some t ∧ row.latencyMs.isFinite = true ∧
        Json.stringify numberText (.object (rowProps t.isoString row)) = s := by
  cases hts : row.ts with
  | none => simp [canonicalRow, hts, toISOString]
  | some t =>
    rw [canonicalRow, hts]
    simp only [toISOString, ok_bind, canonicalize_ok_iff hnum, normalForm, normalForm.normalProps,
      normalForm_nullable]
    rw [sortKeys_of_sorted rowKeys_sorted rfl]
    cases hfin : row.latencyMs.isFinite with
    | true => simp [collect, rowProps]
    | false => simp [collect]

end

theorem plain_rowProps (ts : JsString) (row : AuditRowInput) :
    (Json.object (rowProps ts row)).Plain := by
  have hnull (s : Option JsString) : (nullableJson s).Plain := by cases s <;> trivial
  exact ⟨trivial, trivial, trivial, hnull _, trivial, ⟨_, rfl⟩, trivial, trivial, trivial, hnull _,
    trivial, trivial, trivial⟩

theorem Decision.text_injective (h : Decision.text d = Decision.text e) : d = e := by
  cases d <;> cases e <;> first | rfl | exact absurd h (by decide)

theorem nullableJson_injective (h : nullableJson s = nullableJson t) : s = t := by
  cases s <;> cases t <;> cases h <;> rfl

section
variable {numberText : ℚ → JsString} (hnum : NumberText numberText)
include hnum

theorem canonicalRow_injective {r s : AuditRowInput} (hr : canonicalRow numberText r = .ok m)
    (hs : canonicalRow numberText s = .ok m) : SameRow r s := by
  obtain ⟨t, hrt, hrfin, hrm⟩ := (canonicalRow_ok_iff hnum).mp hr
  obtain ⟨u, hsu, hsfin, hsm⟩ := (canonicalRow_ok_iff hnum).mp hs
  have hprops := Json.object.inj (Json.stringify_injective hnum
    (plain_rowProps t.isoString r) (plain_rowProps u.isoString s) (hrm.trans hsm.symm))
  simp only [rowProps, List.cons.injEq, Prod.mk.injEq, Json.string.injEq, Json.number.injEq,
    JsNumber.finite.injEq, true_and, and_true] at hprops
  obtain ⟨hjti, hargs, hdecision, hreason, hid, hlatency, hserver, htenant, htool, htrace, hts,
    huser⟩ := hprops
  exact
    { id := hid
      ts := by rw [hrt, hsu, isoString_injective hts]
      tenantId := htenant
      userId := huser
      actorTokenJti := hjti
      mcpServer := hserver
      toolName := htool
      argumentsHash := hargs
      decision := Decision.text_injective hdecision
      denyReason := nullableJson_injective hreason
      latencyMs := by rw [JsNumber.strictEq_of_finite hrfin hsfin, hlatency, beq_self_eq_true]
      traceId := nullableJson_injective htrace }

end

-- ---------------------------------------------------------------------------
-- The chain
-- ---------------------------------------------------------------------------

def rowText (numberText : ℚ → JsString) (prevHash : JsString) (link : ChainLink) :
    Option JsString :=
  (canonicalRow numberText link.toAuditRowInput).toOption.map (prevHash ++ ·)

def auditChain (numberText : ℚ → JsString) : HashChain.Scheme ChainLink JsString JsString where
  prev := ChainLink.prevHash
  hash := ChainLink.rowHash
  preimage := rowText numberText
  digest := sha256Hex

def IsDigest (d : JsString) : Prop := d.length = 64 ∧ ∀ c ∈ d, isHexUnit c = true

def SameLink (l k : ChainLink) : Prop := SameRow l.toAuditRowInput k.toAuditRowInput

theorem rowText_eq_some {numberText : ℚ → JsString} :
    rowText numberText d l = some m ↔
      ∃ s, canonicalRow numberText l.toAuditRowInput = .ok s ∧ d ++ s = m := by
  rw [rowText]
  cases canonicalRow numberText l.toAuditRowInput <;> simp [Except.toOption]

theorem follows_iff {numberText : ℚ → JsString} :
    HashChain.Follows (auditChain numberText) d l ↔
      l.prevHash = d ∧
        ∃ s, canonicalRow numberText l.toAuditRowInput = .ok s ∧ sha256Hex (d ++ s) = l.rowHash := by
  constructor
  · rintro ⟨hprev, m, hm, hd⟩
    obtain ⟨s, hs, rfl⟩ := rowText_eq_some.mp hm
    exact ⟨hprev, s, hs, hd⟩
  · rintro ⟨hprev, s, hs, hd⟩
    exact ⟨hprev, d ++ s, rowText_eq_some.mpr ⟨s, hs, rfl⟩, hd⟩

theorem isDigest_sha256Hex (input : JsString) : IsDigest (sha256Hex input) :=
  ⟨sha256Hex_length input, fun _ => isHexUnit_of_mem_sha256Hex⟩

theorem genesisText_ne (hd : IsDigest d) (s : JsString) : d ++ s ≠ genesisText tenantId := by
  intro h
  cases d with
  | nil => cases hd.1
  | cons c d =>
    have hc := hd.2 c List.mem_cons_self
    rw [(List.cons.inj h).1] at hc
    exact absurd hc (by decide)

theorem genesisText_injective (h : genesisText t = genesisText u) : t = u :=
  List.append_cancel_left h

theorem separated_auditChain {numberText : ℚ → JsString} (hnum : NumberText numberText)
    (tenantId : JsString) :
    HashChain.Separated (auditChain numberText) (genesisText tenantId) SameLink IsDigest where
  digest := isDigest_sha256Hex
  origin d l hd h := by
    obtain ⟨s, -, hs⟩ := rowText_eq_some.mp h
    exact genesisText_ne hd s hs
  text d e l k m hd he hl hk := by
    obtain ⟨s, hs, hsm⟩ := rowText_eq_some.mp hl
    obtain ⟨t, ht, htm⟩ := rowText_eq_some.mp hk
    obtain ⟨hde, hst⟩ := List.append_inj (hsm.trans htm.symm) (hd.1.trans he.1.symm)
    exact ⟨hde, canonicalRow_injective hnum hs (hst ▸ ht)⟩

-- ---------------------------------------------------------------------------
-- What the verifier establishes
-- ---------------------------------------------------------------------------

section
variable {numberText : ℚ → JsString}

theorem verifyLink_none_iff {link : ChainLink} :
    verifyLink numberText link expected = .ok none ↔
      HashChain.Follows (auditChain numberText) expected link := by
  by_cases hprev : link.prevHash = expected
  · subst hprev
    simp only [verifyLink, computeRowHash, ne_eq, not_true_eq_false, ↓reduceIte]
    cases hrow : canonicalRow numberText link.toAuditRowInput with
    | error e =>
      simp [HashChain.Follows, auditChain, rowText, hrow, bind, Except.bind, Except.toOption]
    | ok s =>
      simp [HashChain.Follows, auditChain, rowText, hrow, bind, Except.bind, Except.toOption, pure,
        Except.pure]
  · simp [verifyLink, hprev, HashChain.Follows, auditChain]

theorem verifyFrom_of_chained (h : HashChain.Chained (auditChain numberText) expected links) :
    verifyFrom numberText expected checked links =
      .ok { valid := true, checked := checked + links.length, firstBreak := none } := by
  induction links generalizing expected checked with
  | nil => rfl
  | cons link links ih =>
    rw [verifyFrom, verifyLink_none_iff.mpr h.1, ok_bind]
    refine (ih h.2).trans ?_
    rw [List.length_cons, Nat.add_assoc, Nat.add_comm 1]

theorem chained_of_verifyFrom (h : verifyFrom numberText expected checked links = .ok r)
    (hvalid : r.valid = true) : HashChain.Chained (auditChain numberText) expected links := by
  induction links generalizing expected checked with
  | nil => trivial
  | cons link links ih =>
    obtain ⟨failure, hlink, hrest⟩ := bind_eq_ok.mp h
    cases failure with
    | some failure =>
      cases hrest
      cases hvalid
    | none => exact ⟨verifyLink_none_iff.mp hlink, ih hrest⟩

/-- `verifyChain` returned and found the chain valid. -/
def Valid (numberText : ℚ → JsString) (tenantId : JsString) (links : List ChainLink) : Prop :=
  ∃ r, verifyChain numberText tenantId links = .ok r ∧ r.valid = true

theorem valid_iff : Valid numberText tenantId links ↔
    HashChain.Chained (auditChain numberText) (genesisHash tenantId) links :=
  ⟨fun ⟨_, hr, hvalid⟩ => chained_of_verifyFrom hr hvalid,
    fun h => ⟨_, verifyFrom_of_chained h, rfl⟩⟩

end

/-- The head a list of links ends at: the last `rowHash`, or the genesis hash of
the empty list. -/
def headHash (tenantId : JsString) (links : List ChainLink) : JsString :=
  (links.getLast?.map (·.rowHash)).getD (genesisHash tenantId)

theorem last_eq_getLast (d : JsString) (links : List ChainLink) :
    HashChain.last (auditChain numberText) d links = (links.getLast?.map (·.rowHash)).getD d := by
  cases links using List.reverseRecOn with
  | nil => rfl
  | append_singleton links link =>
    rw [HashChain.last_concat, List.getLast?_concat]
    rfl

/-- The strings hashed in a walk: the tenant's genesis text, then for each link
its `prevHash` followed by its canonical row. -/
def walkTexts (numberText : ℚ → JsString) (tenantId : JsString) (links : List ChainLink) :
    List JsString :=
  genesisText tenantId ::
    links.filterMap fun link => rowText numberText link.prevHash link

/-- Two different strings of the list have one SHA-256 digest. -/
def DigestCollision (texts : List JsString) : Prop :=
  ∃ m ∈ texts, ∃ n ∈ texts, m ≠ n ∧ sha256Hex m = sha256Hex n

/-- Two links agree on the twelve hashed fields, `prevHash` and `rowHash`. -/
structure AgreeOn (l k : ChainLink) : Prop where
  row : SameRow l.toAuditRowInput k.toAuditRowInput
  prevHash : l.prevHash = k.prevHash
  rowHash : l.rowHash = k.rowHash

/-- The hash chain is binding, within a tenant and across tenants. -/
theorem chain_binding (numberText : ℚ → JsString) (hnum : NumberText numberText) :
    (∀ tenantId A B, Valid numberText tenantId A → Valid numberText tenantId B →
      headHash tenantId A = headHash tenantId B →
        (A.length = B.length ∧
          ∀ i (hA : i < A.length) (hB : i < B.length), AgreeOn A[i] B[i]) ∨
        DigestCollision (walkTexts numberText tenantId A ++ walkTexts numberText tenantId B)) ∧
    (∀ tenantId tenantId' A, tenantId ≠ tenantId' → A ≠ [] → Valid numberText tenantId A →
      Valid numberText tenantId' A →
        DigestCollision (walkTexts numberText tenantId A ++ walkTexts numberText tenantId' A)) := by
  constructor
  · intro tenantId A B hA hB hhead
    have hlast : HashChain.last (auditChain numberText) (genesisHash tenantId) A =
        HashChain.last (auditChain numberText) (genesisHash tenantId) B := by
      rw [last_eq_getLast, last_eq_getLast]
      exact hhead
    obtain hagree | hcoll := HashChain.binding (separated_auditChain hnum tenantId)
      (valid_iff.mp hA) (valid_iff.mp hB) hlast
    · refine .inl ⟨hagree.length_eq, fun i hi hi' => ?_⟩
      obtain ⟨hrow, hprev, hhash⟩ := (List.forall₂_iff_get.mp hagree).2 i hi hi'
      exact ⟨hrow, hprev, hhash⟩
    · exact .inr hcoll
  · intro tenantId tenantId' A hne hnil hA hA'
    obtain ⟨l, ls, rfl⟩ := List.exists_cons_of_ne_nil hnil
    exact HashChain.collision_of_origins (fun h => hne (genesisText_injective h))
      (valid_iff.mp hA) (valid_iff.mp hA')

def sampleRow (latencyMs : JsNumber) : AuditRowInput where
  id := js "1"
  ts := some ⟨0, epoch_inRange⟩
  tenantId := js "acme"
  userId := js "u"
  actorTokenJti := js "t"
  mcpServer := js "postgres"
  toolName := js "pg.query"
  argumentsHash := sha256Hex (js "\x7b\x7d")
  decision := .allow
  denyReason := none
  latencyMs
  traceId := none

def sampleText : JsString :=
  Json.stringify fractionText
    (.object (rowProps (TimeValue.isoString ⟨0, by decide⟩) (sampleRow (.finite 0))))

def sampleLink (latencyMs : JsNumber) : ChainLink :=
  { sampleRow latencyMs with
    prevHash := genesisHash (js "acme")
    rowHash := sha256Hex (genesisHash (js "acme") ++ sampleText) }

theorem sampleLink_valid (h : latencyMs.isFinite = true) (hzero : latencyMs.value = 0) :
    Valid fractionText (js "acme") [sampleLink latencyMs] := by
  have htext : canonicalRow fractionText (sampleRow latencyMs) = .ok sampleText := by
    refine (canonicalRow_ok_iff numberText_fractionText).mpr ⟨⟨0, by decide⟩, rfl, h, ?_⟩
    have hprops : rowProps (TimeValue.isoString ⟨0, by decide⟩) (sampleRow latencyMs) =
        rowProps (TimeValue.isoString ⟨0, by decide⟩) (sampleRow (.finite 0)) := by
      simp only [rowProps, sampleRow, hzero]
      rfl
    rw [hprops, sampleText]
  exact valid_iff.mpr ⟨follows_iff.mpr ⟨rfl, sampleText, htext, rfl⟩, trivial⟩

/-- Two chains of one link that differ only in the sign of a zero. -/
theorem chain_binding_zero :
    ([sampleLink (.finite 0)].length = [sampleLink .negZero].length ∧
      ∀ i (_hA : i < [sampleLink (.finite 0)].length) (_hB : i < [sampleLink .negZero].length),
        AgreeOn [sampleLink (.finite 0)][i] [sampleLink .negZero][i]) ∨
    DigestCollision (walkTexts fractionText (js "acme") [sampleLink (.finite 0)] ++
      walkTexts fractionText (js "acme") [sampleLink .negZero]) :=
  (chain_binding fractionText numberText_fractionText).1 (js "acme") [sampleLink (.finite 0)]
    [sampleLink .negZero] (sampleLink_valid rfl rfl) (sampleLink_valid rfl rfl) rfl

end McpGateway.Audit
