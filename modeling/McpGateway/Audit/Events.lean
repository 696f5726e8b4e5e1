import McpGateway.Audit.HashLaws

/-!
# The audit tables

The rows of `audit_events` and `audit_chain_heads`, what an append writes into
them and the link the verifier reads back. A column holds what was written to
it: `char(64)` and `text` a string, `timestamptz` microseconds, `integer` and
`bigint` an integer.
-/

namespace McpGateway.Audit

open Js Shared

/-- A `timestamptz`, in microseconds since 1970. -/
structure Timestamptz where
  micros : ℤ
  deriving DecidableEq

/-- The `Date` of the value. The driver is assumed to hand one over, with the digits below
the millisecond dropped. -/
def Timestamptz.date (t : Timestamptz) : Date :=
  if h : -8640000000000000 ≤ t.micros / 1000 ∧ t.micros / 1000 ≤ 8640000000000000 then
    some ⟨t.micros / 1000, h⟩
  else none

structure AuditEvent where
  seq : ℤ
  id : JsString
  ts : Timestamptz
  tenantId : JsString
  userId : JsString
  actorTokenJti : JsString
  mcpServer : JsString
  toolName : JsString
  argumentsHash : JsString
  decision : JsString
  denyReason : Option JsString
  latencyMs : ℤ
  traceId : Option JsString
  prevHash : JsString
  rowHash : JsString
  deriving DecidableEq

/-- A row of `audit_chain_heads`. -/
structure ChainHead where
  prevHash : JsString
  length : ℤ
  deriving DecidableEq

/-- A row of `audit_payloads`. -/
structure AuditPayload where
  eventId : JsString
  tenantId : JsString
  payload : JsString
  deriving DecidableEq

/-- `Number` of an integer column. -/
def numberOf (n : ℤ) : JsNumber := roundToDouble (n < 0) n.natAbs 1

def toLink (raw : AuditEvent) : ChainLink where
  seq := some (numberOf raw.seq)
  id := raw.id
  ts := raw.ts.date
  tenantId := raw.tenantId
  userId := raw.userId
  actorTokenJti := raw.actorTokenJti
  mcpServer := raw.mcpServer
  toolName := raw.toolName
  argumentsHash := trim raw.argumentsHash
  decision := if raw.decision = js "deny" then .deny else .allow
  denyReason := raw.denyReason
  latencyMs := numberOf raw.latencyMs
  traceId := raw.traceId
  prevHash := trim raw.prevHash
  rowHash := trim raw.rowHash

/-- A `text` column takes every string without U+0000. -/
def isText (s : JsString) : Bool := !s.contains 0

/-- The `integer` a number parameter is stored as. -/
def int4? (n : JsNumber) : Option ℤ :=
  if n.isFinite && n.value.den == 1 && -2147483648 ≤ n.value.num && n.value.num ≤ 2147483647 then
    some n.value.num
  else none

/-- The row an append inserts; `none` when a column refuses its value. -/
def insertedEvent (row : AuditRowInput) (prevHash rowHash : JsString) (seq : ℤ) :
    Option AuditEvent := do
  let ts ← row.ts
  let latencyMs ← int4? row.latencyMs
  let texts := [row.tenantId, row.userId, row.actorTokenJti, row.mcpServer, row.toolName] ++
    row.denyReason.toList ++ row.traceId.toList
  if texts.all isText ∧ 0 ≤ latencyMs then
    return { seq, id := row.id, ts := ⟨ts.ms * 1000⟩, tenantId := row.tenantId
             userId := row.userId, actorTokenJti := row.actorTokenJti, mcpServer := row.mcpServer
             toolName := row.toolName, argumentsHash := row.argumentsHash
             decision := row.decision.text, denyReason := row.denyReason, latencyMs
             traceId := row.traceId, prevHash, rowHash }
  else none

-- ---------------------------------------------------------------------------
-- Reading back what was written
-- ---------------------------------------------------------------------------

theorem date_of_ms (t : TimeValue) : Timestamptz.date ⟨t.ms * 1000⟩ = some t := by
  have hdiv : t.ms * 1000 / 1000 = t.ms := Int.mul_ediv_cancel t.ms (by decide)
  simp [Timestamptz.date, hdiv, t.inRange]

theorem numberOf_exact {n : ℤ} (h : n.natAbs ≤ 2 ^ 53) : numberOf n = .finite n := by
  by_cases h0 : n = 0
  · subst h0
    rfl
  rw [numberOf, roundToDouble_integer (by omega) h]
  obtain ⟨k, rfl | rfl⟩ := n.eq_nat_or_neg
  · rw [if_neg (by simp)]
    simp
  · rw [if_pos (by simp; omega)]
    simp

theorem int4?_eq_some {m : JsNumber} (h : int4? m = some n) (hm : m ≠ .negZero) :
    m = .finite n ∧ n.natAbs ≤ 2 ^ 53 := by
  unfold int4? at h
  split at h
  · next hint =>
    cases h
    simp only [Bool.and_eq_true, beq_iff_eq, decide_eq_true_eq] at hint
    obtain ⟨⟨⟨hfin, hden⟩, hlow⟩, hhigh⟩ := hint
    refine ⟨?_, by omega⟩
    cases m with
    | finite q => exact congrArg _ (Rat.ext (by simp [JsNumber.value])
        (by simpa [JsNumber.value] using hden))
    | negZero => exact absurd rfl hm
    | nan => cases hfin
    | infinity _ => cases hfin
  · cases h

theorem isSpace_of_isHexUnit (h : isHexUnit c = true) : isSpace c = false := by
  have hblank : blank.toNat = 0x20 := rfl
  simp [isHexUnit, isDigit, UInt16.le_iff_toNat_le] at h
  simp [isSpace, UInt16.le_iff_toNat_le, ← UInt16.toNat_inj]
  omega

theorem trim_of_forall {s : JsString} (h : ∀ c ∈ s, isSpace c = false) : trim s = s := by
  have hstart : trimStart s = s := by
    cases s with
    | nil => rfl
    | cons c s => simp [trimStart, h c]
  have hend : trimEnd s = s := by
    rw [trimEnd, List.rdropWhile_eq_self_iff]
    intro hne
    simp [h _ (List.getLast_mem hne)]
  rw [trim, hstart, hend]

theorem trim_digest (h : IsDigest d) : trim d = d :=
  trim_of_forall fun c hc => isSpace_of_isHexUnit (h.2 c hc)

/-- What a row must be for its columns to read back as its fields. -/
structure Writable (row : AuditRowInput) : Prop where
  argumentsHash : IsDigest row.argumentsHash
  latencyMs : row.latencyMs ≠ .negZero

theorem insertedEvent_inv (h : insertedEvent row prevHash rowHash seq = some e) :
    ∃ t latencyMs, row.ts = some t ∧ int4? row.latencyMs = some latencyMs ∧
      e = { seq, id := row.id, ts := ⟨t.ms * 1000⟩, tenantId := row.tenantId
            userId := row.userId, actorTokenJti := row.actorTokenJti, mcpServer := row.mcpServer
            toolName := row.toolName, argumentsHash := row.argumentsHash
            decision := row.decision.text, denyReason := row.denyReason, latencyMs
            traceId := row.traceId, prevHash, rowHash } := by
  obtain ⟨t, hts, h⟩ := Option.bind_eq_some_iff.mp h
  obtain ⟨latency, hlatency, h⟩ := Option.bind_eq_some_iff.mp h
  dsimp only at h
  split at h
  · cases h
    exact ⟨t, latency, hts, hlatency, rfl⟩
  · cases h

theorem decision_of_text (d : Decision) :
    (if d.text = js "deny" then Decision.deny else .allow) = d := by
  cases d <;> rfl

theorem toLink_insertedEvent (hrow : Writable row) (hprev : IsDigest prevHash)
    (hhash : IsDigest rowHash) (h : insertedEvent row prevHash rowHash seq = some e) :
    (toLink e).toAuditRowInput = row ∧ (toLink e).prevHash = prevHash ∧
      (toLink e).rowHash = rowHash := by
  obtain ⟨t, latency, hts, hlatency, rfl⟩ := insertedEvent_inv h
  obtain ⟨hvalue, hexact⟩ := int4?_eq_some hlatency hrow.latencyMs
  refine ⟨?_, trim_digest hprev, trim_digest hhash⟩
  cases row
  simp only [toLink, AuditRowInput.mk.injEq, true_and, and_true]
  exact ⟨(date_of_ms t).trans hts.symm, trim_digest hrow.argumentsHash, decision_of_text _,
    (numberOf_exact hexact).trans hvalue.symm⟩

end McpGateway.Audit
