import McpGateway.Audit.Writer
import McpGateway.Js.Compare

/-!
# The verifier

A walk over one tenant's chain reads the rows in pages, each by one statement,
and then the recorded head by another. Every statement sees the rows committed
when it starts; the walk between two statements is a state of its own.
-/

namespace McpGateway.Audit

open Js Shared

structure ChainVerificationResult where
  tenantId : JsString
  valid : Bool
  rowsChecked : Nat
  firstBreak : Option VerificationBreak
  headHash : JsString
  recordedHeadHash : Option JsString
  deriving DecidableEq

inductive VerifierError
  | js (e : JsError)
  /-- The statement was refused. -/
  | database
  deriving DecidableEq

structure Walk where
  expected : JsString
  afterSeq : JsNumber := .finite 0
  rowsChecked : Nat := 0
  firstBreak : Option VerificationBreak := none
  lastSeq : JsNumber := .finite (-1)
  deriving DecidableEq

def Walk.start (tenantId : JsString) : Walk := { expected := genesisHash tenantId }

inductive Verification
  | page (walk : Walk)
  | head (walk : Walk)
  | done (outcome : Except VerifierError ChainVerificationResult)

def compareHead (tenantId : JsString) (rowsChecked : Nat) (firstBreak : Option VerificationBreak)
    (expected : JsString) (recordedHeadHash : Option JsString) : ChainVerificationResult :=
  let truncated := firstBreak.isNone && recordedHeadHash.any (· != expected)
  { tenantId
    valid := firstBreak.isNone && !truncated
    rowsChecked
    firstBreak :=
      if truncated then
        some
          { seq := none, id := js "(chain tail)", tenantId, reason := .prevHashMismatch
            expected := recordedHeadHash.getD [], actual := expected }
      else firstBreak
    headHash := expected
    recordedHeadHash }

/-- `SELECT prev_hash FROM audit_chain_heads WHERE tenant_id = …`. -/
def Db.recordedHead (db : Db) (tenantId : JsString) : Option JsString :=
  (db.heads tenantId).map (trim ·.prevHash)

section
variable (numberText : ℚ → JsString) (tenantId : JsString)

def Walk.checkRow (walk : Walk) (link : ChainLink) : Except JsError Walk := do
  let seq := link.seq.getD (.finite 0)
  if seq.lessEq walk.lastSeq then
    return { walk with
      firstBreak := some
        { seq := some seq, id := link.id, tenantId, reason := .orderingViolation
          expected := js "> " ++ numberString numberText walk.lastSeq
          actual := numberString numberText seq } }
  let walk := { walk with lastSeq := seq }
  match ← verifyLink numberText link walk.expected with
  | some failure => return { walk with firstBreak := some failure }
  | none =>
    return { walk with
      expected := link.rowHash, rowsChecked := walk.rowsChecked + 1, afterSeq := seq }

def Walk.checkRows (walk : Walk) : List ChainLink → Except JsError Walk
  | [] => .ok walk
  | link :: links => do
    let walk ← walk.checkRow numberText tenantId link
    if walk.firstBreak.isSome then return walk
    walk.checkRows links

/-- `SELECT … WHERE tenant_id = … AND seq > … ORDER BY seq ASC LIMIT …`: `none`
when the text of the bound is not a `bigint`. -/
def Db.selectPage (db : Db) (batchSize : Nat) (afterSeq : JsNumber) : Option (List AuditEvent) :=
  (parseBigint (numberString numberText afterSeq)).map fun bound =>
    (orderBySeq ((db.tenantRows tenantId).filter (bound < ·.seq))).take batchSize

def Verification.step (batchSize : Nat) (db : Db) : Verification → Verification
  | .page walk =>
    match db.selectPage numberText tenantId batchSize walk.afterSeq with
    | none => .done (.error .database)
    | some [] => .head walk
    | some rows =>
      match walk.checkRows numberText tenantId (rows.map toLink) with
      | .error e => .done (.error (.js e))
      | .ok walk =>
        if walk.firstBreak.isSome ∨ rows.length < batchSize then .head walk else .page walk
  | .head walk =>
    .done <| .ok <| compareHead tenantId walk.rowsChecked walk.firstBreak walk.expected
      (db.recordedHead tenantId)
  | .done outcome => .done outcome

def Verification.finish (batchSize : Nat) (db : Db) :
    Nat → Verification → Option (Except VerifierError ChainVerificationResult)
  | _, .done outcome => some outcome
  | 0, _ => none
  | fuel + 1, v => (v.step numberText tenantId batchSize db).finish batchSize db fuel

/-- `verifyTenantChain`. There is at most one page for each row, an empty page
and the head. -/
def verifyTenantChain (batchSize : Nat) (db : Db) :
    Option (Except VerifierError ChainVerificationResult) :=
  (Verification.page (Walk.start tenantId)).finish numberText tenantId batchSize db
    ((db.tenantRows tenantId).length + 2)

end

/-- `SELECT DISTINCT tenant_id … ORDER BY tenant_id`. -/
def Db.tenants (db : Db) : List JsString :=
  (db.rows.map (·.tenantId)).dedup.insertionSort fun s t => s ≤ t

/-- One tenant after another; the first one that throws ends it. -/
def verifyTenants (numberText : ℚ → JsString) (batchSize : Nat) (db : Db) :
    List JsString → Option (Except VerifierError (List ChainVerificationResult))
  | [] => some (.ok [])
  | tenantId :: tenants =>
    match verifyTenantChain numberText tenantId batchSize db with
    | none => none
    | some (.error e) => some (.error e)
    | some (.ok result) =>
      (verifyTenants numberText batchSize db tenants).map fun rest => rest.map (result :: ·)

def verifyAllChains (numberText : ℚ → JsString) (batchSize : Nat) (db : Db) :
    Option (Except VerifierError (List ChainVerificationResult)) :=
  verifyTenants numberText batchSize db db.tenants

-- ---------------------------------------------------------------------------
-- What the paged walk stands for
-- ---------------------------------------------------------------------------

/-- The links of a tenant by ascending `seq`, all at once. -/
def Db.orderedLinks (db : Db) (tenantId : JsString) : List ChainLink :=
  (orderBySeq (db.tenantRows tenantId)).map toLink

/-- `verifyChain` over all rows of a tenant, and the comparison of where it ends
with the recorded head. -/
def verifyWhole (numberText : ℚ → JsString) (tenantId : JsString) (db : Db) :
    Except JsError ChainVerificationResult := do
  let links := db.orderedLinks tenantId
  let check ← verifyChain numberText tenantId links
  return compareHead tenantId check.checked check.firstBreak
    (headHash tenantId (links.take check.checked)) (db.recordedHead tenantId)

end McpGateway.Audit
