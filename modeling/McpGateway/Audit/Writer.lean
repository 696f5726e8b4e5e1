import McpGateway.Audit.Events
import McpGateway.Js.Jsonb
import McpGateway.Lib.Transition
import Mathlib.Logic.Function.Basic

/-!
# The audit writer

An append runs in one transaction, statement by statement: create the tenant's
head, lock it, insert the row, advance the head, store the payload, commit. Any
number of transactions take their statements in any order, and each may abort
before any of them. The database is the part of PostgreSQL these statements use:
committed tables, the lock on each tenant's head with the version its holder
will commit, and a sequence that is never rolled back.
-/

namespace McpGateway.Audit

open Js Shared

structure AppendAuditInput where
  tenantId : JsString
  userId : JsString
  actorTokenJti : JsString
  mcpServer : JsString
  toolName : JsString
  /-- The raw tool arguments, as they were parsed. -/
  arguments : Json
  decision : Decision
  denyReason : Option JsString := none
  latencyMs : JsNumber
  traceId : Option JsString := none
  occurredAt : Option Date := none
  /-- Overrides the writer's default for this one row. -/
  capturePayload : Option Bool := none

def ofJson : Json → CanonicalValue
  | .null => .null
  | .boolean b => .boolean b
  | .number n => .number n
  | .string s => .string s
  | .array items => .array (ofItems items)
  | .object props => .object (ofProps props)
where
  ofItems : List Json → List CanonicalValue
    | [] => []
    | v :: vs => ofJson v :: ofItems vs
  ofProps : List (JsString × Json) → List (JsString × CanonicalValue)
    | [] => []
    | (key, v) :: ps => (key, ofJson v) :: ofProps ps

/-- `Math.round`: the nearest integer, a half rounded up. -/
def mathRound : JsNumber → JsNumber
  | .finite q =>
    let r := (q + 1 / 2).floor
    if r = 0 ∧ q < 0 then .negZero else .finite r
  | n => n

/-- `Math.max(0, n)`. -/
def atLeastZero : JsNumber → JsNumber
  | .nan => .nan
  | .infinity false => .infinity false
  | n => .finite (max 0 n.value)

/-- One call of `append`: what the caller passes, the id and the time the call
draws, and the writer's default for capture. -/
structure AppendCall where
  input : AppendAuditInput
  newId : JsString
  now : Date
  capturePayloads : Bool := false

def AppendCall.rowOf (call : AppendCall) (argumentsHash : JsString) : AuditRowInput :=
  let input := call.input
  { id := call.newId, ts := input.occurredAt.getD call.now, tenantId := input.tenantId
    userId := input.userId, actorTokenJti := input.actorTokenJti, mcpServer := input.mcpServer
    toolName := input.toolName, argumentsHash, decision := input.decision
    denyReason := input.denyReason, latencyMs := atLeastZero (mathRound input.latencyMs)
    traceId := input.traceId }

def AppendCall.captures (call : AppendCall) : Bool :=
  call.input.capturePayload.getD call.capturePayloads

section
variable (numberText : ℚ → JsString)

def AppendCall.row (call : AppendCall) : Except JsError AuditRowInput := do
  let argumentsHash ← sha256Canonical numberText (ofJson call.input.arguments)
  return call.rowOf argumentsHash

/-- `JSON.stringify(input.arguments)` when the payload is captured. -/
def AppendCall.payload (call : AppendCall) : Option JsString :=
  if call.captures then
    some (Json.stringify numberText call.input.arguments)
  else none

end

-- ---------------------------------------------------------------------------
-- The database
-- ---------------------------------------------------------------------------

inductive Phase
  | createHead
  | selectHead
  | insertEvent (prevHash : JsString)
  | updateHead (event : AuditEvent)
  | insertPayload (event : AuditEvent)
  | commit (event : AuditEvent)
  deriving DecidableEq

structure Txn where
  row : AuditRowInput
  payload : Option JsString
  phase : Phase
  /-- Its version of the tenant's head, while it holds the lock on it. -/
  head : Option ChainHead

def Txn.tenantId (txn : Txn) : JsString := txn.row.tenantId

def Txn.event? (txn : Txn) : Option AuditEvent :=
  match txn.phase with
  | .updateHead e | .insertPayload e | .commit e => some e
  | _ => none

abbrev TxnId := Nat

structure Db where
  rows : List AuditEvent
  heads : JsString → Option ChainHead
  payloads : List AuditPayload
  /-- Who holds the lock on a tenant's head, or its uncommitted insert. -/
  lock : JsString → Option TxnId
  txns : TxnId → Option Txn
  nextSeq : ℤ

def Db.empty : Db where
  rows := []
  heads _ := none
  payloads := []
  lock _ := none
  txns _ := none
  nextSeq := 1

/-- The transaction `i` goes on as `txn`. -/
def Db.setTxn (db : Db) (i : TxnId) (txn : Option Txn) : Db :=
  { db with txns := Function.update db.txns i txn }

def Db.setLock (db : Db) (tenantId : JsString) (holder : Option TxnId) : Db :=
  { db with lock := Function.update db.lock tenantId holder }

/-- Release what `i` holds and forget it. -/
def Db.finish (db : Db) (i : TxnId) (txn : Txn) : Db :=
  let db := if txn.head.isSome then db.setLock txn.tenantId none else db
  db.setTxn i none

/-- A statement of `i` that locks the tenant's head, if there is one to lock:
`none` while another transaction holds it. -/
def Db.lockHead (db : Db) (i : TxnId) (txn : Txn) : Option (Db × Txn) :=
  if txn.head.isSome then some (db, txn)
  else
    match db.heads txn.tenantId with
    | none => some (db, txn)
    | some head =>
      if db.lock txn.tenantId = none then
        some (db.setLock txn.tenantId (some i), { txn with head := some head })
      else none

inductive Action
  | start (i : TxnId) (call : AppendCall)
  | statement (i : TxnId)
  | abort (i : TxnId)
  /-- The sequence is drawn from by an insert that fails. -/
  | drawSeq

section
variable (numberText : ℚ → JsString)

/-- `INSERT INTO audit_chain_heads … ON CONFLICT DO NOTHING`. -/
def Db.createHead (db : Db) (i : TxnId) (txn : Txn) : Option Db :=
  match db.heads txn.tenantId with
  | some _ => some (db.setTxn i (some { txn with phase := .selectHead }))
  | none =>
    -- an uncommitted insert of the same key is waited for
    if db.lock txn.tenantId = none then
      let head := { prevHash := genesisHash txn.tenantId, length := 0 }
      some ((db.setLock txn.tenantId (some i)).setTxn i
        (some { txn with phase := .selectHead, head := some head }))
    else none

/-- `SELECT prev_hash, length … FOR UPDATE`. -/
def Db.selectHead (db : Db) (i : TxnId) (txn : Txn) : Option Db := do
  let (db, txn) ← db.lockHead i txn
  let prevHash := (txn.head.map (·.prevHash)).getD (genesisHash txn.tenantId)
  return db.setTxn i (some { txn with phase := .insertEvent prevHash })

/-- `INSERT INTO audit_events … RETURNING seq`; the primary key is free. -/
def Db.insertEvent (db : Db) (i : TxnId) (txn : Txn) (prevHash : JsString) : Option Db := do
  let rowHash ← (computeRowHash numberText prevHash txn.row).toOption
  let event ← insertedEvent txn.row prevHash rowHash db.nextSeq
  if db.rows.all (·.id != event.id) then
    return { db with nextSeq := db.nextSeq + 1 }.setTxn i
      (some { txn with phase := .updateHead event })
  else none

/-- `UPDATE audit_chain_heads SET prev_hash = …, length = length + 1`. -/
def Db.updateHead (db : Db) (i : TxnId) (txn : Txn) (event : AuditEvent) : Option Db := do
  let (db, txn) ← db.lockHead i txn
  let head := txn.head.map fun h => { prevHash := event.rowHash, length := h.length + 1 }
  let phase := if txn.payload.isSome then .insertPayload event else .commit event
  return db.setTxn i (some { txn with phase, head })

/-- `INSERT INTO audit_payloads … ::jsonb`. -/
def Db.insertPayload (db : Db) (i : TxnId) (txn : Txn) (event : AuditEvent) : Option Db :=
  if txn.payload.all jsonbAccepts then
    some (db.setTxn i (some { txn with phase := .commit event }))
  else none

def Db.commit (db : Db) (i : TxnId) (txn : Txn) (event : AuditEvent) : Option Db :=
  if db.rows.all (·.id != event.id) then
    let heads := match txn.head with
      | some head => Function.update db.heads txn.tenantId (some head)
      | none => db.heads
    let payloads := txn.payload.toList.map fun payload =>
      { eventId := event.id, tenantId := event.tenantId, payload : AuditPayload }
    some ({ db with rows := db.rows ++ [event], heads
                    payloads := db.payloads ++ payloads }.finish i txn)
  else none

/-- The next statement of the transaction `i`. -/
def Db.statement (db : Db) (i : TxnId) (txn : Txn) : Option Db :=
  match txn.phase with
  | .createHead => db.createHead i txn
  | .selectHead => db.selectHead i txn
  | .insertEvent prevHash => db.insertEvent numberText i txn prevHash
  | .updateHead event => db.updateHead i txn event
  | .insertPayload event => db.insertPayload i txn event
  | .commit event => db.commit i txn event

def Db.step (db : Db) : Action → Option Db
  | .start i call => do
    let row ← (call.row numberText).toOption
    if (db.txns i).isNone then
      let txn := { row, payload := call.payload numberText, phase := .createHead, head := none }
      return db.setTxn i (some txn)
    else none
  | .statement i => (db.txns i).bind (db.statement numberText i)
  | .abort i => (db.txns i).map (db.finish i)
  | .drawSeq => some { db with nextSeq := db.nextSeq + 1 }

end

def Db.tenantRows (db : Db) (tenantId : JsString) : List AuditEvent :=
  db.rows.filter (·.tenantId == tenantId)

/-- `ORDER BY seq ASC`. -/
def orderBySeq (rows : List AuditEvent) : List AuditEvent :=
  rows.insertionSort fun e f => e.seq ≤ f.seq

/-- An ordinary call of the tenant `acme`. -/
def sampleCall (arguments : Json) (newId : JsString) : AppendCall where
  input :=
    { tenantId := js "acme", userId := js "u", actorTokenJti := js "t", mcpServer := js "postgres"
      toolName := js "pg.query", arguments, decision := .allow, latencyMs := .finite 3 }
  newId
  now := some ⟨0, epoch_inRange⟩

def appendOnce : List Action :=
  [.start 0 (sampleCall (.object []) (js "a")), .statement 0, .statement 0, .statement 0,
    .statement 0, .statement 0]

end McpGateway.Audit
