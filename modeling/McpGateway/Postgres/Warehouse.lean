import McpGateway.Idp.Directory
import McpGateway.Lib.DbSession
import McpGateway.Lib.Transition
import McpGateway.Postgres.Guard

/-!
# The warehouse and its pool

Every operation runs in a transaction that first takes on the caller's role, tenant
and territory, on a connection of a pool that all callers share. A step is what one
operation does until its next statement is answered. What a guarded statement does
to the settings and what it returns are left open: any changes, any rows.
-/

namespace McpGateway.Postgres

open Js Shared DbSession
open Idp (Role)

-- ---------------------------------------------------------------------------
-- Tables and policies
-- ---------------------------------------------------------------------------

structure CustomerRow where
  id : ℤ
  tenantId : JsString
  territory : JsString
  deriving DecidableEq, Repr

structure ProductRow where
  id : ℤ
  tenantId : JsString
  deriving DecidableEq, Repr

structure OrderRow where
  id : ℤ
  tenantId : JsString
  territory : JsString
  deriving DecidableEq, Repr

structure OrderItemRow where
  id : ℤ
  orderId : ℤ
  deriving DecidableEq, Repr

structure Tables where
  customers : List CustomerRow
  products : List ProductRow
  orders : List OrderRow
  orderItems : List OrderItemRow
  deriving DecidableEq, Repr

inductive ExposedTable
  | customers
  | products
  | orders
  | orderItems
  deriving DecidableEq, Repr

def ExposedTable.name : ExposedTable → JsString
  | .customers => js "customers"
  | .products => js "products"
  | .orders => js "orders"
  | .orderItems => js "order_items"

/-- `EXPOSED_TABLES`. -/
def exposedTables : List ExposedTable := [.customers, .products, .orders, .orderItems]

/-- The settings a transaction is given; a guarded statement may change any. -/
inductive Setting
  | statementTimeout
  | tenantId
  | territory
  | role
  | other (name : JsString)
  deriving DecidableEq, Repr

/-- `none` is a setting that was never made. -/
abbrev Settings := Setting → Option JsString

def roleToDbRole : Role → JsString
  | .admin => js "app_admin"
  | .manager => js "app_manager"
  | .analyst => js "app_analyst"
  | .viewer => js "app_viewer"

def appRole (role : Option JsString) : Option Role :=
  [Role.admin, .manager, .analyst, .viewer].find? fun r => role == some (roleToDbRole r)

/-- The policies `*_tenant_wide` are for these roles, `*_own_territory` for the others. -/
def tenantWide : Role → Bool
  | .admin | .manager => true
  | .analyst | .viewer => false

/-- `tenant_id = current_setting('app.tenant_id', true)`. -/
def inTenant (settings : Settings) (tenantId : JsString) : Bool :=
  settings .tenantId == some tenantId

/-- The policies of `customers` and `orders`. -/
def inReach (role : Role) (settings : Settings) (tenantId territory : JsString) : Bool :=
  inTenant settings tenantId && (tenantWide role || settings .territory == some territory)

/-- The rows the policies let the role read. A line item is read through its order, and the
policies of `orders` hold in there too. -/
def Tables.readable (tables : Tables) (role : Role) (settings : Settings) : Tables where
  customers := tables.customers.filter fun row => inReach role settings row.tenantId row.territory
  products := tables.products.filter fun row => inTenant settings row.tenantId
  orders := tables.orders.filter fun row => inReach role settings row.tenantId row.territory
  orderItems := tables.orderItems.filter fun item =>
    (tables.orders.filter fun row => inReach role settings row.tenantId row.territory).any
      fun row => row.id == item.orderId

def Tables.count (tables : Tables) : ExposedTable → Nat
  | .customers => tables.customers.length
  | .products => tables.products.length
  | .orders => tables.orders.length
  | .orderItems => tables.orderItems.length

-- ---------------------------------------------------------------------------
-- Answers
-- ---------------------------------------------------------------------------

structure WarehouseCaller where
  tenantId : JsString
  role : Role
  territory : Option JsString
  deriving DecidableEq, Repr

structure WarehouseOptions where
  statementTimeoutMs : Nat
  maxRows : ℤ

inductive Operation
  | listTables
  | query (sql : JsString) (limit : Option ℤ)

/-- What an operation runs in its transaction: `query` has been guarded by then. -/
inductive Work
  | listTables
  | query (guarded : GuardedStatement)

def Operation.work (maxRows : ℤ) : Operation → Except GatewayError Work
  | .listTables => .ok .listTables
  | .query sql limit => (queryStatement sql limit maxRows).map .query

structure TableEntry where
  name : JsString
  rowsVisible : Nat
  exact : Bool
  description : JsString
  deriving DecidableEq, Repr

structure QueryOutcome where
  columns : List JsString
  rows : List Json
  rowCount : Nat
  truncated : Bool
  appliedRole : JsString

inductive Answer
  | tables (tables : List TableEntry) (appliedRole : JsString) (countedUpTo : Nat)
  | rows (outcome : QueryOutcome)

structure PgResult where
  fields : List JsString
  rows : List Json
  rowCount : Option Nat

def listTablesCountCap : Nat := 10000

def describe : ExposedTable → JsString
  | .customers => js "Customer accounts, one row per customer, scoped by territory"
  | .products => js "Product catalogue with list prices"
  | .orders => js "Order headers with status, channel and total value"
  | .orderItems => js "Order line items joining orders to products"

/-- The entry for a table of which `count` rows can be read. The statement that counts stops
one past the cap. -/
def tableEntry (table : ExposedTable) (count : Nat) : TableEntry :=
  let counted := min count (listTablesCountCap + 1)
  { name := table.name
    rowsVisible := min counted listTablesCountCap
    exact := decide (counted ≤ listTablesCountCap)
    description := describe table }

def queryOutcome (caller : WarehouseCaller) (guarded : GuardedStatement) (result : PgResult) :
    QueryOutcome where
  columns := result.fields
  rows := result.rows
  rowCount := result.rowCount.getD result.rows.length
  truncated := decide (result.rowCount.getD 0 ≥ guarded.limit)
  appliedRole := roleToDbRole caller.role

/-- What `query` makes of an error of the database. -/
def queryError (options : WarehouseOptions) (message : Option JsString) : GatewayError :=
  let message := message.getD (js "Query failed")
  let timedOut := [js "statement timeout", js "canceling statement"].any
    fun words => decide (words <:+: toLowerCase message)
  if timedOut then
    upstreamError (js "warehouse")
      (js "Query exceeded the " ++ decimal options.statementTimeoutMs ++ js "ms statement timeout")
      [(js "timeoutMs", .number (.finite options.statementTimeoutMs))]
  else badRequestError (js "Query rejected by the database: " ++ message)

/-- The four settings of a transaction, in the order they are made. -/
def callerSettings (options : WarehouseOptions) (caller : WarehouseCaller) :
    List (Change Setting (Option JsString)) :=
  [.inTransaction .statementTimeout (some (decimal options.statementTimeoutMs)),
    .inTransaction .tenantId (some caller.tenantId),
    .inTransaction .territory (some (caller.territory.getD [])),
    .inTransaction .role (some (roleToDbRole caller.role))]

-- ---------------------------------------------------------------------------
-- Calls
-- ---------------------------------------------------------------------------

/-- Where an operation is. Each phase but the first and the last two has a statement in
flight on the connection it names. -/
inductive CallPhase
  /-- It waits for a connection of the pool. -/
  | connecting
  | beginning (client : Nat)
  | configuring (client : Nat) (todo : List (Change Setting (Option JsString)))
  /-- The rest of the loop over the tables. -/
  | counting (client : Nat) (todo : List ExposedTable) (counted : List TableEntry)
  | selecting (client : Nat) (guarded : GuardedStatement)
  | committing (client : Nat) (answer : Answer)
  | rollingBack (client : Nat) (error : Thrown)
  | releasing (client : Nat) (outcome : Except Thrown Answer)
  | settled (outcome : Except Thrown Answer)

def CallPhase.client? : CallPhase → Option Nat
  | .connecting | .settled _ => none
  | .beginning k | .configuring k _ | .counting k _ _ | .selecting k _ | .committing k _
  | .rollingBack k _ | .releasing k _ => some k

structure WarehouseCall where
  caller : WarehouseCaller
  work : Work
  phase : CallPhase
  /-- What its own statements have changed, once the caller's settings were made. -/
  own : List (Change Setting (Option JsString))

structure Warehouse where
  /-- Connections of the pool that no operation has. -/
  idle : List Nat
  opened : Nat
  session : Nat → Session Setting (Option JsString)
  /-- Connections that are gone. -/
  lost : List Nat
  calls : Nat → Option WarehouseCall
  tables : Tables

namespace Warehouse

def created (tables : Tables) : Warehouse where
  idle := []
  opened := 0
  session := fun _ => .opened fun _ => none
  lost := []
  calls := fun _ => none
  tables

def setCall (s : Warehouse) (c : Nat) (call : WarehouseCall) : Warehouse :=
  { s with calls := Function.update s.calls c (some call) }

def setSession (s : Warehouse) (k : Nat) (session : Session Setting (Option JsString)) : Warehouse :=
  { s with session := Function.update s.session k session }

/-- The statement in flight on the connection is answered by an error, or by the end of the
connection. -/
def failOn (s : Warehouse) (k : Nat) (alive : Bool) : Warehouse :=
  if alive then s.setSession k (s.session k).fail else { s with lost := k :: s.lost }

end Warehouse

inductive WarehouseEvent
  | call (c : Nat) (caller : WarehouseCaller) (operation : Operation)
  /-- An idle connection is lent to the operation. -/
  | lent (c k : Nat)
  /-- A new one is, with the settings of the login role. -/
  | connected (c : Nat) (settings : Settings)
  | notConnected (c : Nat) (message : Option JsString)
  /-- `BEGIN`, a setting, a count or `COMMIT` succeeds. -/
  | done (c : Nat)
  /-- The guarded statement succeeds. -/
  | selected (c : Nat) (changes : List (Change Setting (Option JsString))) (result : PgResult)
  | failed (c : Nat) (message : Option JsString) (alive : Bool)
  /-- `ROLLBACK`, which fails on a connection that is gone alone. -/
  | rolledBack (c : Nat) (alive : Bool)
  | released (c : Nat)
  /-- The pool closes a connection that has been idle for long. -/
  | expired (k : Nat)
  /-- Somebody else commits to the tables. -/
  | written (tables : Tables)

/-- What `fn` starts with. -/
def Work.start (k : Nat) : Work → CallPhase
  | .listTables => .counting k exposedTables []
  | .query guarded => .selecting k guarded

namespace Warehouse

def goOn (s : Warehouse) (c : Nat) (next : WarehouseCall → Option Warehouse) : Option Warehouse :=
  (s.calls c).bind next

def succeed (options : WarehouseOptions) (s : Warehouse) (c : Nat) (call : WarehouseCall) :
    Option Warehouse :=
  match call.phase with
  | .beginning k =>
    if k ∈ s.lost ∨ (s.session k).status = .failed then none else
      some ((s.setSession k (s.session k).begin).setCall c
        { call with phase := .configuring k (callerSettings options call.caller) })
  | .configuring k (change :: todo) =>
    if k ∈ s.lost ∨ (s.session k).status = .failed then none else
      some ((s.setSession k ((s.session k).change change)).setCall c
        { call with phase := if todo.isEmpty then call.work.start k else .configuring k todo })
  | .counting k (table :: todo) counted =>
    if k ∈ s.lost ∨ (s.session k).status = .failed then none else
      -- the login role and others than the four are left open
      (appRole ((s.session k).current .role)).map fun role =>
        let readable := s.tables.readable role (s.session k).current
        let counted := counted ++ [tableEntry table (readable.count table)]
        let answer := .tables counted (roleToDbRole call.caller.role) listTablesCountCap
        s.setCall c
          { call with phase := if todo.isEmpty then .committing k answer else .counting k todo counted }
  | .committing k answer =>
    if k ∈ s.lost then none else
      some ((s.setSession k (s.session k).commit).setCall c
        { call with phase := .releasing k (.ok answer) })
  | _ => none

def failing (options : WarehouseOptions) (s : Warehouse) (c : Nat) (call : WarehouseCall)
    (message : Option JsString) (alive : Bool) : Option Warehouse :=
  match call.phase with
  | .beginning k | .configuring k _ | .counting k _ _ =>
    some ((s.failOn k alive).setCall c { call with phase := .rollingBack k (.other message) })
  | .selecting k _ =>
    some ((s.failOn k alive).setCall c
      { call with phase := .rollingBack k (.gateway (queryError options message)) })
  | .committing k _ =>
    -- a commit that fails has rolled the transaction back
    some ((if alive then s.setSession k (s.session k).rollback else s.failOn k false).setCall c
      { call with phase := .rollingBack k (.other message) })
  | _ => none

def step (options : WarehouseOptions) (s : Warehouse) : WarehouseEvent → Option Warehouse
  | .call c caller operation =>
    if (s.calls c).isSome then none else
      match operation.work options.maxRows with
      | .ok work => some (s.setCall c { caller, work, phase := .connecting, own := [] })
      -- the guard throws before a connection is asked for
      | .error _ => some s
  | .lent c k => s.goOn c fun call =>
    match call.phase with
    | .connecting =>
      if k ∈ s.idle then
        some ({ s with idle := s.idle.erase k }.setCall c { call with phase := .beginning k })
      else none
    | _ => none
  | .connected c settings => s.goOn c fun call =>
    match call.phase with
    | .connecting =>
      some (({ s with opened := s.opened + 1 }.setSession s.opened (.opened settings)).setCall c
        { call with phase := .beginning s.opened })
    | _ => none
  | .notConnected c message => s.goOn c fun call =>
    match call.phase with
    | .connecting => some (s.setCall c { call with phase := .settled (.error (.other message)) })
    | _ => none
  | .done c => s.goOn c (s.succeed options c)
  | .selected c changes result => s.goOn c fun call =>
    match call.phase with
    | .selecting k guarded =>
      if k ∈ s.lost ∨ (s.session k).status = .failed then none else
        some ((s.setSession k ((s.session k).changes changes)).setCall c
          { call with
            phase := .committing k (.rows (queryOutcome call.caller guarded result))
            own := changes })
    | _ => none
  | .failed c message alive => s.goOn c fun call => s.failing options c call message alive
  | .rolledBack c alive => s.goOn c fun call =>
    match call.phase with
    | .rollingBack k error =>
      let ended := if alive ∧ k ∉ s.lost then s.setSession k (s.session k).rollback
        else s.failOn k false
      some (ended.setCall c { call with phase := .releasing k (.error error) })
    | _ => none
  | .released c => s.goOn c fun call =>
    match call.phase with
    | .releasing k outcome =>
      -- the pool drops a connection that is gone
      let returned := if k ∈ s.lost then s else { s with idle := k :: s.idle }
      some (returned.setCall c { call with phase := .settled outcome })
    | _ => none
  | .expired k => some { s with idle := s.idle.erase k }
  | .written tables => some { s with tables }

end Warehouse

end McpGateway.Postgres
