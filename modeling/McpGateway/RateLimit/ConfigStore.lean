import McpGateway.Lib.Transition
import McpGateway.RateLimit.TokenBucket
import Mathlib.Logic.Function.Basic

/-!
# The configuration of the limits

Every replica keeps the rows of `rate_limit_configs` in memory and reads them
again when a message says they changed. The replicas, the committed rows and the
messages on their way are one system here: a step is one step of one call, and
the calls of a replica and of different replicas take theirs in any order.
-/

namespace McpGateway.RateLimit

open Js

inductive ScopeType
  | tenant
  | userTool
  deriving DecidableEq, Repr

def ScopeType.text : ScopeType → JsString
  | .tenant => js "tenant"
  | .userTool => js "user_tool"

structure RateLimitConfigRecord where
  tenantId : JsString
  scopeType : ScopeType
  /-- `*` matches any tool. -/
  toolName : JsString
  tier : JsString
  capacity : Nat
  refillTokens : Nat
  refillIntervalMs : Nat
  deriving DecidableEq, Repr

structure ResolvedLimits where
  tenant : BucketConfig
  userTool : BucketConfig
  deriving DecidableEq, Repr

def defaultFallback : ResolvedLimits where
  tenant := ⟨600, 600, 60000, some (js "fallback")⟩
  userTool := ⟨60, 60, 60000, some (js "fallback")⟩

-- ---------------------------------------------------------------------------
-- The index
-- ---------------------------------------------------------------------------

def indexKey (tenantId scopeType toolName tier : JsString) : JsString :=
  tenantId ++ js "|" ++ scopeType ++ js "|" ++ toolName ++ js "|" ++ tier

abbrev Index := JsString → Option RateLimitConfigRecord

/-- A later record with the same key replaces an earlier one. -/
def indexOf (records : List RateLimitConfigRecord) : Index :=
  records.foldl (fun index record =>
    Function.update index
      (indexKey record.tenantId record.scopeType.text record.toolName record.tier) (some record))
    fun _ => none

def lookup (index : Index) (tenantId : JsString) (scopeType : ScopeType)
    (toolName tier : JsString) : Option BucketConfig :=
  let candidates := [
    indexKey tenantId scopeType.text toolName tier,
    indexKey tenantId scopeType.text toolName (js "default"),
    indexKey tenantId scopeType.text (js "*") tier,
    indexKey tenantId scopeType.text (js "*") (js "default")]
  (candidates.findSome? index).map fun record =>
    ⟨record.capacity, record.refillTokens, record.refillIntervalMs, some record.tier⟩

def resolve (index : Index) (fallback : ResolvedLimits) (tenantId toolName tier : JsString) :
    ResolvedLimits where
  tenant := (lookup index tenantId .tenant (js "*") tier).getD fallback.tenant
  userTool := (lookup index tenantId .userTool toolName tier).getD fallback.userTool

-- ---------------------------------------------------------------------------
-- A replica
-- ---------------------------------------------------------------------------

/-- What a store is constructed with. -/
structure Options where
  subscriber : Bool
  publisher : Bool
  fallback : ResolvedLimits := defaultFallback

structure Snapshot where
  version : Nat
  rows : List RateLimitConfigRecord
  deriving DecidableEq, Repr

/-- A call of `reload`, with the rows its loader has read. -/
structure Reload where
  /-- It is the one `start` waits for. -/
  starting : Bool
  rows : Option Snapshot
  deriving DecidableEq, Repr

/-- How far `start` has come. -/
inductive Phase
  | created
  | loading
  /-- The listener is set and SUBSCRIBE is on its way. -/
  | subscribing
  /-- Redis sends the messages of the channel from now on. -/
  | subscribed
  | started
  deriving DecidableEq, Repr

structure Store where
  phase : Phase
  index : Index
  /-- The rows the index was built from. -/
  installed : Option Snapshot
  reloads : List Reload
  /-- Messages sent to the store and not delivered yet. -/
  inbox : Nat
  /-- Redis sends it the messages of the channel. -/
  listening : Bool

def Store.created : Store where
  phase := .created
  index := fun _ => none
  installed := none
  reloads := []
  inbox := 0
  listening := false

def Store.reload (s : Store) (starting : Bool) : Store :=
  { s with reloads := s.reloads ++ [⟨starting, none⟩] }

/-- The rest of `reload` once the loader has returned, and of `start` behind it. -/
def Store.install (s : Store) (options : Options) (k : Nat) (starting : Bool) (rows : Snapshot) :
    Store :=
  { s with
    index := indexOf rows.rows
    installed := some rows
    reloads := s.reloads.eraseIdx k
    phase := if !starting then s.phase else if options.subscriber then .subscribing else .started }

-- ---------------------------------------------------------------------------
-- The replicas together
-- ---------------------------------------------------------------------------

variable {ι : Type} [DecidableEq ι]

structure Replicas (ι : Type) where
  /-- The rows committed last. -/
  latest : Snapshot
  /-- Committed changes whose `publishReload` is still to be called, with the store
  it will be called on. -/
  unpublished : List (ι × Nat)
  stores : ι → Store

def Replicas.created (rows : List RateLimitConfigRecord) : Replicas ι where
  latest := ⟨0, rows⟩
  unpublished := []
  stores := fun _ => .created

inductive Step (ι : Type)
  | start (i : ι)
  /-- The loader of the store's `k`-th reload reads the rows. -/
  | read (i : ι) (k : Nat)
  | install (i : ι) (k : Nat)
  /-- Redis carries out SUBSCRIBE. -/
  | subscribe (i : ι)
  /-- The answer to SUBSCRIBE arrives. -/
  | acknowledge (i : ι)
  /-- A change is committed by the replica of this store. -/
  | commit (i : ι) (rows : List RateLimitConfigRecord)
  /-- `publishReload` for the `k`-th change that waits for it. -/
  | publish (k : Nat)
  | deliver (i : ι)

def Replicas.set (s : Replicas ι) (i : ι) (store : Store) : Replicas ι :=
  { s with stores := Function.update s.stores i store }

/-- PUBLISH on the channel, to every store that listens; without a publisher the
store reloads itself. -/
def Replicas.publishReload (options : ι → Options) (s : Replicas ι) (i : ι) : Replicas ι :=
  if (options i).publisher then
    { s with stores := fun j => if (s.stores j).listening then
        { s.stores j with inbox := (s.stores j).inbox + 1 } else s.stores j }
  else s.set i ((s.stores i).reload false)

def Replicas.step (options : ι → Options) (s : Replicas ι) : Step ι → Option (Replicas ι)
  | .start i =>
    match (s.stores i).phase with
    | .created => some (s.set i ({ s.stores i with phase := .loading }.reload true))
    | _ => none
  | .read i k =>
    match (s.stores i).reloads[k]? with
    | some ⟨starting, none⟩ =>
      some (s.set i { s.stores i with
        reloads := (s.stores i).reloads.set k ⟨starting, some s.latest⟩ })
    | _ => none
  | .install i k =>
    match (s.stores i).reloads[k]? with
    | some ⟨starting, some rows⟩ =>
      some (s.set i ((s.stores i).install (options i) k starting rows))
    | _ => none
  | .subscribe i =>
    match (s.stores i).phase with
    | .subscribing => some (s.set i { s.stores i with phase := .subscribed, listening := true })
    | _ => none
  | .acknowledge i =>
    match (s.stores i).phase with
    | .subscribed => some (s.set i { s.stores i with phase := .started })
    | _ => none
  | .commit i rows =>
    some { s with
      latest := ⟨s.latest.version + 1, rows⟩
      unpublished := s.unpublished ++ [(i, s.latest.version + 1)] }
  | .publish k =>
    (s.unpublished[k]?).map fun change =>
      { s.publishReload options change.1 with unpublished := s.unpublished.eraseIdx k }
  | .deliver i =>
    match (s.stores i).inbox with
    | n + 1 => some (s.set i ({ s.stores i with inbox := n }.reload false))
    | 0 => none

/-- Every change is published, every message delivered and every loader done. -/
def Replicas.Settled (s : Replicas ι) : Prop :=
  s.unpublished = [] ∧ ∀ i, (s.stores i).reloads = [] ∧ (s.stores i).inbox = 0

end McpGateway.RateLimit
