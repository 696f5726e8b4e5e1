import McpGateway.Lib.Transition
import McpGateway.RateLimit.Limiter

/-!
# Limiters that share a Redis

`consume` sends the digest of the script, and its text when Redis answers that
it has no such script. A step of this system is what one limiter, one call or
Redis does between two awaits; the calls of all limiters and SCRIPT FLUSH are
taken in any order. Redis makes no other error, and files can be read.
-/

namespace McpGateway.RateLimit

open Js Keyed

/-- How far a `doLoad` has come. -/
inductive LoadPhase
  /-- The file is being read. -/
  | reading
  /-- SCRIPT LOAD is on its way. -/
  | requested
  | answered
  /-- The digest is set; `finally` has not run. -/
  | stored
  deriving DecidableEq, Repr

structure TokenBucketLimiter where
  /-- `scriptSource` has been read. -/
  scriptSource : Bool := false
  /-- `sha` is set. There is one digest, that of the script. -/
  sha : Bool := false
  loading : Option LoadPhase := none
  /-- How many loads have come to their end. -/
  loads : Nat := 0
  deriving DecidableEq, Repr

/-- `load`: join the load under way or begin one. -/
def TokenBucketLimiter.load (l : TokenBucketLimiter) : TokenBucketLimiter :=
  match l.loading with
  | some _ => l
  | none => { l with loading := some (if l.scriptSource then .requested else .reading) }

inductive ConsumePhase
  /-- Waits for the load with this number. -/
  | awaitingLoad (number : Nat)
  /-- EVALSHA is on its way. -/
  | evalsha
  /-- Redis has answered it. -/
  | evalshaRan (raw : Reply)
  | noScript
  /-- The file is being read for EVAL. -/
  | readingSource
  /-- EVAL is on its way. -/
  | eval
  | evalRan (raw : Reply)
  | returned (verdict : LimitVerdict)
  deriving DecidableEq, Repr

/-- A call of `consume` on one of the limiters. -/
structure Consuming where
  limiter : Nat
  call : ConsumeCall
  phase : ConsumePhase
  deriving DecidableEq, Repr

structure ScriptExecution where
  id : Nat
  call : TimedCall
  raw : Reply
  deriving DecidableEq, Repr

structure Cluster where
  /-- Redis knows the script by its digest. -/
  cached : Bool
  keys : Keyspace
  limiters : Nat → TokenBucketLimiter
  calls : Nat → Option Consuming
  executions : List ScriptExecution

def Cluster.start (cached : Bool) (keys : Keyspace) (limiters : Nat → TokenBucketLimiter) :
    Cluster :=
  ⟨cached, keys, limiters, fun _ => none, []⟩

inductive ClusterEvent
  /-- `consume` runs up to its first await. -/
  | consume (id limiter : Nat) (call : ConsumeCall)
  /-- The load that a call waits for is over; it sends EVALSHA. -/
  | resume (id : Nat)
  /-- Redis carries out EVALSHA. -/
  | runEvalsha (id : Nat) (time : ServerTime)
  /-- The answer to EVALSHA arrives. -/
  | evalshaAnswered (id : Nat)
  | sourceRead (id : Nat)
  /-- Redis carries out EVAL. -/
  | runEval (id : Nat) (time : ServerTime)
  | evalAnswered (id : Nat)
  /-- The file that `doLoad` reads is there. -/
  | loadRead (limiter : Nat)
  /-- Redis carries out SCRIPT LOAD. -/
  | runLoad (limiter : Nat)
  | loadAnswered (limiter : Nat)
  /-- `finally` clears `loading`. -/
  | loadFinished (limiter : Nat)
  | scriptFlush
  deriving DecidableEq, Repr

namespace Cluster

def setLimiter (s : Cluster) (i : Nat) (l : TokenBucketLimiter) : Cluster :=
  { s with limiters := Function.update s.limiters i l }

def setCall (s : Cluster) (id : Nat) (c : Consuming) : Cluster :=
  { s with calls := Function.update s.calls id (some c) }

/-- Redis runs the script for a call, in one go. -/
def execute (s : Cluster) (id : Nat) (c : Consuming) (time : ServerTime)
    (answered : Reply → ConsumePhase) : Cluster :=
  let (slot, raw) := runScript c.call.argv time (s.keys c.call.key)
  let s : Cluster := { s with
    keys := Function.update s.keys c.call.key slot
    executions := s.executions ++ [⟨id, ⟨c.call, time⟩, raw⟩] }
  s.setCall id { c with phase := answered raw }

def step (s : Cluster) : ClusterEvent → Option Cluster
  | .consume id i call =>
    match s.calls id with
    | some _ => none
    | none =>
      let l := s.limiters i
      if l.sha then some (s.setCall id ⟨i, call, .evalsha⟩)
      else some ((s.setLimiter i l.load).setCall id ⟨i, call, .awaitingLoad l.loads⟩)
  | .resume id =>
    match s.calls id with
    | some ⟨i, call, .awaitingLoad number⟩ =>
      if number < (s.limiters i).loads then some (s.setCall id ⟨i, call, .evalsha⟩) else none
    | _ => none
  | .runEvalsha id time =>
    match s.calls id with
    | some ⟨i, call, .evalsha⟩ =>
      if s.cached then some (s.execute id ⟨i, call, .evalsha⟩ time .evalshaRan)
      else some (s.setCall id ⟨i, call, .noScript⟩)
    | _ => none
  | .evalshaAnswered id =>
    match s.calls id with
    | some ⟨i, call, .evalshaRan raw⟩ => some (s.setCall id ⟨i, call, .returned (call.verdict raw)⟩)
    | some ⟨i, call, .noScript⟩ =>
      -- Redis forgot the body: send it for this call and register it for the next.
      let l := s.limiters i
      some ((s.setLimiter i { l with sha := false }).setCall id
        ⟨i, call, if l.scriptSource then .eval else .readingSource⟩)
    | _ => none
  | .sourceRead id =>
    match s.calls id with
    | some ⟨i, call, .readingSource⟩ =>
      some ((s.setLimiter i { s.limiters i with scriptSource := true }).setCall id
        ⟨i, call, .eval⟩)
    | _ => none
  | .runEval id time =>
    match s.calls id with
    | some ⟨i, call, .eval⟩ =>
      some ({ s with cached := true }.execute id ⟨i, call, .eval⟩ time .evalRan)
    | _ => none
  | .evalAnswered id =>
    match s.calls id with
    | some ⟨i, call, .evalRan raw⟩ =>
      some ((s.setLimiter i (s.limiters i).load).setCall id
        ⟨i, call, .returned (call.verdict raw)⟩)
    | _ => none
  | .loadRead i =>
    match (s.limiters i).loading with
    | some .reading =>
      some (s.setLimiter i { s.limiters i with scriptSource := true, loading := some .requested })
    | _ => none
  | .runLoad i =>
    match (s.limiters i).loading with
    | some .requested =>
      some { s.setLimiter i { s.limiters i with loading := some .answered } with cached := true }
    | _ => none
  | .loadAnswered i =>
    match (s.limiters i).loading with
    | some .answered =>
      some (s.setLimiter i { s.limiters i with sha := true, loading := some .stored })
    | _ => none
  | .loadFinished i =>
    match (s.limiters i).loading with
    | some .stored =>
      some (s.setLimiter i
        { s.limiters i with loading := none, loads := (s.limiters i).loads + 1 })
    | _ => none
  | .scriptFlush => some { s with cached := false }

end Cluster

end McpGateway.RateLimit
