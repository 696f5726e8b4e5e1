import McpGateway.Js.String
import McpGateway.Lib.Transition
import Mathlib.Logic.Function.Basic

/-!
# The pool of upstream clients

Connected clients are kept for each destination and lent to one call at a time.
Any number of calls of `withClient` run at once; a step is what one of them does
between two awaits, or a call of `close`. An entry is the mutable cell its
transport reads the headers from; its connection is not modelled.
-/

namespace McpGateway.Runtime

open Js

/-- `Record<string, string>`. -/
abbrev Headers := List (JsString × JsString)

structure Entry where
  url : JsString
  /-- Headers applied to the next request. -/
  headers : Headers
  deriving DecidableEq, Repr

/-- Where a call of `withClient` is. -/
inductive Phase
  /-- `take` has found no idle entry. -/
  | missed
  | building
  /-- It has an entry, from `take` or from `build`. -/
  | taken (entry : Nat)
  /-- `fn` has started and not settled. -/
  | running (entry : Nat)
  /-- `fn` has thrown, and the entry is being closed. -/
  | discarding (entry : Nat)
  | settled
  deriving DecidableEq, Repr

def Phase.entry? : Phase → Option Nat
  | .taken e | .running e | .discarding e => some e
  | _ => none

structure Call where
  url : JsString
  headers : Headers
  phase : Phase
  deriving DecidableEq, Repr

structure Pool where
  /-- The idle entries of each destination, the last one on top. -/
  idle : JsString → List Nat
  closed : Bool
  entry : Nat → Entry
  /-- How many entries have been built. -/
  built : Nat
  calls : Nat → Option Call

namespace Pool

def created : Pool where
  idle := fun _ => []
  closed := false
  entry := fun _ => ⟨[], []⟩
  built := 0
  calls := fun _ => none

def setCall (s : Pool) (c : Nat) (call : Call) : Pool :=
  { s with calls := Function.update s.calls c (some call) }

def setEntry (s : Pool) (e : Nat) (entry : Entry) : Pool :=
  { s with entry := Function.update s.entry e entry }

def setIdle (s : Pool) (url : JsString) (bucket : List Nat) : Pool :=
  { s with idle := Function.update s.idle url bucket }

/-- Pop the last idle entry of the destination. -/
def take (s : Pool) (url : JsString) : Pool × Option Nat :=
  match (s.idle url).getLast? with
  | some e => (s.setIdle url (s.idle url).dropLast, some e)
  | none => (s, none)

/-- Return an entry: after `close`, or to a full bucket, it is discarded instead. -/
def give (maxIdle : Nat) (s : Pool) (e : Nat) : Pool :=
  if s.closed then s else
    let cleared := s.setEntry e { s.entry e with headers := [] }
    let bucket := cleared.idle (s.entry e).url
    if bucket.length ≥ maxIdle then cleared
    else cleared.setIdle (s.entry e).url (bucket ++ [e])

/-- `build` returns: the cell is seeded with the headers of the call. -/
def build (s : Pool) (url : JsString) (headers : Headers) : Pool :=
  { s.setEntry s.built ⟨url, headers⟩ with built := s.built + 1 }

def close (s : Pool) : Pool := { s with closed := true, idle := fun _ => [] }

end Pool

inductive PoolStep
  /-- A new call, up to what `take` answers. -/
  | withClient (c : Nat) (url : JsString) (headers : Headers)
  | build (c : Nat)
  | built (c : Nat)
  | buildFailed (c : Nat)
  /-- The headers are set and `fn` is called. -/
  | enter (c : Nat)
  | returns (c : Nat)
  | throws (c : Nat)
  /-- Both closes of a discarded entry have settled. -/
  | discarded (c : Nat)
  | close
  deriving DecidableEq, Repr

def Pool.goOn (s : Pool) (c : Nat) (next : Call → Option Pool) : Option Pool :=
  (s.calls c).bind next

def Pool.step (maxIdle : Nat) (s : Pool) : PoolStep → Option Pool
  | .withClient c url headers =>
    if (s.calls c).isSome then none else
      match s.take url with
      | (taken, some e) => some (taken.setCall c ⟨url, headers, .taken e⟩)
      | (_, none) => some (s.setCall c ⟨url, headers, .missed⟩)
  | .build c => s.goOn c fun call =>
    match call.phase with
    | .missed => some (s.setCall c { call with phase := .building })
    | _ => none
  | .built c => s.goOn c fun call =>
    match call.phase with
    | .building =>
      some ((s.build call.url call.headers).setCall c { call with phase := .taken s.built })
    | _ => none
  | .buildFailed c => s.goOn c fun call =>
    match call.phase with
    | .building => some (s.setCall c { call with phase := .settled })
    | _ => none
  | .enter c => s.goOn c fun call =>
    match call.phase with
    | .taken e =>
      some ((s.setEntry e { s.entry e with headers := call.headers }).setCall c
        { call with phase := .running e })
    | _ => none
  | .returns c => s.goOn c fun call =>
    match call.phase with
    | .running e => some ((s.setCall c { call with phase := .settled }).give maxIdle e)
    | _ => none
  | .throws c => s.goOn c fun call =>
    match call.phase with
    | .running e => some (s.setCall c { call with phase := .discarding e })
    | _ => none
  | .discarded c => s.goOn c fun call =>
    match call.phase with
    | .discarding _ => some (s.setCall c { call with phase := .settled })
    | _ => none
  | .close => some s.close

end McpGateway.Runtime
