import McpGateway.Js.EventStream
import McpGateway.Js.Json
import McpGateway.Lib.Transition
import Mathlib.Logic.Function.Basic

/-!
# The live view

Every invocation is published to the pages that watch, each on a request of its
own that stays open. A page that connects is sent the recent events first. An
event is the object it is sent as. Nothing in here waits, so publishing and
connecting each take one step.
-/

namespace McpGateway.Gateway

open Js

structure LiveStream where
  history : List Json
  /-- The requests that are subscribed, each with the tenant of its caller. -/
  listeners : List (Nat × JsString)
  /-- The requests that have come in, and those of them that are not closed. -/
  requests : List Nat
  opened : List Nat
  /-- What was written to the response of a request. -/
  written : Nat → JsString

/-- `event.tenantId`. -/
def tenantOf : Json → Option JsString
  | .object props => match props.lookup (js "tenantId") with
    | some (.string tenantId) => some tenantId
    | _ => none
  | _ => none

/-- `slice(-limit)`; `-0` is `0`. -/
def sliceFromEnd (limit : Nat) (events : List Json) : List Json :=
  if limit = 0 then events else events.drop (events.length - limit)

/-- The events a new page is sent, oldest first. An empty tenant is none. -/
def recent (history : List Json) (limit : Nat) (tenantId : JsString) : List Json :=
  let filtered :=
    if tenantId = [] then history
    else history.filter fun event => tenantOf event == some tenantId
  sliceFromEnd limit filtered

def keepAliveFrame : JsString := js ": keep-alive\n\n"

section
variable (numberText : ℚ → JsString)

def eventFrame (event : Json) : JsString :=
  js "data: " ++ event.stringify numberText ++ [lineFeed, lineFeed]

namespace LiveStream

def created : LiveStream where
  history := []
  listeners := []
  requests := []
  opened := []
  written := fun _ => []

def write (s : LiveStream) (c : Nat) (text : JsString) : LiveStream :=
  { s with written := Function.update s.written c (s.written c ++ text) }

def send (s : LiveStream) (c : Nat) (event : Json) : LiveStream :=
  s.write c (eventFrame numberText event)

/-- The listener of a request drops the events of other tenants. -/
def notify (event : Json) (s : LiveStream) (listener : Nat × JsString) : LiveStream :=
  if tenantOf event = some listener.2 then s.send numberText listener.1 event else s

def publish (historySize : Nat) (s : LiveStream) (event : Json) : LiveStream :=
  let history := s.history ++ [event]
  let history :=
    if history.length > historySize then history.drop (history.length - historySize) else history
  s.listeners.foldl (notify numberText event) { s with history }

/-- `GET /api/stream`, up to where the handler waits for the end of the request. -/
def connect (s : LiveStream) (c : Nat) (tenantId : JsString) : LiveStream :=
  let replayed := (recent s.history 30 tenantId).foldl (fun s event => s.send numberText c event) s
  { replayed with
    listeners := replayed.listeners ++ [(c, tenantId)]
    requests := c :: replayed.requests
    opened := c :: replayed.opened }

def close (s : LiveStream) (c : Nat) : LiveStream :=
  { s with
    listeners := s.listeners.filter fun listener => listener.1 != c
    opened := s.opened.filter fun other => other != c }

end LiveStream

inductive StreamEvent
  | published (event : Json)
  | connected (c : Nat) (tenantId : JsString)
  | keptAlive (c : Nat)
  | closed (c : Nat)
  /-- The gateway shuts down; the timers of open requests go on. -/
  | streamClosed

namespace LiveStream

def step (historySize : Nat) (s : LiveStream) : StreamEvent → Option LiveStream
  | .published event => some (s.publish numberText historySize event)
  | .connected c tenantId => if c ∈ s.requests then none else some (s.connect numberText c tenantId)
  | .keptAlive c => if c ∈ s.opened then some (s.write c keepAliveFrame) else none
  | .closed c => if c ∈ s.opened then some (s.close c) else none
  | .streamClosed => some { s with listeners := [] }

end LiveStream

end

-- ---------------------------------------------------------------------------
-- The page
-- ---------------------------------------------------------------------------

/-- The page puts a message in front of what it shows, unless it is malformed. -/
def onMessage (events : List Json) (data : JsString) : List Json :=
  match Json.parse data with
  | some event => (event :: events).take 200
  | none => events

def pageEvents (written : JsString) : List Json :=
  (EventSource.receive {} written).messages.foldl onMessage []

end McpGateway.Gateway
