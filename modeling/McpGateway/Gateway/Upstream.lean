import McpGateway.Auth.TokenExchange
import McpGateway.Js.Convert

/-!
# One tool call on an upstream server

What `callUpstreamTool` asks the pooled client for and what it makes of the
answer. Whatever is thrown on the way comes out as one of two errors.
-/

namespace McpGateway.Gateway

open Js Shared Auth

structure UpstreamToolCall where
  /-- Streamable HTTP endpoint of the target MCP server. -/
  url : JsString
  server : McpTarget
  toolName : JsString
  arguments : List (JsString × Json)
  /-- Downstream token minted for the caller and addressed to this server. -/
  accessToken : JsString
  timeoutMs : Nat

structure UpstreamToolResult where
  isError : Bool
  text : JsString
  structured : Option (List (JsString × Json))
  latencyMs : ℚ

/-- What the pooled client's `callTool` resolves with. -/
structure CallToolResult where
  content : Option Json
  isError : Option Json
  structuredContent : Option Json

/-- A property of any value but `null` and `undefined`. -/
def propertyOf (name : JsString) : Json → Except Thrown (Option Json)
  | .null => throw (.other (some (js "Cannot read properties of null")))
  | .object props => return props.lookup name
  | _ => return none

/-- The text of a block of type `text`. -/
def blockText (block : Json) : Except Thrown (Option JsString) := do
  let type ← propertyOf (js "type") block
  let text ← propertyOf (js "text") block
  match type, text with
  | some (.string type), some (.string text) => return if type = js "text" then some text else none
  | _, _ => return none

def contentBlocks : Option Json → List Json
  | some (.array blocks) => blocks
  | _ => []

def isRecord : Option Json → Option (List (JsString × Json))
  | some (.object props) => some props
  | _ => none

def isTrue : Option Json → Bool
  | some (.boolean b) => b
  | _ => false

def readResult (result : CallToolResult) (latencyMs : ℚ) : Except Thrown UpstreamToolResult := do
  let texts ← (contentBlocks result.content).mapM blockText
  return { isError := isTrue result.isError
           text := List.intercalate [lineFeed] (texts.filterMap id)
           structured := isRecord result.structuredContent
           latencyMs }

/-- The message of what was thrown, when it is an `Error`. -/
def messageOf : Thrown → Option JsString
  | .gateway e => some e.message
  | .other message => message

def isConnectionError (engine : Engine) (error : Thrown) : Bool :=
  match messageOf error with
  | none => false
  | some message =>
    [js "econnrefused", js "enotfound", js "fetch failed", js "socket hang up", js "timeout"].any
      fun word => decide (word <:+: engine.toLowerCase message)

/-- The body of `callUpstreamTool`, for what the pooled client did and how long it took. -/
def upstreamOutcome (engine : Engine) (call : UpstreamToolCall) (serverName : JsString)
    (answer : Except Thrown CallToolResult) (latencyMs : ℚ) : Except Thrown UpstreamToolResult :=
  match answer.bind (readResult · latencyMs) with
  | .ok result => .ok result
  | .error error =>
    if isConnectionError engine error then .error (.gateway (upstreamUnavailableError serverName))
    else .error (.gateway (upstreamError serverName
      ((messageOf error).getD (js "Upstream tool call failed")) [(js "tool", .string call.toolName)]))

end McpGateway.Gateway
