import McpGateway.Js.String

/-!
# Server-sent events

How a page reads a `text/event-stream`: line by line, a line ends with a line
feed, a carriage return or both. A comment is passed over, an empty line ends a
message. The reader takes one code unit at a time, so where the network cuts the
text makes no difference.
-/

namespace McpGateway.Js

structure EventSource where
  line : JsString := []
  /-- A line feed that comes next belongs to the carriage return before it. -/
  afterReturn : Bool := false
  data : JsString := []
  eventType : JsString := []
  /-- The data of the messages `onmessage` was called with. -/
  messages : List JsString := []
  deriving DecidableEq

namespace EventSource

def dispatch (s : EventSource) : EventSource :=
  if s.data = [] then { s with eventType := [] }
  else
    { s with
      messages :=
        -- a message of another type is not for `onmessage`
        if s.eventType = [] ∨ s.eventType = js "message" then s.messages ++ [s.data.dropLast]
        else s.messages
      data := []
      eventType := [] }

/-- `id` and `retry` change nothing that is read. -/
def field (s : EventSource) (name value : JsString) : EventSource :=
  if name = js "data" then { s with data := s.data ++ value ++ [lineFeed] }
  else if name = js "event" then { s with eventType := value }
  else s

def interpret (s : EventSource) (line : JsString) : EventSource :=
  match line with
  | [] => s.dispatch
  | c :: _ =>
    if c = colon then s
    else
      let name := line.takeWhile (· != colon)
      match line.dropWhile (· != colon) with
      | _ :: value => s.field name (if value.head? = some blank then value.tail else value)
      | [] => s.field name []

def endLine (s : EventSource) : EventSource := { s with line := [] }.interpret s.line

def read (s : EventSource) (c : CodeUnit) : EventSource :=
  if c = lineFeed then
    if s.afterReturn then { s with afterReturn := false } else s.endLine
  else if c = carriageReturn then { { s with afterReturn := false }.endLine with afterReturn := true }
  else { s with line := s.line ++ [c], afterReturn := false }

def receive (s : EventSource) (text : JsString) : EventSource := text.foldl read s

-- ---------------------------------------------------------------------------
-- Messages and comments
-- ---------------------------------------------------------------------------

def OneLine (text : JsString) : Prop := lineFeed ∉ text ∧ carriageReturn ∉ text

theorem receive_append (s : EventSource) (x y : JsString) :
    s.receive (x ++ y) = (s.receive x).receive y :=
  List.foldl_append ..

theorem receive_line {text : JsString} (h : OneLine text) (s : EventSource)
    (hs : s.afterReturn = false) : s.receive text = { s with line := s.line ++ text } := by
  induction text generalizing s with
  | nil => simp [receive]
  | cons c text ih =>
    obtain ⟨hfeed, hreturn⟩ := h
    rw [List.mem_cons, not_or] at hfeed hreturn
    have hread : s.read c = { s with line := s.line ++ [c], afterReturn := false } := by
      unfold read
      rw [if_neg (Ne.symm hfeed.1), if_neg (Ne.symm hreturn.1)]
    have hrest := ih ⟨hfeed.2, hreturn.2⟩ { s with line := s.line ++ [c], afterReturn := false } rfl
    calc s.receive (c :: text)
        = (s.read c).receive text := rfl
      _ = { s with line := s.line ++ (c :: text) } := by
        rw [hread, hrest, List.append_assoc, hs]
        rfl

theorem receive_message {text : JsString} (h : OneLine text) (messages : List JsString) :
    receive { messages } (js "data: " ++ text ++ [lineFeed, lineFeed]) =
      { messages := messages ++ [text] } := by
  have hline : OneLine (js "data: " ++ text) := by
    refine ⟨?_, ?_⟩
    · rw [List.mem_append, not_or]
      exact ⟨by decide, h.1⟩
    · rw [List.mem_append, not_or]
      exact ⟨by decide, h.2⟩
  rw [receive_append, receive_line hline _ rfl]
  have hend : endLine { messages, line := js "data: " ++ text } =
      { messages, data := text ++ [lineFeed] } := by
    unfold endLine interpret field
    rfl
  calc receive { messages, line := js "data: " ++ text } [lineFeed, lineFeed]
      = (endLine { messages, line := js "data: " ++ text }).receive [lineFeed] := rfl
    _ = dispatch { messages, data := text ++ [lineFeed] } := by
      rw [hend]
      rfl
    _ = { messages := messages ++ [text] } := by simp [dispatch]

theorem receive_comment {text : JsString} (h : OneLine text) (messages : List JsString) :
    receive { messages } (colon :: text ++ [lineFeed, lineFeed]) = { messages } := by
  have hline : OneLine (colon :: text) := by
    refine ⟨?_, ?_⟩
    · rw [List.mem_cons, not_or]
      exact ⟨by decide, h.1⟩
    · rw [List.mem_cons, not_or]
      exact ⟨by decide, h.2⟩
  rw [receive_append, receive_line hline _ rfl]
  rfl

end EventSource

end McpGateway.Js
