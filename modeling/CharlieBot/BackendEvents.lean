import CharlieBot.TailFollow

/-!
# What backends translate to

Every backend writes events of its own shape, and its translator turns them
into the shapes the chat knows. The constructors of these shapes are here,
with the translators that remember nothing: one that passes every event on,
and the one of the `charlie-code` backend.
-/

/-- `ev.get(k, {})`, to be read on: an exception where it is no dict. -/
def Event.getDict (ev : Event) (k : String) : Option Dict := (ev.getD k (.obj [])).asDict

/-- `ev.get("type") == t`, where a missing type reads as an empty text. -/
def Event.ofType (ev : Event) (t : String) : Bool := (ev.getD "type" (.str "")).isText t

/-! ## The events -/

def makeTextEvent (text : Json) : Event :=
  [("type", .str ET.assistant),
    ("message", .obj [("content", .arr [.obj [("type", .str "text"), ("text", text)]])])]

def makeErrorEvent (msg : Json) : Event :=
  [("type", .str ET.error), ("message", msg), ("content", msg)]

/-- `make_result_event`, without a context snapshot. -/
def makeResultEvent (inputTokens outputTokens cacheRead cost : Json) : Event :=
  [("type", .str ET.result),
    ("result", .str ""),
    ("usage", .obj [
      (ET.usageInputTokens, inputTokens),
      (ET.usageOutputTokens, outputTokens),
      (ET.usageCacheReadInputTokens, cacheRead),
      (ET.usageCacheCreationInputTokens, .int 0)]),
    (ET.resultTotalCostUsd, cost)]

def makeToolUseEvent (name inputData : Json) : Event :=
  [("type", .str ET.toolUse), ("name", name), ("input", inputData)]

def makeToolResultEvent (toolName content : Json) : Event :=
  [("type", .str ET.toolResult), ("tool_name", toolName), ("content", content)]

def makeContextReadingEvent (model contextTokens contextFull contextCompactAt : Json) : Event :=
  [("type", .str ET.system),
    ("subtype", .str ET.contextReading),
    (ET.contextReading, .obj [
      ("model", model),
      (ET.contextTokens, contextTokens),
      (ET.contextFull, contextFull),
      (ET.contextCompactAt, contextCompactAt)])]

def makeCompactBoundaryEvent (trigger preTokens : Json) : Event :=
  [("type", .str ET.system),
    ("subtype", .str ET.compactBoundary),
    (ET.compactMetadata, .obj [("trigger", trigger), (ET.compactPreTokens, preTokens)])]

/-! ## Translators without a memory -/

/-- A translator that remembers nothing. -/
def Translator.stateless (translate : Event → Option (List Event)) : Translator Unit :=
  ⟨⟨fun _ ev => (translate ev).map fun out => ((), out)⟩, ()⟩

namespace CharlieCode

/-- A number of a context reading: an integer passes, anything else reads as
unknown. -/
def contextReadingInt : Json → Json
  | .int n => .int n
  | _ => .null

/-- `CharlieCodeBackend.translate_event`. -/
def translateEvent (event : Event) : Option (List Event) :=
  if event.hasType "session" then do
    let sessionId ← event.item "session_id"
    some [[("session_id", sessionId)]]
  else if event.hasType "thought" then do
    let text ← event.item "text"
    some [makeTextEvent text]
  else if event.hasType "command" then do
    let command ← event.item "command"
    let id ← event.item "id"
    some [(makeToolUseEvent (.str "Bash") (.obj [("command", command)])).set "id" id]
  else if event.hasType "observation" then do
    let id ← event.item "id"
    some [(makeToolResultEvent (.str "Bash") (event.getD "output" (.str ""))).set "tool_use_id" id]
  else if event.hasType "result" then do
    let usage ← event.getDict "usage"
    some [makeResultEvent (usage.getD "input_tokens" (.int 0))
      (usage.getD "output_tokens" (.int 0)) (.int 0) .null]
  else if event.hasType "error" then
    some [makeErrorEvent (event.getD "message" (.str ""))]
  else if event.hasType "compact" then do
    let trigger ← event.item "trigger"
    let preTokens ← event.item "pre_tokens"
    some [makeCompactBoundaryEvent trigger preTokens]
  else if event.hasType "context" then
    some [makeContextReadingEvent ((event.get "model").or (.str ""))
      (contextReadingInt (event.get "prompt_tokens"))
      (contextReadingInt (event.get "context_window"))
      (contextReadingInt (event.get "compact_threshold"))]
  else some []

end CharlieCode

/-- `AgentBackend.translate_event`, the default: the event as it is. -/
def identityTranslate (event : Event) : Option (List Event) := some [event]
