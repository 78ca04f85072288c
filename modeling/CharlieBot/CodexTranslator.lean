import CharlieBot.BackendEvents
import CharlieBot.Lib.Snapshots

/-!
# The Codex translator

Codex repeats an item as it grows: each event of an agent message or of a
reasoning carries its whole text so far, and the translator, which remembers
the last text under the item's id, passes on what is new. A todo list is
repeated as well, and passed on only when it changed.

So the translator reads snapshots (`translateEvent_eq`): every event is
passed on whatever is remembered, or is a snapshot of one cell, or empties
one. A translator that is started behind a cursor remembers nothing, and
passes on the first snapshot of every cell as new (`resumes_iff`).
-/

namespace Codex

/-- **What the translator calls.** -/
structure CodexRuntime where
  /-- The cost of a usage under the backend's model; an exception where its
  numbers are none. -/
  usageCost : Dict → Option Json
  /-- `json.loads`; none where the text does not parse. -/
  loads : String → Option Json
  /-- `json.dumps`. -/
  dumps : Json → String

/-- What the translator remembers. -/
structure CodexState where
  /-- The last text of every agent message. -/
  lastAgentText : Json.Key → Option Json.Seq := fun _ => none
  lastReasoningText : Json.Key → Option Json.Seq := fun _ => none
  /-- The last rendered text of every todo list. -/
  lastTodoText : Json.Key → Option String := fun _ => none

/-! ## Texts that grow -/

/-- What is new in a text, against the last one under its id, and the texts
remembered then; an exception where the id is no key or the text cannot be
sliced. -/
def cumulativeDelta (last : Json.Key → Option Json.Seq) (itemId fullText : Json) :
    Option ((Json.Key → Option Json.Seq) × Json.Seq) := do
  let key ← itemId.asKey
  let full ← fullText.asSeq
  let prev := ((last key).map Json.Seq.length).getD 0
  some (Function.update last key (some full), full.drop prev)

/-- The text of an agent message: of the field `text`, or else of the parts
of its content. -/
def agentText (item : Dict) : Option Json :=
  let text := item.getD "text" (.str "")
  if text.truthy then some text
  else do
    let content ← (item.getD "content" (.arr [])).iter
    let parts := content.filterMap fun part => part.asDict.filter (Event.hasType · "text")
    let joined ← Json.joinTexts "" (parts.map (·.getD "text" (.str "")))
    some (.str joined)

/-- The text of a reasoning: of the field `text`, or else of the parts of its
summary. -/
def reasoningText (item : Dict) : Option Json :=
  let text := item.getD "text" (.str "")
  if text.truthy then some text
  else do
    let summary ← (item.getD "summary" (.arr [])).iter
    summary.foldlM (fun text part => do
      let part ← part.asDict
      if Event.hasType part "summary_text" then text.iadd (part.getD "text" (.str ""))
      else some text) text

def handleAgentMessage (s : CodexState) (ev : Event) : Option (CodexState × List Event) := do
  let item ← ev.getDict "item"
  if !(item.get "type").isText "agent_message" then some (s, [])
  else do
    let itemId := item.getD "id" (.str "")
    let fullText ← agentText item
    if !fullText.truthy then some (s, [])
    else do
      let (lastAgentText, delta) ← cumulativeDelta s.lastAgentText itemId fullText
      let s := { s with lastAgentText }
      if delta.length = 0 then some (s, []) else some (s, [makeTextEvent delta.toJson])

def makeThinkingEvent (content : Json) : Event :=
  [("type", .str ET.thinking), ("content", content)]

def handleReasoning (s : CodexState) (ev : Event) : Option (CodexState × List Event) := do
  let item ← ev.getDict "item"
  if !(item.get "type").isText "reasoning" then some (s, [])
  else do
    let text ← reasoningText item
    if !text.truthy then some (s, [])
    else do
      let itemId := item.getD "id" (.str "")
      let (lastReasoningText, delta) ← cumulativeDelta s.lastReasoningText itemId text
      let s := { s with lastReasoningText }
      if delta.length = 0 then some (s, []) else some (s, [makeThinkingEvent delta.toJson])

/-! ## Tools -/

/-- A tool of which an item's start and end are passed on. -/
structure ToolItemSpec where
  tool : String
  payloadField : String
  /-- Whether its output is made a text. -/
  stringifyOutput : Bool

/-- `_TOOL_ITEM_SPECS.get(item_type)`: an exception where the type is no
key. -/
def toolItemSpec (itemType : Json) : Option (Option ToolItemSpec) := do
  let key ← itemType.asKey
  if key = .text "command_execution" then some (some ⟨"Bash", "command", false⟩)
  else if key = .text "web_search" then some (some ⟨"WebSearch", "query", true⟩)
  else some none

def toolItemEvents (spec : ToolItemSpec) (ev : Event) (item : Dict) : List Event :=
  if ev.hasType "item.started" then
    [makeToolUseEvent (.str spec.tool)
      (.obj [(spec.payloadField, item.getD spec.payloadField (.str ""))])]
  else if ev.hasType "item.completed" then
    let output := item.getD "output" (.str "")
    [makeToolResultEvent (.str spec.tool)
      (if spec.stringifyOutput then .str output.toText else output)]
  else []

def handleToolItem (s : CodexState) (ev : Event) : Option (CodexState × List Event) := do
  let item ← ev.getDict "item"
  let spec ← toolItemSpec (item.get "type")
  match spec with
  | none => some (s, [])
  | some spec => some (s, toolItemEvents spec ev item)

def fileChangeEvents (item : Dict) : Option (List Event) := do
  let changes ← item.item "changes"
  let changes ← changes.iter
  let events ← changes.mapM fun change => do
    let change ← change.asDict
    let kind ← change.item "kind"
    let kind ← kind.asKey
    if kind = .text "add" ∨ kind = .text "update" then do
      let path ← change.item "path"
      some (some [("type", .str ET.fileWrite), ("path", path)])
    else some none
  some (events.filterMap id)

def handleFileChange (s : CodexState) (ev : Event) : Option (CodexState × List Event) :=
  if !ev.hasType "item.completed" then some (s, [])
  else do
    let item ← ev.getDict "item"
    if !(item.get "type").isText "file_change" then some (s, [])
    else do
      let events ← fileChangeEvents item
      some (s, events)

def mcpToolName (item : Dict) : String :=
  let server := item.getD "server_label" (.str "")
  let tool := item.getD "name" (.str "")
  if server.truthy then "mcp:" ++ server.toText ++ "/" ++ tool.toText
  else "mcp:" ++ tool.toText

/-- The events of a call of a server's tool. -/
def mcpToolCallEvents (rt : CodexRuntime) (ev : Event) (item : Dict) : List Event :=
  if ev.hasType "item.started" then
    let arguments := match item.getD "arguments" (.obj []) with
      | .str raw => (rt.loads raw).getD (.obj [("raw", .str raw)])
      | arguments => arguments
    [makeToolUseEvent (.str (mcpToolName item)) arguments]
  else if ev.hasType "item.completed" then
    let output := item.getD "result" (item.getD "error" (.str ""))
    [makeToolResultEvent (.str (mcpToolName item)) (.str output.toText)]
  else []

def handleMcpToolCall (rt : CodexRuntime) (s : CodexState) (ev : Event) :
    Option (CodexState × List Event) := do
  let item ← ev.getDict "item"
  if !(item.get "type").isText "mcp_tool_call" then some (s, [])
  else some (s, mcpToolCallEvents rt ev item)

/-! ## Todo lists and errors -/

/-- `_extract_todo_label`: the first label there is. -/
def extractTodoLabel (todo : Dict) : String :=
  let labels := ["text", "label", "content", "step"].filterMap fun key =>
    (todo.getD key (.str "")).asText.bind fun value =>
      let stripped := Text.strip value.toList
      if stripped.isEmpty then none else some (String.ofList stripped)
  labels.headD ""

def todoMarker (todo : Dict) : String :=
  match todo.get "status" with
  | .str status =>
    if status = "completed" then "[x]" else if status = "in_progress" then "[~]" else "[ ]"
  | _ =>
    match todo.get "completed" with
    | .bool true => "[x]"
    | _ => "[ ]"

def todoLines (items : List Json) : List String :=
  (items.filterMap Json.asDict).filterMap fun todo =>
    let label := extractTodoLabel todo
    if label = "" then none else some ("- " ++ todoMarker todo ++ " " ++ label)

/-- `"\n".join(lines)`. -/
def joinLines (lines : List String) : String :=
  String.ofList (Text.join ['\n'] (lines.map String.toList))

def handleTodoList (s : CodexState) (ev : Event) : Option (CodexState × List Event) := do
  let item ← ev.getDict "item"
  if !(item.get "type").isText "todo_list" then some (s, [])
  else
    match item.getD "items" (.arr []) with
    | .arr items =>
      let lines := todoLines items
      let itemId := item.getD "id" (.str "")
      if lines.isEmpty then
        if itemId.truthy then do
          let key ← itemId.asKey
          some ({ s with lastTodoText := Function.update s.lastTodoText key none }, [])
        else some (s, [])
      else
        let text := joinLines lines
        if itemId.truthy then do
          let key ← itemId.asKey
          if s.lastTodoText key = some text then some (s, [])
          else some ({ s with lastTodoText := Function.update s.lastTodoText key (some text) },
            [makeTextEvent (.str text)])
        else some (s, [makeTextEvent (.str text)])
    | _ => some (s, [])

def itemErrorEvent (rt : CodexRuntime) (ev : Event) (item : Dict) : Event :=
  makeErrorEvent ((item.get "message").or
    (.str ("Codex item error with no message. Full event: " ++ rt.dumps (.obj ev))))

def handleError (rt : CodexRuntime) (s : CodexState) (ev : Event) :
    Option (CodexState × List Event) := do
  let item ← ev.getDict "item"
  if !(item.get "type").isText ET.error then some (s, [])
  else some (s, [itemErrorEvent rt ev item])

/-! ## All events -/

/-- Handlers, called one after the other. -/
def runHandlers : List (CodexState → Event → Option (CodexState × List Event)) →
    CodexState → Event → Option (CodexState × List Event)
  | [], s, _ => some (s, [])
  | handler :: handlers, s, ev => do
    let (s, out) ← handler s ev
    let (s, rest) ← runHandlers handlers s ev
    some (s, out ++ rest)

def itemHandlers (rt : CodexRuntime) :
    List (CodexState → Event → Option (CodexState × List Event)) :=
  [handleAgentMessage, handleReasoning, handleToolItem, handleFileChange,
    handleMcpToolCall rt, handleTodoList, handleError rt]

def translateItemEvent (rt : CodexRuntime) (s : CodexState) (ev : Event) :
    Option (CodexState × List Event) := runHandlers (itemHandlers rt) s ev

def turnErrorEvent (rt : CodexRuntime) (ev : Event) : Event :=
  let evType := (ev.getD "type" (.str "")).toText
  let error := ev.getD "error" (.obj [])
  let msg := match error.asDict with
    | some fields => fields.get "message"
    | none => .str error.toText
  makeErrorEvent ((msg.or (ev.get "message")).or
    (.str ("Codex " ++ evType ++ " with no message. Full event: " ++ rt.dumps (.obj ev))))

def turnCompletedEvent (rt : CodexRuntime) (ev : Event) : Option Event := do
  let usage ← ev.getDict "usage"
  let cost ← rt.usageCost usage
  some (makeResultEvent (usage.getD "input_tokens" (.int 0))
    (usage.getD "output_tokens" (.int 0)) (usage.getD "cached_input_tokens" (.int 0)) cost)

/-- `CodexBackend.translate_event`. -/
def translateEvent (rt : CodexRuntime) (s : CodexState) (ev : Event) :
    Option (CodexState × List Event) :=
  if ev.ofType "thread.started" then
    some (s, [[("session_id", ev.getD "thread_id" (.str ""))]])
  else if ev.ofType "turn.started" then some (s, [])
  else if ev.ofType "turn.completed" then do
    let result ← turnCompletedEvent rt ev
    some (s, [result])
  else if ev.ofType "turn.failed" || ev.ofType "error" then some (s, [turnErrorEvent rt ev])
  else if ev.ofType "item.started" || ev.ofType "item.updated" || ev.ofType "item.completed" then
    translateItemEvent rt s ev
  else some (s, [])

def translator (rt : CodexRuntime) : Translator CodexState := ⟨⟨translateEvent rt⟩, {}⟩

/-! ## Snapshots -/

/-- **What is remembered under a name.** -/
inductive Cell where
  /-- The text of an agent message. -/
  | agent (key : Json.Key)
  | reasoning (key : Json.Key)
  /-- The rendered text of a todo list. -/
  | todo (key : Json.Key)
  deriving DecidableEq

abbrev ItemTouch := Touch Cell Json.Seq Event

def CodexState.recall (s : CodexState) : Cell → Option Json.Seq
  | .agent key => s.lastAgentText key
  | .reasoning key => s.lastReasoningText key
  | .todo key => (s.lastTodoText key).map .text

/-- A growing text: a snapshot of a cell, where there is text. -/
def textTouch (cell : Json.Key → Cell) (item : Dict) (text : Json) : Option ItemTouch :=
  if !text.truthy then some (.emit [])
  else do
    let key ← (item.getD "id" (.str "")).asKey
    let full ← text.asSeq
    some (.snapshot (cell key) full)

/-- A todo list: a snapshot, where it has lines and an id. -/
def todoTouch (item : Dict) : Option ItemTouch :=
  match item.getD "items" (.arr []) with
  | .arr items =>
    let lines := todoLines items
    let itemId := item.getD "id" (.str "")
    if lines.isEmpty then
      if itemId.truthy then itemId.asKey.map fun key => .erase (.todo key) else some (.emit [])
    else
      let text := joinLines lines
      if itemId.truthy then itemId.asKey.map fun key => .snapshot (.todo key) (.text text)
      else some (.emit [makeTextEvent (.str text)])
  | _ => some (.emit [])

def itemTouch (rt : CodexRuntime) (ev : Event) (item : Dict) : Option ItemTouch :=
  let itemType := item.get "type"
  if itemType.isText "agent_message" then (agentText item).bind (textTouch .agent item)
  else if itemType.isText "reasoning" then (reasoningText item).bind (textTouch .reasoning item)
  else (toolItemSpec itemType).bind fun spec =>
    match spec with
    | some spec => some (.emit (toolItemEvents spec ev item))
    | none =>
      if itemType.isText "file_change" then
        if ev.hasType "item.completed" then (fileChangeEvents item).map .emit
        else some (.emit [])
      else if itemType.isText "mcp_tool_call" then some (.emit (mcpToolCallEvents rt ev item))
      else if itemType.isText "todo_list" then todoTouch item
      else if itemType.isText ET.error then some (.emit [itemErrorEvent rt ev item])
      else some (.emit [])

def touch (rt : CodexRuntime) (ev : Event) : Option ItemTouch :=
  if ev.ofType "thread.started" then
    some (.emit [[("session_id", ev.getD "thread_id" (.str ""))]])
  else if ev.ofType "turn.started" then some (.emit [])
  else if ev.ofType "turn.completed" then
    (turnCompletedEvent rt ev).map fun result => .emit [result]
  else if ev.ofType "turn.failed" || ev.ofType "error" then
    some (.emit [turnErrorEvent rt ev])
  else if ev.ofType "item.started" || ev.ofType "item.updated" || ev.ofType "item.completed" then
    (ev.getDict "item").bind (itemTouch rt ev)
  else some (.emit [])

/-- What is new in a text, passed on. -/
def renderDelta (make : Json → Event) (last : Option Json.Seq) (full : Json.Seq) : List Event :=
  let delta := full.drop ((last.map Json.Seq.length).getD 0)
  if delta.length = 0 then [] else [make delta.toJson]

/-- What a snapshot emits. -/
def render : Cell → Option Json.Seq → Json.Seq → List Event
  | .agent _, last, full => renderDelta makeTextEvent last full
  | .reasoning _, last, full => renderDelta makeThinkingEvent last full
  | .todo _, last, text =>
    if (last.map (·.sameText text)).getD false then [] else [makeTextEvent text.toJson]

/-- The translator as a reader of snapshots. -/
def snapshots (rt : CodexRuntime) : Snapshots Cell Json.Seq Event Event := ⟨touch rt, render⟩

section

variable {rt : CodexRuntime} {ev : Event} {item : Dict}

theorem eq_of_isText {x : Json} {t : String} (h : x.isText t = true) : x = .str t := by
  unfold Json.isText at h
  split at h
  · rw [eq_of_beq h]
  · cases h

theorem recall_agent (s : CodexState) (key : Json.Key) (full : Option Json.Seq) :
    ({ s with lastAgentText := Function.update s.lastAgentText key full } : CodexState).recall
      = Function.update s.recall (.agent key) full := by
  funext cell
  cases cell with
  | agent k =>
    by_cases hk : k = key
    · subst hk
      simp [CodexState.recall]
    · have hcell : Cell.agent k ≠ .agent key := fun h => hk (Cell.agent.inj h)
      simp [CodexState.recall, Function.update_of_ne hk, Function.update_of_ne hcell]
  | reasoning k => simp [CodexState.recall, Function.update]
  | todo k => simp [CodexState.recall, Function.update]

theorem recall_reasoning (s : CodexState) (key : Json.Key) (full : Option Json.Seq) :
    ({ s with lastReasoningText := Function.update s.lastReasoningText key full } :
      CodexState).recall = Function.update s.recall (.reasoning key) full := by
  funext cell
  cases cell with
  | reasoning k =>
    by_cases hk : k = key
    · subst hk
      simp [CodexState.recall]
    · have hcell : Cell.reasoning k ≠ .reasoning key := fun h => hk (Cell.reasoning.inj h)
      simp [CodexState.recall, Function.update_of_ne hk, Function.update_of_ne hcell]
  | agent k => simp [CodexState.recall, Function.update]
  | todo k => simp [CodexState.recall, Function.update]

theorem recall_todo (s : CodexState) (key : Json.Key) (text : Option String) :
    ({ s with lastTodoText := Function.update s.lastTodoText key text } : CodexState).recall
      = Function.update s.recall (.todo key) (text.map .text) := by
  funext cell
  cases cell with
  | todo k =>
    by_cases hk : k = key
    · subst hk
      simp [CodexState.recall]
    · have hcell : Cell.todo k ≠ .todo key := fun h => hk (Cell.todo.inj h)
      simp [CodexState.recall, Function.update_of_ne hk, Function.update_of_ne hcell]
  | agent k => simp [CodexState.recall, Function.update]
  | reasoning k => simp [CodexState.recall, Function.update]

/-- **A handler's result reads as a touch**: it emits what the touch emits, and
remembers what the touch leaves. -/
def Reads (rt : CodexRuntime) (s : CodexState) (result : Option (CodexState × List Event))
    (touch : Option ItemTouch) : Prop :=
  result.map (Prod.map CodexState.recall id) = touch.map ((snapshots rt).apply s.recall)

theorem reads_emit (rt : CodexRuntime) (s : CodexState) (out : List Event) :
    Reads rt s (some (s, out)) (some (.emit out)) := rfl

theorem reads_agentMessage (s : CodexState) (hitem : ev.getDict "item" = some item)
    (htype : (item.get "type").isText "agent_message" = true) :
    Reads rt s (handleAgentMessage s ev) ((agentText item).bind (textTouch .agent item)) := by
  unfold Reads handleAgentMessage
  simp only [hitem, htype, Option.bind_eq_bind, Option.bind_some, Bool.not_true,
    Bool.false_eq_true, if_false]
  cases agentText item with
  | none => rfl
  | some text =>
    simp only [Option.bind_some, textTouch]
    cases text.truthy with
    | false => rfl
    | true =>
      simp only [Bool.not_true, Bool.false_eq_true, if_false, cumulativeDelta]
      cases (item.getD "id" (.str "")).asKey with
      | none => rfl
      | some key =>
        cases text.asSeq with
        | none => rfl
        | some full =>
          simp only [Option.bind_eq_bind, Option.bind_some, Option.map_some]
          show Option.map _ (ite _ _ _) = some (Function.update s.recall (.agent key) (some full),
            renderDelta makeTextEvent (s.lastAgentText key) full)
          rw [renderDelta, ← recall_agent]
          split <;> rfl

theorem reads_reasoning (s : CodexState) (hitem : ev.getDict "item" = some item)
    (htype : (item.get "type").isText "reasoning" = true) :
    Reads rt s (handleReasoning s ev)
      ((reasoningText item).bind (textTouch .reasoning item)) := by
  unfold Reads handleReasoning
  simp only [hitem, htype, Option.bind_eq_bind, Option.bind_some, Bool.not_true,
    Bool.false_eq_true, if_false]
  cases reasoningText item with
  | none => rfl
  | some text =>
    simp only [Option.bind_some, textTouch]
    cases text.truthy with
    | false => rfl
    | true =>
      simp only [Bool.not_true, Bool.false_eq_true, if_false, cumulativeDelta]
      cases (item.getD "id" (.str "")).asKey with
      | none => rfl
      | some key =>
        cases text.asSeq with
        | none => rfl
        | some full =>
          simp only [Option.bind_eq_bind, Option.bind_some, Option.map_some]
          show Option.map _ (ite _ _ _)
            = some (Function.update s.recall (.reasoning key) (some full),
              renderDelta makeThinkingEvent (s.lastReasoningText key) full)
          rw [renderDelta, ← recall_reasoning]
          split <;> rfl

theorem reads_todoList (s : CodexState) (hitem : ev.getDict "item" = some item)
    (htype : (item.get "type").isText "todo_list" = true) :
    Reads rt s (handleTodoList s ev) (todoTouch item) := by
  unfold Reads handleTodoList todoTouch
  simp only [hitem, htype, Option.bind_eq_bind, Option.bind_some, Bool.not_true,
    Bool.false_eq_true, if_false]
  split
  · next items _ =>
    cases (todoLines items).isEmpty with
    | true =>
      simp only [if_true]
      split
      · cases (item.getD "id" (.str "")).asKey with
        | none => rfl
        | some key =>
          simp only [Option.bind_some, Option.map_some]
          show some (CodexState.recall _, []) = some (Function.update s.recall (.todo key) none, [])
          rw [recall_todo, Option.map_none]
      · rfl
    | false =>
      simp only [Bool.false_eq_true, if_false]
      split
      · cases (item.getD "id" (.str "")).asKey with
        | none => rfl
        | some key =>
          simp only [Option.bind_some, Option.map_some]
          show Option.map _ (ite _ _ _)
            = some (Function.update s.recall (.todo key) (some (.text (joinLines (todoLines items)))),
              render (.todo key) ((s.lastTodoText key).map .text)
                (.text (joinLines (todoLines items))))
          by_cases hsame : s.lastTodoText key = some (joinLines (todoLines items))
          · -- the text is the one remembered: it is remembered on
            have hrecall : s.recall (.todo key) = some (.text (joinLines (todoLines items))) := by
              simp [CodexState.recall, hsame]
            rw [if_pos hsame, hsame, ← hrecall, Function.update_eq_self]
            simp [render, Json.Seq.sameText]
          · rw [if_neg hsame]
            have hrender : render (.todo key) ((s.lastTodoText key).map .text)
                (.text (joinLines (todoLines items)))
                  = [makeTextEvent (.str (joinLines (todoLines items)))] := by
              cases hlast : s.lastTodoText key with
              | none => rfl
              | some last =>
                rw [hlast] at hsame
                have hne : last ≠ joinLines (todoLines items) := fun h => hsame (congrArg some h)
                simp [render, Json.Seq.sameText, hne, Json.Seq.toJson]
            rw [hrender, Option.map_some, Prod.map_apply, recall_todo, Option.map_some]
            rfl
      · rfl
  · rfl

/-! ## One handler handles an item -/

/-- A handler that has nothing to do with an event. -/
def Passes (handler : CodexState → Event → Option (CodexState × List Event)) (ev : Event) : Prop :=
  ∀ s, handler s ev = some (s, [])

theorem runHandlers_of_passes
    {handlers : List (CodexState → Event → Option (CodexState × List Event))}
    (h : ∀ handler ∈ handlers, Passes handler ev) (s : CodexState) :
    runHandlers handlers s ev = some (s, []) := by
  induction handlers with
  | nil => rfl
  | cons handler handlers ih =>
    obtain ⟨hfirst, hrest⟩ := List.forall_mem_cons.mp h
    simp only [runHandlers, hfirst s, Option.bind_eq_bind, Option.bind_some, ih hrest,
      List.append_nil]

theorem runHandlers_cons_of_passes
    {handler : CodexState → Event → Option (CodexState × List Event)} (h : Passes handler ev)
    (handlers : List (CodexState → Event → Option (CodexState × List Event)))
    (s : CodexState) :
    runHandlers (handler :: handlers) s ev = runHandlers handlers s ev := by
  rw [runHandlers, h s]
  simp only [Option.bind_eq_bind, Option.bind_some]
  cases runHandlers handlers s ev with
  | none => rfl
  | some p => rfl

theorem runHandlers_cons_of_rest
    (handler : CodexState → Event → Option (CodexState × List Event))
    {handlers : List (CodexState → Event → Option (CodexState × List Event))}
    (h : ∀ handler ∈ handlers, Passes handler ev) (s : CodexState) :
    runHandlers (handler :: handlers) s ev = handler s ev := by
  rw [runHandlers]
  cases handler s ev with
  | none => rfl
  | some p =>
    simp only [Option.bind_eq_bind, Option.bind_some, runHandlers_of_passes h,
      List.append_nil]

theorem passes_agentMessage (hitem : ev.getDict "item" = some item)
    (htype : (item.get "type").isText "agent_message" = false) :
    Passes handleAgentMessage ev := by
  intro s
  simp [handleAgentMessage, hitem, htype]

theorem passes_reasoning (hitem : ev.getDict "item" = some item)
    (htype : (item.get "type").isText "reasoning" = false) : Passes handleReasoning ev := by
  intro s
  simp [handleReasoning, hitem, htype]

theorem passes_toolItem (hitem : ev.getDict "item" = some item)
    (htype : toolItemSpec (item.get "type") = some none) : Passes handleToolItem ev := by
  intro s
  simp [handleToolItem, hitem, htype]

theorem passes_fileChange (hitem : ev.getDict "item" = some item)
    (htype : (item.get "type").isText "file_change" = false) : Passes handleFileChange ev := by
  intro s
  simp [handleFileChange, hitem, htype]

theorem passes_mcpToolCall (hitem : ev.getDict "item" = some item)
    (htype : (item.get "type").isText "mcp_tool_call" = false) :
    Passes (handleMcpToolCall rt) ev := by
  intro s
  simp [handleMcpToolCall, hitem, htype]

theorem passes_todoList (hitem : ev.getDict "item" = some item)
    (htype : (item.get "type").isText "todo_list" = false) : Passes handleTodoList ev := by
  intro s
  simp [handleTodoList, hitem, htype]

theorem passes_error (hitem : ev.getDict "item" = some item)
    (htype : (item.get "type").isText ET.error = false) : Passes (handleError rt) ev := by
  intro s
  simp [handleError, hitem, htype]

theorem eq_of_toolItemSpec {itemType : Json} {spec : ToolItemSpec}
    (h : toolItemSpec itemType = some (some spec)) :
    itemType = .str "command_execution" ∨ itemType = .str "web_search" := by
  cases itemType with
  | str t =>
    by_cases h₁ : t = "command_execution"
    · exact Or.inl (congrArg _ h₁)
    · by_cases h₂ : t = "web_search"
      · exact Or.inr (congrArg _ h₂)
      · simp [toolItemSpec, Json.asKey, h₁, h₂] at h
  | _ => simp [toolItemSpec, Json.asKey, Json.asNumber] at h

/-- **An item is read as the touch of its type**: of the handlers, which are
all called, the one of its type has to do with it. -/
theorem reads_translateItemEvent (rt : CodexRuntime) (s : CodexState) (ev : Event) :
    Reads rt s (translateItemEvent rt s ev) ((ev.getDict "item").bind (itemTouch rt ev)) := by
  unfold translateItemEvent itemHandlers
  cases hitem : ev.getDict "item" with
  | none =>
    have hraises : handleAgentMessage s ev = none := by simp [handleAgentMessage, hitem]
    rw [runHandlers, hraises]
    rfl
  | some item =>
    rw [Option.bind_some, itemTouch]
    have hother : ∀ {t u : String}, item.get "type" = .str t → t ≠ u →
        (item.get "type").isText u = false := by
      intro t u ht hne
      rw [ht]
      exact beq_false_of_ne hne
    have hnoTool : ∀ {t : String}, item.get "type" = .str t → t ≠ "command_execution" →
        t ≠ "web_search" → toolItemSpec (item.get "type") = some none := by
      intro t ht h₁ h₂
      rw [ht]
      simp [toolItemSpec, Json.asKey, h₁, h₂]
    have hrest : ∀ {t : String}, item.get "type" = .str t → t ≠ "file_change" →
        t ≠ "mcp_tool_call" → t ≠ "todo_list" → t ≠ ET.error →
        ∀ h ∈ [handleFileChange, handleMcpToolCall rt, handleTodoList, handleError rt],
          Passes h ev := by
      intro t ht h₁ h₂ h₃ h₄
      simp only [List.forall_mem_cons]
      exact ⟨passes_fileChange hitem (hother ht h₁), passes_mcpToolCall hitem (hother ht h₂),
        passes_todoList hitem (hother ht h₃), passes_error hitem (hother ht h₄),
        fun _ h => absurd h List.not_mem_nil⟩
    by_cases hagent : (item.get "type").isText "agent_message" = true
    · have htype := eq_of_isText hagent
      rw [if_pos hagent, runHandlers_cons_of_rest _ (List.forall_mem_cons.mpr
        ⟨passes_reasoning hitem (hother htype (by decide)), List.forall_mem_cons.mpr
          ⟨passes_toolItem hitem (hnoTool htype (by decide) (by decide)),
            hrest htype (by decide) (by decide) (by decide) (by decide)⟩⟩)]
      exact reads_agentMessage s hitem hagent
    rw [if_neg hagent,
      runHandlers_cons_of_passes (passes_agentMessage hitem (eq_false_of_ne_true hagent))]
    by_cases hreasoning : (item.get "type").isText "reasoning" = true
    · have htype := eq_of_isText hreasoning
      rw [if_pos hreasoning, runHandlers_cons_of_rest _ (List.forall_mem_cons.mpr
        ⟨passes_toolItem hitem (hnoTool htype (by decide) (by decide)),
          hrest htype (by decide) (by decide) (by decide) (by decide)⟩)]
      exact reads_reasoning s hitem hreasoning
    rw [if_neg hreasoning,
      runHandlers_cons_of_passes
        (passes_reasoning hitem (eq_false_of_ne_true hreasoning))]
    cases hspec : toolItemSpec (item.get "type") with
    | none =>
      have hraises : handleToolItem s ev = none := by simp [handleToolItem, hitem, hspec]
      rw [runHandlers, hraises]
      rfl
    | some spec =>
      cases spec with
      | some spec =>
        have hpass : ∀ h ∈ [handleFileChange, handleMcpToolCall rt, handleTodoList,
            handleError rt], Passes h ev := by
          rcases eq_of_toolItemSpec hspec with htype | htype
          · exact hrest htype (by decide) (by decide) (by decide) (by decide)
          · exact hrest htype (by decide) (by decide) (by decide) (by decide)
        have hhandled : handleToolItem s ev = some (s, toolItemEvents spec ev item) := by
          simp [handleToolItem, hitem, hspec]
        rw [runHandlers_cons_of_rest _ hpass, hhandled, Option.bind_some]
        exact reads_emit rt s _
      | none =>
        rw [runHandlers_cons_of_passes (passes_toolItem hitem hspec), Option.bind_some]
        by_cases hfile : (item.get "type").isText "file_change" = true
        · have htype := eq_of_isText hfile
          rw [runHandlers_cons_of_rest _ (by
            simp only [List.forall_mem_cons]
            exact ⟨passes_mcpToolCall hitem (hother htype (by decide)),
              passes_todoList hitem (hother htype (by decide)),
              passes_error hitem (hother htype (by decide)),
              fun _ h => absurd h List.not_mem_nil⟩)]
          simp only [hfile, if_true]
          unfold handleFileChange
          cases ev.hasType "item.completed" with
          | false => exact reads_emit rt s []
          | true =>
            simp only [Bool.not_true, Bool.false_eq_true, if_false, hitem, hfile,
              Option.bind_eq_bind, Option.bind_some, if_true]
            cases fileChangeEvents item with
            | none => rfl
            | some events => exact reads_emit rt s events
        rw [runHandlers_cons_of_passes
          (passes_fileChange hitem (eq_false_of_ne_true hfile))]
        simp only [hfile, Bool.false_eq_true, if_false]
        by_cases hmcp : (item.get "type").isText "mcp_tool_call" = true
        · have htype := eq_of_isText hmcp
          have hhandled : handleMcpToolCall rt s ev = some (s, mcpToolCallEvents rt ev item) := by
            simp [handleMcpToolCall, hitem, hmcp]
          rw [if_pos hmcp, runHandlers_cons_of_rest _ (List.forall_mem_cons.mpr
            ⟨passes_todoList hitem (hother htype (by decide)), List.forall_mem_cons.mpr
              ⟨passes_error hitem (hother htype (by decide)),
                fun _ h => absurd h List.not_mem_nil⟩⟩), hhandled]
          exact reads_emit rt s _
        rw [if_neg hmcp, runHandlers_cons_of_passes
          (passes_mcpToolCall hitem (eq_false_of_ne_true hmcp))]
        by_cases htodo : (item.get "type").isText "todo_list" = true
        · have htype := eq_of_isText htodo
          rw [if_pos htodo, runHandlers_cons_of_rest _ (List.forall_mem_cons.mpr
            ⟨passes_error hitem (hother htype (by decide)),
              fun _ h => absurd h List.not_mem_nil⟩)]
          exact reads_todoList s hitem htodo
        rw [if_neg htodo,
          runHandlers_cons_of_passes (passes_todoList hitem (eq_false_of_ne_true htodo)),
          runHandlers_cons_of_rest _ (fun _ h => absurd h List.not_mem_nil)]
        by_cases herror : (item.get "type").isText ET.error = true
        · have hhandled : handleError rt s ev = some (s, [itemErrorEvent rt ev item]) := by
            simp [handleError, hitem, herror]
          rw [if_pos herror, hhandled]
          exact reads_emit rt s _
        · rw [if_neg herror, passes_error hitem (eq_false_of_ne_true herror) s]
          exact reads_emit rt s []

theorem translateEvent_eq (rt : CodexRuntime) (s : CodexState) (ev : Event) :
    ((translator rt).step s ev).map (Prod.map CodexState.recall id)
      = (snapshots rt).machine.step s.recall ev := by
  show Reads rt s (translateEvent rt s ev) (touch rt ev)
  unfold translateEvent touch
  split
  · exact reads_emit rt s _
  · split
    · exact reads_emit rt s _
    · split
      · cases turnCompletedEvent rt ev with
        | none => rfl
        | some result => exact reads_emit rt s [result]
      · split
        · exact reads_emit rt s _
        · split
          · exact reads_translateItemEvent rt s ev
          · exact reads_emit rt s []

/-! ## A translator started behind the cursor -/

/-- What a snapshot can be: some text that grows, or the text of a todo list. -/
def Cell.Holds : Cell → Json.Seq → Prop
  | .agent _, full => 0 < full.length
  | .reasoning _, full => 0 < full.length
  | .todo _, text => ∃ t, text = .text t

theorem of_textTouch {cell : Json.Key → Cell} {item : Dict} {text : Json} {c : Cell}
    {full : Json.Seq} (h : textTouch cell item text = some (.snapshot c full)) :
    0 < full.length ∧ ∃ key, c = cell key := by
  unfold textTouch at h
  cases htruthy : text.truthy with
  | false =>
    rw [htruthy] at h
    cases h
  | true =>
    rw [htruthy] at h
    obtain ⟨key, -, h⟩ := Option.bind_eq_some_iff.mp h
    obtain ⟨full', hfull, h⟩ := Option.bind_eq_some_iff.mp h
    cases h
    exact ⟨Json.length_pos_of_truthy htruthy hfull, key, rfl⟩

theorem of_todoTouch {item : Dict} {c : Cell} {text : Json.Seq}
    (h : todoTouch item = some (.snapshot c text)) : c.Holds text := by
  unfold todoTouch at h
  split at h
  · dsimp only at h
    split at h
    · split at h
      · obtain ⟨key, -, h⟩ := Option.map_eq_some_iff.mp h
        cases h
      · cases h
    · split at h
      · obtain ⟨key, -, h⟩ := Option.map_eq_some_iff.mp h
        cases h
        exact ⟨_, rfl⟩
      · cases h
  · cases h

theorem of_itemTouch {ev : Event} {item : Dict} {c : Cell} {text : Json.Seq}
    (h : itemTouch rt ev item = some (.snapshot c text)) : c.Holds text := by
  simp only [itemTouch] at h
  split at h
  · obtain ⟨full, -, h⟩ := Option.bind_eq_some_iff.mp h
    obtain ⟨hpos, key, rfl⟩ := of_textTouch h
    exact hpos
  · split at h
    · obtain ⟨full, -, h⟩ := Option.bind_eq_some_iff.mp h
      obtain ⟨hpos, key, rfl⟩ := of_textTouch h
      exact hpos
    · obtain ⟨spec, -, h⟩ := Option.bind_eq_some_iff.mp h
      split at h
      · cases h
      · split at h
        · split at h
          · obtain ⟨events, -, h⟩ := Option.map_eq_some_iff.mp h
            cases h
          · cases h
        · split at h
          · cases h
          · split at h
            · exact of_todoTouch h
            · split at h <;> cases h

theorem holds_of_touch {ev : Event} {c : Cell} {text : Json.Seq}
    (h : touch rt ev = some (.snapshot c text)) : c.Holds text := by
  unfold touch at h
  split at h
  · cases h
  · split at h
    · cases h
    · split at h
      · obtain ⟨result, -, h⟩ := Option.map_eq_some_iff.mp h
        cases h
      · split at h
        · cases h
        · split at h
          · obtain ⟨item, -, h⟩ := Option.bind_eq_some_iff.mp h
            exact of_itemTouch h
          · cases h

theorem length_renderDelta_le (make : Json → Event) (last : Option Json.Seq) (full : Json.Seq) :
    (renderDelta make last full).length ≤ (renderDelta make none full).length := by
  simp only [renderDelta, Json.Seq.length_drop, Option.map_none, Option.getD_none, Nat.sub_zero]
  by_cases hzero : full.length - (last.map Json.Seq.length).getD 0 = 0
  · rw [if_pos hzero]
    exact Nat.zero_le _
  · rw [if_neg hzero, if_neg (fun h => hzero (by rw [h, Nat.zero_sub]))]
    exact Nat.le_refl _

theorem length_render_le (c : Cell) (last : Option Json.Seq) (full : Json.Seq) :
    (render c last full).length ≤ (render c none full).length := by
  cases c with
  | agent key => exact length_renderDelta_le _ _ _
  | reasoning key => exact length_renderDelta_le _ _ _
  | todo key =>
    simp only [render]
    split
    · exact Nat.zero_le _
    · exact Nat.le_refl _

/-- **What is new is not the whole**, where something was there before. -/
theorem renderDelta_ne {make : Json → Event} (hmake : ∀ x y, make x = make y → x = y)
    {last full : Json.Seq} (hlast : 0 < last.length) (hfull : 0 < full.length) :
    renderDelta make (some last) full ≠ renderDelta make none full := by
  intro h
  simp only [renderDelta, Json.Seq.length_drop, Option.map_none, Option.getD_none,
    Option.map_some, Option.getD_some, if_neg (Nat.ne_of_gt hfull), Json.Seq.drop_zero] at h
  split at h
  · cases h
  · have hdrop := Json.Seq.toJson_injective (hmake _ _ (List.cons.inj h).1)
    have hlen := congrArg Json.Seq.length hdrop
    rw [Json.Seq.length_drop] at hlen
    omega

/-- **Nothing is repeated across a cursor.** What is remembered at the cursor
and has a snapshot behind it is a todo list, and the snapshot differs. -/
def NothingRepeated (rt : CodexRuntime) (before after : List Event) : Prop :=
  ∀ c last text, (snapshots rt).remembered c before = some last →
    (snapshots rt).firstTouch c after = some (some text) →
    ∃ key, c = .todo key ∧ last ≠ text

theorem render_eq_iff {c : Cell} {last text : Json.Seq} (hlast : c.Holds last)
    (htext : c.Holds text) :
    render c (some last) text = render c none text ↔ ∃ key, c = .todo key ∧ last ≠ text := by
  cases c with
  | agent key =>
    refine ⟨fun h => absurd h (renderDelta_ne ?_ hlast htext), fun ⟨_, h, _⟩ => (by cases h)⟩
    intro x y h
    simpa [makeTextEvent] using h
  | reasoning key =>
    refine ⟨fun h => absurd h (renderDelta_ne ?_ hlast htext), fun ⟨_, h, _⟩ => (by cases h)⟩
    intro x y h
    simpa [makeThinkingEvent] using h
  | todo key =>
    obtain ⟨t, rfl⟩ := hlast
    obtain ⟨u, rfl⟩ := htext
    by_cases htu : t = u
    · subst htu
      simp [render, Json.Seq.sameText]
    · simp [render, Json.Seq.sameText, htu]

theorem recall_empty : ({} : CodexState).recall = Snapshots.empty := by
  funext c
  cases c <;> rfl

theorem follow_eq (s : CodexState) (events : List Event) :
    (snapshots rt).machine.follow s.recall events
      = (((translator rt).follow s events).1,
        ((translator rt).follow s events).2.map CodexState.recall) :=
  Machine.follow_map (translateEvent_eq rt) s events

theorem isSome_follow (s : CodexState) (events : List Event) :
    ((translator rt).follow s events).2.isSome
      = ((translator rt).follow {} events).2.isSome := by
  have hlags : Snapshots.Lags s.recall ({} : CodexState).recall := by
    rw [recall_empty]
    exact fun _ => Or.inr rfl
  have hno : (snapshots rt).machine.EmitsNoMore Snapshots.Lags :=
    Snapshots.emitsNoMore length_render_le
  have hsome := hno.isSome_eq hlags events
  rw [follow_eq, follow_eq] at hsome
  simpa using hsome

/-- **When a fresh Codex translator may go on** behind events that were
translated: nothing is repeated across the cursor. -/
theorem resumes_iff {before : List Event} {s : CodexState} {out : List Event}
    (h : (translator rt).run {} before = some (s, out)) (after : List Event) :
    ((translator rt).follow s after).1 = ((translator rt).follow {} after).1 ↔
      NothingRepeated rt before after := by
  have hfollow : ∀ t, ((translator rt).follow t after).1
      = ((snapshots rt).machine.follow t.recall after).1 := fun t => by rw [follow_eq]
  have hrun : (snapshots rt).machine.run Snapshots.empty before = some (s.recall, out) := by
    have heq := @follow_eq rt {} before
    rw [Machine.follow_of_run h, recall_empty] at heq
    rw [Machine.run_of_follow (congrArg Prod.snd heq), heq]
  rw [hfollow, hfollow, recall_empty, Snapshots.resumes_iff length_render_le hrun]
  refine forall_congr' fun c => forall_congr' fun last => forall_congr' fun text =>
    forall_congr' fun hremembered => forall_congr' fun hfirst => ?_
  obtain ⟨_, -, hlast⟩ := Snapshots.exists_of_remembered hremembered
  obtain ⟨_, -, htext⟩ := Snapshots.exists_of_firstTouch hfirst
  exact render_eq_iff (holds_of_touch hlast) (holds_of_touch htext)

end

end Codex
