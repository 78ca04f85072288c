import CharlieBot.MessageEvents
import CharlieBot.Lib.Machine

/-!
# The message aggregator

The aggregator turns raw chat events into what the chat renders. It holds
a draft – assistant text, thinking text and tool rows – that grows while
an answer streams, and every event that ends the draft emits it as a
message before its own. Two shapes come out: a *message*, which is
appended to the chat for good, and a *stream* delta, a snapshot of the
draft that replaces the previous one.

The history, the catch-up walk and the live broadcast all feed events
through `MessageAggregator.feedAt`; they differ in the order they feed
and in whether they ask for stream deltas. That last difference does not
reach the messages: **what a fold commits is what the fold of the draft
commits** (`MessageAggregator.feedIndexed_draft`, `feedAll_draft`), and
the draft knows nothing of snapshots.

A step that raises returns `none`.
-/

/-- **What the aggregator emits.** -/
inductive Delta where
  /-- A finalized message, appended to the rendered chat. -/
  | message (msg : Dict)
  /-- The draft in progress, replacing the streaming preview. -/
  | stream (msg : Dict)

namespace Delta

def message? : Delta → Option Dict
  | message msg => some msg
  | stream _ => none

end Delta

/-! ## Previews and blocks -/

/-- The bound of one tool row's rendered texts. -/
def toolPreviewChars : ℕ := 500

/-- A text over the bound. -/
def overLong : Json → Bool
  | .str s => toolPreviewChars < s.length
  | _ => false

/-- A text cut to the bound; anything else as it is. -/
def clipped : Json → Json
  | .str s => .str (String.ofList (s.toList.take toolPreviewChars))
  | v => v

def inputValues : Json → List (String × Json)
  | .obj fs => fs
  | _ => []

/-- One tool row's wire shape: over-long output and input values are cut
and marked as cut. -/
def toolPreview (tool : Dict) : Dict :=
  let output := tool.get "output"
  let inputVal := tool.get "input"
  let outputTrims := overLong output
  let inputTrims := (inputValues inputVal).any fun f => overLong f.2
  let preview :=
    if outputTrims then
      (Dict.set tool "output" (clipped output)).set "output_truncated" (.bool true)
    else tool
  if inputTrims then
    (Dict.set preview "input" (.obj ((inputValues inputVal).map fun f =>
      (f.1, clipped f.2)))).set "input_truncated" (.bool true)
  else preview

/-- The `field` of every block that is a dict typed `kind`. -/
def typedFields (kind field : String) (blocks : List Json) : List Json :=
  blocks.filterMap fun
    | .obj b => if (Dict.get b "type").isText kind then some (Dict.getD b field (.str ""))
      else none
    | _ => none

/-- The joined `blockType` fields of a message's blocks of that type. -/
def joinBlocks (msg : Dict) (blockType : String) : Option String :=
  match (msg.get "content").or (.arr []) with
  | .arr blocks => Json.joinTexts "" (typedFields blockType blockType blocks)
  | _ => some ""

def extractTextFromMessage (msg : Dict) : Option String := joinBlocks msg "text"

def extractThinkingFromMessage (msg : Dict) : Option String :=
  joinBlocks msg "thinking"

def extractToolResultText (block : Dict) : Option String :=
  match block.getD "content" (.str "") with
  | .arr parts => Json.joinTexts "\n" (typedFields "text" "text" parts)
  | raw => some raw.toText

/-! ## Events that render as one message

Each handler takes the event to the message it renders as, to nothing
when it renders as none, and raises where the source does. -/

def systemLine (content : String) : Dict :=
  [("role", .str "system"), ("content", .str content)]

def masterDoneMsg (ev : Event) : Option (Option Dict) :=
  if (ev.get ET.stillThinking).truthy then some none
  else some (some [("role", .str "separator"),
    (ET.thinkingSeconds, ev.get ET.thinkingSeconds)])

def assistantErrorMsg (ev : Event) : Option (Option Dict) :=
  some (systemLine ("Error: " ++ (ev.getD "content" (.str "")).toText))

def errorMsg (ev : Event) : Option (Option Dict) :=
  some (systemLine ("Error: " ++ (((ev.get "content").or (ev.get "message")).or
    (.str "Unknown error")).toText))

def taskDelegatedMsg (ev : Event) : Option (Option Dict) :=
  some (some [
    ("role", .str ET.taskDelegated),
    ("content", .str "Task delegated"),
    ("thread_id", ev.getD "thread_id" (.str "")),
    (ET.delegateInvocation, ev.get ET.delegateInvocation),
    ("backend", ((ev.get "backend").or (ev.get "resolved_backend")).or (.str "")),
    ("model", ((ev.get "model").or (ev.get "resolved_model")).or (.str "")),
    ("timestamp", (ev.get "timestamp").or (ev.get "created_at"))])

def workerSummaryMsg (ev : Event) : Option (Option Dict) :=
  some (some ([
    ("role", .str ET.workerSummary),
    ("content", ev.getD "content" (.str "")),
    ("thread_id", ev.get "thread_id")]
    ++ (if (ev.get "origin_session_id").isNone then []
      else [("origin_session_id", ev.get "origin_session_id")])))

def handlerResultMsg (ev : Event) : Option (Option Dict) :=
  let icon := if (ev.get "status").isText "ok" then "✓" else "✗"
  some (systemLine (icon ++ " " ++ (ev.getD "task" (.str "")).toText ++ ": "
    ++ (ev.getD "message" (.str "")).toText))

/-- The model that compacted, as its family name; empty for the
conversation's own compaction. Model names are ASCII. -/
def compactingModelNote (ev : Event) : List Char :=
  match ev.get "model" with
  | .str model =>
    if model.isEmpty then []
    else
      let parts := Text.splitOnChar '-' (model.toList.map Char.toLower)
      let family :=
        if parts.head? = some "claude".toList then parts.getD 1 "claude".toList
        else parts.headD []
      "by ".toList ++ (match family with
        | [] => []
        | c :: cs => c.toUpper :: cs)
  | _ => []

/-- The line a compaction renders as. -/
def contextCompactedText (ev : Event) : Option String := do
  let trigger := ev.getD "trigger" (.str "auto")
  let note := Json.str (String.ofList (compactingModelNote ev))
  let preTokens := ev.get ET.compactPreTokens
  let qualifiers := [trigger, note].filter Json.truthy
  let head ←
    if qualifiers.isEmpty then some "Context compacted"
    else (Json.joinTexts ", " qualifiers).map fun q =>
      "Context compacted (" ++ q ++ ")"
  if preTokens.truthy then (preTokens.roundScaled 3).map fun k =>
    head ++ " — was " ++ (Json.int k).toText ++ "k tokens"
  else some head

def contextCompactedMsg (ev : Event) : Option (Option Dict) :=
  (contextCompactedText ev).map fun content =>
    some [("role", .str "system"), ("content", .str content),
      ("kind", .str ET.contextCompacted)]

def contextCompactFailedMsg (ev : Event) : Option (Option Dict) :=
  let error := ev.get "error"
  let note := compactingModelNote ev
  let head :=
    if note.isEmpty then "Compaction failed"
    else "Compaction " ++ String.ofList note ++ " failed"
  let content := if error.truthy then head ++ " — " ++ error.toText else head
  some (some [("role", .str "system"), ("kind", .str ET.contextCompactFailed),
    ("content", .str content)])

def claudeAccountLoginRequiredMsg (_ : Event) : Option (Option Dict) :=
  some (some [("role", .str "system"),
    ("kind", .str ET.claudeAccountLoginRequired),
    ("content",
      .str "One account in the Claude pool needs a new login; see the usage panel.")])

def resumeContextDroppedMsg (ev : Event) : Option (Option Dict) :=
  let reason := ev.get "reason"
  let msg :=
    if reason.isText "anchor_missing" then
      "Context not resumed: no previous session anchor was found"
    else if reason.isText "transcript_missing" then
      "Context not resumed: the previous session transcript is missing"
    else "Context not resumed"
  some (systemLine (msg ++ " — started a new conversation"))

def systemMsg (ev : Event) : Option (Option Dict) :=
  if (ev.get "subtype").isText "tui_menu_dismissed" then
    some (some [("role", .str "system"), ("content", ev.getD "content" (.str ""))])
  else some none

def cloneStartMsg (ev : Event) : Option (Option Dict) :=
  some (some [
    ("role", .str ET.cloneStart),
    ("content", ev.getD "parent_session_name" (.str "Unknown session")),
    ("parent_session_id", ev.getD "parent_session_id" (.str ""))])

def scheduledTriggerMsg (ev : Event) : Option (Option Dict) :=
  some (some [("role", .str ET.scheduledTrigger),
    ("content", ev.getD "content" (.str ""))])

def agentMessageMsg (ev : Event) : Option (Option Dict) :=
  some (some [
    ("role", .str ET.agentMessage),
    ("content", ev.getD "content" (.str "")),
    ("from_session", ev.getD "from_session" (.str "")),
    ("from_session_name", ev.getD "from_session_name" (.str ""))])

def slackReplyMsg (ev : Event) : Option (Option Dict) :=
  some (systemLine ("Posted to Slack: " ++ (ev.getD "content" (.str "")).toText))

def backendSwitchedMsg (ev : Event) : Option (Option Dict) :=
  some (systemLine ("Backend switched: " ++ (ev.getD "from" (.str "")).toText
    ++ " → " ++ (ev.getD "to" (.str "")).toText))

def backendOverlayInactiveMsg (ev : Event) : Option (Option Dict) :=
  let backend := (ev.getD "backend" (.str "")).toText
  if (ev.get "reason").isText "unreadable" then
    some (systemLine ("Backend " ++ backend ++ ": prompt_overlay '"
      ++ (ev.getD "overlay" (.str "")).toText ++ "' could not be loaded ("
      ++ (ev.getD "error" (.str "")).toText ++ ") — running without a fence"))
  else
    some (systemLine ("Backend " ++ backend
      ++ " declares no prompt_overlay — running without a fence"))

def modelFallbackNoticeMsg (ev : Event) : Option (Option Dict) :=
  (((ev.get "served_models").or (.arr [])).iter.bind (Json.joinTexts ", ")).map
    fun served => some (systemLine ("Served by " ++ served ++ " (configured "
      ++ ((ev.get "configured_model").or (.str "")).toText ++ ")"))

def scheduledRunSkippedMsg (ev : Event) : Option (Option Dict) :=
  some (systemLine ("Scheduled run of '" ++ (ev.getD "task" (.str "")).toText
    ++ "' skipped at " ++ (ev.getD "skipped_at" (.str "")).toText ++ ": "
    ++ (ev.getD "reason" (.str "")).toText))

/-- **The dispatch table** of the events that flush the draft and append
one message. -/
def simpleHandlers : List (String × (Event → Option (Option Dict))) := [
  (ET.masterDone, masterDoneMsg),
  (ET.assistantError, assistantErrorMsg),
  (ET.error, errorMsg),
  (ET.taskDelegated, taskDelegatedMsg),
  (ET.workerSummary, workerSummaryMsg),
  (ET.handlerResult, handlerResultMsg),
  (ET.contextCompacted, contextCompactedMsg),
  (ET.contextCompactFailed, contextCompactFailedMsg),
  (ET.resumeContextDropped, resumeContextDroppedMsg),
  (ET.claudeAccountLoginRequired, claudeAccountLoginRequiredMsg),
  (ET.system, systemMsg),
  (ET.cloneStart, cloneStartMsg),
  (ET.scheduledTrigger, scheduledTriggerMsg),
  (ET.agentMessage, agentMessageMsg),
  (ET.slackReply, slackReplyMsg),
  (ET.backendSwitched, backendSwitchedMsg),
  (ET.backendOverlayInactive, backendOverlayInactiveMsg),
  (ET.backendOverlayUndeclared, backendOverlayInactiveMsg),
  (ET.modelFallbackNotice, modelFallbackNoticeMsg),
  (ET.scheduledRunSkipped, scheduledRunSkippedMsg)]

/-- The handler of an event's type. A list or a dict cannot be looked up
and raises. -/
def handlerOf : Json → Option (Option (Event → Option (Option Dict)))
  | .str t => some (simpleHandlers.lookup t)
  | .arr _ => none
  | .obj _ => none
  | _ => some none

/-! ## The draft -/

/-- **The draft in progress**, and the event it was last touched by. -/
structure Draft where
  assistantBuf : String := ""
  thinkingBuf : String := ""
  /-- The timestamp the draft opened with, `None` where unset. -/
  lastAssistantTs : Json := .null
  /-- The index of the last event that touched the draft. -/
  lastEventIdx : ℕ := 0
  /-- The id of the last event that touched the draft, `None` where
  unset. -/
  lastEventId : Json := .null
  /-- The tool rows, oldest first. -/
  toolsBuf : List Dict := []

/-- The id an event without one is known under. -/
def legacyId (idx : ℕ) : Json :=
  .str (String.ofList ("legacy:".toList ++ Text.digits idx))

def eventId (ev : Event) (idx : ℕ) : Json :=
  .str ((ev.get "id").or (legacyId idx)).toText

namespace Draft

/-- Whether the draft holds anything. -/
def hasDraft (d : Draft) : Bool :=
  !(d.assistantBuf.isEmpty && d.toolsBuf.isEmpty && d.thinkingBuf.isEmpty)

def msg (d : Draft) : Dict := [
    ("role", .str "assistant"),
    ("content", .str d.assistantBuf),
    ("event_index", .int d.lastEventIdx),
    ("id", d.lastEventId.or (legacyId d.lastEventIdx)),
    ("timestamp", d.lastAssistantTs)]
  ++ (if d.toolsBuf.isEmpty then []
    else [("tools", .arr (d.toolsBuf.map .obj))])
  ++ (if d.thinkingBuf.isEmpty then []
    else [("thinking", .str d.thinkingBuf)])

/-- The draft as a message, when it holds anything. -/
def pendingDraftMessage (d : Draft) : Option Dict :=
  if d.hasDraft then some d.msg else none

/-- The draft, emptied. The index of the last touch is kept. -/
def cleared (d : Draft) : Draft := { lastEventIdx := d.lastEventIdx }

/-- Emits the draft as a message and empties it. -/
def flush (d : Draft) : Draft × List Dict :=
  if d.hasDraft then (d.cleared, [d.msg]) else (d, [])

/-- Opens a tool row; its output arrives later. -/
def bufferTool (d : Draft) (name toolInput : Json) : Draft :=
  let row : Dict := [("name", name), ("input", toolInput),
    ("output", .str ""), ("is_error", .bool false)]
  { d with toolsBuf := d.toolsBuf ++ [toolPreview row] }

/-- Stores a tool's output on the newest row. -/
def attachToolOutput (d : Draft) (output isError : Json) : Draft :=
  match d.toolsBuf.getLast? with
  | none => d
  | some row =>
    let row' := (Dict.set row "output" output).set "is_error" (.bool isError.truthy)
    { d with toolsBuf := d.toolsBuf.dropLast ++ [toolPreview row'] }

/-! ### One event

A step takes the draft to the next one, with the messages it commits and
whether it ends with a snapshot of the draft. -/

/-- What a step leaves: the draft, the messages, and whether a snapshot
follows. -/
abbrev Fed := Draft × List Dict × Bool

/-- Attaches a block's output when the block is a tool result and a tool
row is open. -/
def attachBlock (d : Draft) : Json → Option Draft
  | .obj b =>
    if (Dict.get b "type").isText "tool_result" && !d.toolsBuf.isEmpty then
      (extractToolResultText b).map fun text =>
        d.attachToolOutput (.str text) (Dict.getD b "is_error" (.bool false))
    else some d
  | _ => some d

/-- A user event that only carries tool results. -/
def feedToolResults (d : Draft) (ev : Event) : Option Fed := do
  let msg ← ((ev.get "message").or (.obj [])).asDict
  let blocks ← (msg.getD "content" (.arr [])).iter
  let d ← blocks.foldlM attachBlock d
  return (d, [], true)

def userMsg (ev : Event) (idx : ℕ) (content : Json) (uploadedFiles : List Json) :
    Dict := [
  ("role", .str "user"),
  ("content", content),
  ("uploaded_files", .arr uploadedFiles),
  ("is_voice", ev.getD "is_voice" (.bool false)),
  ("event_index", .int idx),
  ("id", eventId ev idx),
  ("timestamp", ev.get "timestamp")]

/-- A user event: the draft ends and the message follows. -/
def feedUser (d : Draft) (ev : Event) (idx : ℕ) : Option Fed :=
  if ev.has "message" && !ev.has "content" then d.feedToolResults ev
  else
    (MessageEvents.normalizeUserMessageEvent ev).map fun normalized =>
      (d.flush.1, d.flush.2 ++ [userMsg ev idx normalized.1 normalized.2], false)

def planMsg (ev : Event) (idx : ℕ) (content timestamp : Json) : Dict := [
  ("role", .str "plan"),
  ("content", content),
  ("event_index", .int idx),
  ("id", eventId ev idx),
  ("timestamp", timestamp)]

/-- A block that is a tool use, and whether the tool is the one that
submits a plan. -/
def toolUse : Json → Option (Dict × Bool)
  | .obj b =>
    if (Dict.get b "type").isText "tool_use" then
      some (b, (Dict.get b "name").isText "ExitPlanMode")
    else none
  | _ => none

/-- A submitted plan: its text, or the draft's text where it has none. -/
def planStep (ev : Event) (idx : ℕ) (d : Draft) (block : Json) :
    Option (Draft × List Dict) :=
  match toolUse block with
  | some (b, true) =>
    ((Dict.get b "input").or (.obj [])).asDict.map fun input =>
      let planText := input.getD "plan" (.str "")
      if planText.truthy then
        (d.flush.1, d.flush.2 ++ [planMsg ev idx planText (ev.get "timestamp")])
      else if d.assistantBuf.isEmpty then (d, [])
      else
        ({ d with assistantBuf := "", lastAssistantTs := .null, lastEventId := .null },
          [planMsg ev idx (.str d.assistantBuf) d.lastAssistantTs])
  | _ => some (d, [])

/-- The plans an assistant event submits, block by block. -/
def planMachine (ev : Event) (idx : ℕ) : Machine Draft Json Dict :=
  ⟨planStep ev idx⟩

/-- Opens a row for a tool use that submits no plan. -/
def bufferBlock (d : Draft) (block : Json) : Draft :=
  match toolUse block with
  | some (b, false) => d.bufferTool (b.getD "name" (.str "")) (b.getD "input" (.obj []))
  | _ => d

/-- Notes the event the draft was last touched by, when it holds
anything. -/
def touched (d : Draft) (evId : Json) : Draft :=
  if d.hasDraft then { d with lastEventId := evId } else d

/-- The thinking of an event replaces the draft's, when it has any. -/
def withThinking (d : Draft) (snapshot : String) : Draft :=
  if snapshot.isEmpty then d else { d with thinkingBuf := snapshot }

/-- The text of an event goes to the draft; a second text ends the draft
and opens the next. -/
def withText (d : Draft) (ev : Event) (text : String) : Draft × List Dict :=
  if !text.isEmpty && !d.assistantBuf.isEmpty then
    ({ d.flush.1 with
        lastAssistantTs := ev.get "timestamp"
        assistantBuf := d.flush.1.assistantBuf ++ text }, d.flush.2)
  else ({ d with assistantBuf := d.assistantBuf ++ text }, [])

/-- The draft an assistant event finds: touched by it, and stamped by it
where it holds no text. -/
def opened (d : Draft) (ev : Event) (idx : ℕ) : Draft :=
  { d with
    lastEventIdx := idx
    lastAssistantTs :=
      if d.assistantBuf.isEmpty then ev.get "timestamp" else d.lastAssistantTs }

/-- An assistant event: plans first, then tool uses, thinking and text. -/
def feedAssistant (d : Draft) (ev : Event) (idx : ℕ) : Option Fed := do
  let msg ← ((ev.get "message").or (.obj [])).asDict
  let blocks ← ((msg.get "content").or (.arr [])).iter
  let planned ← (planMachine ev idx).run (d.opened ev idx) blocks
  let thinking ← extractThinkingFromMessage msg
  let text ← extractTextFromMessage msg
  let written :=
    ((blocks.foldl bufferBlock planned.1).withThinking thinking).withText ev text
  return (written.1.touched (eventId ev idx), planned.2 ++ written.2, true)

/-- The timestamp of an event opens the draft's, where none is set. -/
def stamped (d : Draft) (ev : Event) : Draft :=
  if d.lastAssistantTs.isNone then { d with lastAssistantTs := ev.get "timestamp" }
  else d

def feedToolUse (d : Draft) (ev : Event) (idx : ℕ) : Fed :=
  let buffered := d.bufferTool (ev.getD "name" (.str "")) (ev.getD "input" (.obj []))
  (stamped { buffered with
    lastEventIdx := idx, lastEventId := eventId ev idx } ev, [], true)

/-- A tool result on its own; without an open row it is dropped. -/
def feedToolResult (d : Draft) (ev : Event) (idx : ℕ) : Fed :=
  if d.toolsBuf.isEmpty then (d, [], false)
  else
    ({ d.attachToolOutput (ev.getD "content" (.str ""))
        (ev.getD "is_error" (.bool false)) with lastEventIdx := idx }, [], true)

/-- A thinking fragment is appended to the draft's. -/
def feedThinking (d : Draft) (ev : Event) (idx : ℕ) : Fed :=
  let thought : Draft := { d with
    lastEventIdx := idx
    thinkingBuf := d.thinkingBuf ++ (ev.getD "content" (.str "")).toText }
  ((thought.stamped ev).touched (eventId ev idx), [], true)

/-- The fields every message of the dispatch table carries. -/
def completed (result : Dict) (ev : Event) (idx : ℕ) : Dict :=
  ((result.setDefault "timestamp" (ev.get "timestamp")).set "event_index" (.int idx)).set
    "id" (eventId ev idx)

/-- What the handler of an event's type renders: no handler, no message,
or one. A system event that renders as nothing leaves the draft open;
every other handled event ends it. -/
def rendered (d : Draft) (ev : Event) (idx : ℕ) : Option Dict → Fed
  | none => if ev.hasType ET.system then (d, [], false) else (d.flush.1, d.flush.2, false)
  | some result => (d.flush.1, d.flush.2 ++ [completed result ev idx], false)

/-- An event of the dispatch table. -/
def feedSimple (d : Draft) (ev : Event) (idx : ℕ) : Option Fed :=
  (handlerOf (ev.get "type")).bind fun
    | none => some (d, [], false)
    | some handler => (handler ev).map (d.rendered ev idx)

/-- **One event**, attributed to index `idx`. -/
def feedAt (d : Draft) (ev : Event) (idx : ℕ) : Option Fed :=
  if ev.hasType ET.user then d.feedUser ev idx
  else if ev.hasType ET.assistant then d.feedAssistant ev idx
  else if ev.hasType ET.toolUse then some (d.feedToolUse ev idx)
  else if ev.hasType ET.toolResult then some (d.feedToolResult ev idx)
  else if ev.hasType ET.thinking then some (d.feedThinking ev idx)
  else d.feedSimple ev idx

/-- The draft as a machine over indexed events, emitting the messages. -/
def machine : Machine Draft (ℕ × Event) Dict :=
  ⟨fun d e => (d.feedAt e.2 e.1).map fun r => (r.1, r.2.1)⟩

end Draft

/-! ## The aggregator -/

/-- **The aggregator's state**: the draft, and how far the stream was
fed. -/
structure MessageAggregator where
  /-- The index the caller attributes to the first event of its list. -/
  idxOffset : ℕ := 0
  /-- How many events were fed. -/
  processed : ℕ := 0
  draft : Draft := {}
  /-- Whether a step emits the draft snapshot. -/
  emitStreamDeltas : Bool := true

namespace MessageAggregator

/-- The draft as a message, when it holds anything. -/
def pendingDraftMessage (agg : MessageAggregator) : Option Dict :=
  agg.draft.pendingDraftMessage

/-- Emits the draft as a message and empties it. -/
def flushPending (agg : MessageAggregator) : MessageAggregator × List Delta :=
  ({ agg with draft := agg.draft.flush.1 }, agg.draft.flush.2.map .message)

/-- The snapshot of the draft, where snapshots are asked for. -/
def streamDelta (agg : MessageAggregator) : List Delta :=
  if agg.emitStreamDeltas then
    match agg.pendingDraftMessage with
    | none => []
    | some msg =>
      [.stream (if agg.draft.toolsBuf.isEmpty then msg
        else msg.set "tools"
          (.arr (agg.draft.toolsBuf.map fun t => .obj (toolPreview t))))]
  else []

/-- One event, attributed to index `idx`: the messages it commits, and a
snapshot of the draft behind them where the event ends with one. -/
def feedAt (agg : MessageAggregator) (ev : Event) (idx : ℕ) :
    Option (MessageAggregator × List Delta) :=
  (agg.draft.feedAt ev idx).map fun r =>
    let fed := { agg with draft := r.1 }
    (fed, r.2.1.map .message ++ if r.2.2 then fed.streamDelta else [])

/-! ### Lists of events -/

/-- One event of a live stream: it takes the next index. -/
def feed (agg : MessageAggregator) (ev : Event) :
    Option (MessageAggregator × List Delta) :=
  feedAt { agg with processed := agg.processed + 1 } ev (agg.idxOffset + agg.processed)

/-- One event under an index of its own, counted from the offset. -/
def feedIndexedStep (agg : MessageAggregator) (e : ℕ × Event) :
    Option (MessageAggregator × List Delta) :=
  feedAt { agg with processed := agg.processed + 1 } e.2 (agg.idxOffset + e.1)

/-- The aggregator as a machine over indexed events. -/
def indexedMachine : Machine MessageAggregator (ℕ × Event) Delta :=
  ⟨feedIndexedStep⟩

/-- The aggregator as a machine over a live stream. -/
def liveMachine : Machine MessageAggregator Event Delta := ⟨feed⟩

/-- Feeds projected events, each under its own index. -/
def feedIndexed (agg : MessageAggregator) (events : List (ℕ × Event)) :
    Option (MessageAggregator × List Delta) :=
  indexedMachine.run agg events

def feedAll (agg : MessageAggregator) (events : List Event) :
    Option (MessageAggregator × List Delta) :=
  liveMachine.run agg events

end MessageAggregator

open MessageAggregator

def committedMessages (deltas : List Delta) : List Dict :=
  deltas.filterMap Delta.message?

/-! ## The view of a whole list -/

/-- **The view of a list of events**: the committed messages and the
pending draft of one fold over the history order. -/
def eventsToView (events : List Event) (eventIndexOffset : ℕ) :
    Option (List Dict × Option Dict) := do
  let agg : MessageAggregator :=
    { idxOffset := eventIndexOffset, emitStreamDeltas := false }
  let projected ← MessageEvents.stableHistoryProjection events
  let (agg, deltas) ← agg.feedIndexed projected
  return (committedMessages deltas, agg.pendingDraftMessage)

/-- The messages of a list of events, the draft flushed at the end. -/
def eventsToMessages (events : List Event) (eventIndexOffset : ℕ) :
    Option (List Dict) := do
  let agg : MessageAggregator :=
    { idxOffset := eventIndexOffset, emitStreamDeltas := false }
  let projected ← MessageEvents.stableHistoryProjection events
  let (agg, deltas) ← agg.feedIndexed projected
  return committedMessages deltas ++ committedMessages agg.flushPending.2

/-! ## The messages are the draft's -/

theorem committedMessages_append (ds es : List Delta) :
    committedMessages (ds ++ es) = committedMessages ds ++ committedMessages es :=
  List.filterMap_append

@[simp] theorem committedMessages_map_message (msgs : List Dict) :
    committedMessages (msgs.map .message) = msgs := by
  unfold committedMessages
  rw [List.filterMap_map]
  exact List.filterMap_some

@[simp] theorem committedMessages_streamDelta (agg : MessageAggregator) :
    committedMessages agg.streamDelta = [] := by
  unfold streamDelta
  split
  · split <;> rfl
  · rfl

namespace MessageAggregator

/-- **An event commits the messages of the draft's step**, whether
snapshots are asked for or not. -/
theorem feedAt_committed {agg agg' : MessageAggregator} {ev : Event} {idx : ℕ}
    {ds : List Delta} (h : agg.feedAt ev idx = some (agg', ds)) :
    agg'.idxOffset = agg.idxOffset ∧ agg'.processed = agg.processed
      ∧ (agg.draft.feedAt ev idx).map (fun r => (r.1, r.2.1))
        = some (agg'.draft, committedMessages ds) := by
  obtain ⟨⟨d, msgs, streams⟩, hd, h⟩ := Option.map_eq_some_iff.mp h
  cases h
  refine ⟨rfl, rfl, ?_⟩
  rw [hd, committedMessages_append, committedMessages_map_message]
  cases streams
  · simp only [Option.map_some, Bool.false_eq_true, if_false]
    rw [show committedMessages [] = [] from rfl, List.append_nil]
  · simp only [Option.map_some, if_true, committedMessages_streamDelta,
      List.append_nil]

theorem feedAt_eq_none_iff (agg : MessageAggregator) (ev : Event) (idx : ℕ) :
    agg.feedAt ev idx = none ↔ agg.draft.feedAt ev idx = none :=
  Option.map_eq_none_iff

/-- Events under the indices the aggregator attributes to them. -/
def attributed (offset : ℕ) (events : List (ℕ × Event)) : List (ℕ × Event) :=
  events.map fun e => (offset + e.1, e.2)

/-- **A fold of indexed events commits the messages of the draft's
fold.** -/
theorem feedIndexed_draft (agg : MessageAggregator) (events : List (ℕ × Event)) :
    (agg.feedIndexed events).map (fun r => (r.1.draft, committedMessages r.2))
      = Draft.machine.run agg.draft (attributed agg.idxOffset events) := by
  induction events generalizing agg with
  | nil => rfl
  | cons e events ih =>
    show (Machine.run indexedMachine agg (e :: events)).map _
      = Machine.run Draft.machine agg.draft
        ((agg.idxOffset + e.1, e.2) :: attributed agg.idxOffset events)
    rw [Machine.run_cons, Machine.run_cons]
    show ((feedAt _ e.2 _).bind _).map _
      = ((agg.draft.feedAt e.2 (agg.idxOffset + e.1)).map _).bind _
    cases h : feedAt { agg with processed := agg.processed + 1 } e.2
        (agg.idxOffset + e.1) with
    | none =>
      rw [(feedAt_eq_none_iff _ _ _).mp h]
      rfl
    | some r =>
      obtain ⟨agg', ds⟩ := r
      obtain ⟨hoff, -, hd⟩ := feedAt_committed h
      rw [hd]
      have := ih agg'
      rw [hoff] at this
      simp only [Option.bind_some]
      rw [← this]
      show Option.map _ (Option.map _ (Machine.run indexedMachine agg' events)) = _
      unfold feedIndexed
      cases Machine.run indexedMachine agg' events with
      | none => rfl
      | some q => simp only [Option.map_some, committedMessages_append]

def numbered (idx : ℕ) (events : List Event) : List (ℕ × Event) :=
  (events.zipIdx idx).map fun e => (e.2, e.1)

theorem numbered_cons (idx : ℕ) (ev : Event) (events : List Event) :
    numbered idx (ev :: events) = (idx, ev) :: numbered (idx + 1) events := rfl

/-- **A live fold commits the messages of the draft's fold** over the
events in the order they came. -/
theorem feedAll_draft (agg : MessageAggregator) (events : List Event) :
    (agg.feedAll events).map (fun r => (r.1.draft, committedMessages r.2))
      = Draft.machine.run agg.draft
        (numbered (agg.idxOffset + agg.processed) events) := by
  induction events generalizing agg with
  | nil => rfl
  | cons ev events ih =>
    rw [numbered_cons, Machine.run_cons]
    show (Machine.run liveMachine agg (ev :: events)).map _ = _
    rw [Machine.run_cons]
    show ((feedAt _ ev _).bind _).map _
      = ((agg.draft.feedAt ev (agg.idxOffset + agg.processed)).map _).bind _
    cases h : feedAt { agg with processed := agg.processed + 1 } ev
        (agg.idxOffset + agg.processed) with
    | none =>
      rw [(feedAt_eq_none_iff _ _ _).mp h]
      rfl
    | some r =>
      obtain ⟨agg', ds⟩ := r
      obtain ⟨hoff, hproc, hd⟩ := feedAt_committed h
      rw [hd]
      have := ih agg'
      rw [hoff, hproc] at this
      simp only [Option.bind_some]
      show Option.map _ (Option.map _ (Machine.run liveMachine agg' events))
        = (Machine.run Draft.machine agg'.draft _).map _
      rw [← Nat.add_assoc] at this
      rw [← this]
      unfold feedAll
      cases Machine.run liveMachine agg' events with
      | none => rfl
      | some q => simp only [Option.map_some, committedMessages_append]

end MessageAggregator
