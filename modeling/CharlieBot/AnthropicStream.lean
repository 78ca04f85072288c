import CharlieBot.EventTypes
import CharlieBot.Lib.Machine
import CharlieBot.Lib.Transition

/-!
# A chat completion, streamed as Anthropic events

A model server that speaks the OpenAI protocol sends a completion in chunks, and
the proxy turns each into events of the Anthropic protocol as it comes: a message
starts, its content blocks start, grow and stop, and the message stops.

A text block is never open beside another: text closes the tool calls that are
open, and a tool call closes the text. Tool calls are not closed by one another,
since the arguments of parallel calls may come in turns; so several of them may be
open at once, and a call that text has closed is no longer known. What the events
of an accepted stream look like is said by a consumer that keeps the open blocks
and refuses whatever does not fit (`OpenBlocks`); it takes them all, and ends with no
block open (`framed_of_accepted`).
-/

namespace AnthropicProxy

/-! ## Messages and events -/

def stopReason (finishReason : Json) : Json :=
  if finishReason.isText "tool_calls" then .str "tool_use"
  else if finishReason.isText "length" then .str "max_tokens"
  else if finishReason.isNone || finishReason.isText "stop" then .str "end_turn"
  else finishReason

def usageFromOpenai (usage : Json) : Option Dict := do
  let usage ← (usage.or (.obj [])).asDict
  some [(ET.usageInputTokens, usage.getD "prompt_tokens" (.int 0)),
    (ET.usageOutputTokens, usage.getD "completion_tokens" (.int 0)),
    (ET.usageCacheCreationInputTokens, .int 0),
    (ET.usageCacheReadInputTokens, .int 0)]

inductive ContentBlock where
  | text (text : Json)
  | toolUse (id name input : Json)

structure AnthropicMessage where
  id : Json
  model : Json
  content : List ContentBlock := []
  stopReason : Json := .null
  usage : Dict

/-- What a content block grows by. -/
inductive BlockDelta where
  | text (text : Json)
  | inputJson (partialJson : Json)

inductive StreamEvent where
  | messageStart (message : AnthropicMessage)
  | contentBlockStart (index : ℕ) (block : ContentBlock)
  | contentBlockDelta (index : ℕ) (delta : BlockDelta)
  | contentBlockStop (index : ℕ)
  | messageDelta (stopReason : Json) (usage : Dict)
  | messageStop

/-! ## The translator -/

/-- **The translator** of a stream. -/
structure OpenAIChatStream where
  nextIndex : ℕ := 0
  /-- The text block that is open. -/
  textIndex : Option ℕ := none
  /-- The tool calls whose blocks are open, with their blocks. -/
  toolIndexes : List (Json.Key × ℕ) := []
  usage : Json := .obj []
  finishReason : Json := .null

namespace OpenAIChatStream

def startEvents (messageId model : String) : Option (List StreamEvent) := do
  let usage ← usageFromOpenai .null
  some [.messageStart { id := .str messageId, model := .str model, usage }]

variable (s : OpenAIChatStream)

def closeTextBlock : OpenAIChatStream × List StreamEvent :=
  match s.textIndex with
  | none => (s, [])
  | some index => ({ s with textIndex := none }, [.contentBlockStop index])

def closeToolBlocks : OpenAIChatStream × List StreamEvent :=
  ({ s with toolIndexes := [] }, s.toolIndexes.map fun t => .contentBlockStop t.2)

/-- `_ensure_text_block`, with the block that is open then. -/
def ensureTextBlock : ℕ × OpenAIChatStream × List StreamEvent :=
  match s.textIndex with
  | some index => (index, s, [])
  | none =>
    let (s, events) := s.closeToolBlocks
    (s.nextIndex, { s with textIndex := some s.nextIndex, nextIndex := s.nextIndex + 1 },
      events ++ [.contentBlockStart s.nextIndex (.text (.str ""))])

/-- The first delta of a tool call opens its block. -/
def openToolBlock (key : Json.Key) (toolId name : Json) :
    Option (OpenAIChatStream × List StreamEvent) :=
  -- "first streaming tool_call delta missing id or function.name"
  if !toolId.truthy || !name.truthy then none
  else
    let (s, events) := s.closeTextBlock
    some ({ s with nextIndex := s.nextIndex + 1
                   toolIndexes := s.toolIndexes ++ [(key, s.nextIndex)] },
      events ++ [.contentBlockStart s.nextIndex (.toolUse toolId name (.obj []))])

def handleToolDelta (toolCall : Json) : Option (OpenAIChatStream × List StreamEvent) := do
  let toolCall ← toolCall.asDict
  let callIndex := toolCall.get "index"
  -- "streaming tool_call missing index"
  if callIndex.isNone then none
  else
    let function ← ((toolCall.get "function").or (.obj [])).asDict
    let key ← callIndex.asKey
    let (s, events) ←
      if (s.toolIndexes.lookup key).isNone then
        s.openToolBlock key (toolCall.get "id") (function.get "name")
      else some (s, [])
    let arguments := function.get "arguments"
    if arguments.isNone then some (s, events)
    else
      let index ← s.toolIndexes.lookup key
      some (s, events ++ [.contentBlockDelta index (.inputJson arguments)])

def eventsForChoice (choice : Json) : Option (OpenAIChatStream × List StreamEvent) := do
  let choice ← choice.asDict
  let delta ← ((choice.get "delta").or (.obj [])).asDict
  let (s, events) :=
    if (delta.get "content").truthy then
      let (index, s, events) := s.ensureTextBlock
      (s, events ++ [.contentBlockDelta index (.text (delta.get "content"))])
    else (s, [])
  let calls ← ((delta.get "tool_calls").or (.arr [])).iter
  let (s, called) ← Machine.run ⟨handleToolDelta⟩ s calls
  let s :=
    if (choice.get "finish_reason").truthy then
      { s with finishReason := choice.get "finish_reason" }
    else s
  some (s, events ++ called)

def eventsForChunk (chunk : Json) : Option (OpenAIChatStream × List StreamEvent) := do
  let chunk ← chunk.asDict
  let s := if (chunk.get "usage").truthy then { s with usage := chunk.get "usage" } else s
  let choices ← ((chunk.get "choices").or (.arr [])).iter
  Machine.run ⟨eventsForChoice⟩ s choices

def finishEvents : Option (List StreamEvent) := do
  let (s, textClosed) := s.closeTextBlock
  let (s, toolsClosed) := s.closeToolBlocks
  let usage ← usageFromOpenai s.usage
  some (textClosed ++ toolsClosed
    ++ [.messageDelta (stopReason s.finishReason) usage, .messageStop])

end OpenAIChatStream

/-- **The events of a stream**, from its chunks up to where it ends. -/
def streamEvents (messageId model : String) (chunks : List Json) : Option (List StreamEvent) := do
  let started ← OpenAIChatStream.startEvents messageId model
  let (s, events) ← Machine.run ⟨OpenAIChatStream.eventsForChunk⟩ {} chunks
  let finished ← s.finishEvents
  some (started ++ events ++ finished)

/-! ## What a chunk says -/

structure ToolDelta where
  key : Json.Key
  id : Json
  name : Json
  arguments : Json

/-- What a chunk says, one thing at a time. -/
inductive Delta where
  | usage (usage : Json)
  | text (text : Json)
  | tool (call : ToolDelta)
  | finish (reason : Json)

/-- What a delta of a tool call says, where it is one. -/
def readToolDelta (toolCall : Json) : Option (List Delta) := do
  let toolCall ← toolCall.asDict
  if (toolCall.get "index").isNone then none
  else
    let function ← ((toolCall.get "function").or (.obj [])).asDict
    let key ← (toolCall.get "index").asKey
    some [.tool ⟨key, toolCall.get "id", function.get "name", function.get "arguments"⟩]

def readChoice (choice : Json) : Option (List Delta) := do
  let choice ← choice.asDict
  let delta ← ((choice.get "delta").or (.obj [])).asDict
  let calls ← ((delta.get "tool_calls").or (.arr [])).iter
  let tools ← calls.mapM readToolDelta
  some ((if (delta.get "content").truthy then [.text (delta.get "content")] else [])
    ++ (tools.flatten
      ++ if (choice.get "finish_reason").truthy then [.finish (choice.get "finish_reason")] else []))

def readChunk (chunk : Json) : Option (List Delta) := do
  let chunk ← chunk.asDict
  let choices ← ((chunk.get "choices").or (.arr [])).iter
  let deltas ← choices.mapM readChoice
  some ((if (chunk.get "usage").truthy then [.usage (chunk.get "usage")] else []) ++ deltas.flatten)

namespace OpenAIChatStream

variable (s : OpenAIChatStream)

def applyTool (call : ToolDelta) : Option (OpenAIChatStream × List StreamEvent) := do
  let (s, events) ←
    if (s.toolIndexes.lookup call.key).isNone then s.openToolBlock call.key call.id call.name
    else some (s, [])
  if call.arguments.isNone then some (s, events)
  else
    let index ← s.toolIndexes.lookup call.key
    some (s, events ++ [.contentBlockDelta index (.inputJson call.arguments)])

/-- One thing a chunk says. -/
def applyDelta : Delta → Option (OpenAIChatStream × List StreamEvent)
  | .usage usage => some ({ s with usage }, [])
  | .text text =>
    let (index, s, events) := s.ensureTextBlock
    some (s, events ++ [.contentBlockDelta index (.text text)])
  | .tool call => s.applyTool call
  | .finish reason => some ({ s with finishReason := reason }, [])

/-- The translator, over what the chunks say. -/
def deltaMachine : Machine OpenAIChatStream Delta StreamEvent := ⟨applyDelta⟩

theorem handleToolDelta_eq (toolCall : Json) :
    s.handleToolDelta toolCall = (readToolDelta toolCall).bind (deltaMachine.run s) := by
  unfold handleToolDelta readToolDelta
  cases toolCall.asDict with
  | none => rfl
  | some toolCall =>
    simp only [Option.bind_eq_bind, Option.bind_some]
    split
    · rfl
    · cases ((toolCall.get "function").or (.obj [])).asDict with
      | none => rfl
      | some function =>
        simp only [Option.bind_some]
        cases (toolCall.get "index").asKey with
        | none => rfl
        | some key =>
          simp only [Option.bind_some]
          rw [Machine.run_singleton]
          rfl

theorem run_finish (reason : Json) :
    deltaMachine.run s [.finish reason] = some ({ s with finishReason := reason }, []) := rfl

theorem eventsForChoice_eq (choice : Json) :
    s.eventsForChoice choice = (readChoice choice).bind (deltaMachine.run s) := by
  unfold eventsForChoice readChoice
  cases choice.asDict with
  | none => rfl
  | some choice =>
    simp only [Option.bind_eq_bind, Option.bind_some]
    cases ((choice.get "delta").or (.obj [])).asDict with
    | none => rfl
    | some delta =>
      simp only [Option.bind_some]
      cases ((delta.get "tool_calls").or (.arr [])).iter with
      | none => rfl
      | some calls =>
        simp only [Option.bind_some, Machine.run_reading (m := ⟨handleToolDelta⟩)
          (fun s a => handleToolDelta_eq s a)]
        cases calls.mapM readToolDelta with
        | none => rfl
        | some tools =>
          simp only [Option.bind_some, Machine.run_append]
          cases (delta.get "content").truthy with
          | false =>
            simp only [Bool.false_eq_true, if_false, Machine.run_nil, Option.bind_some]
            cases deltaMachine.run s tools.flatten with
            | none => rfl
            | some p => cases (choice.get "finish_reason").truthy <;> simp [run_finish]
          | true =>
            simp only [if_true, Machine.run_singleton]
            show ((deltaMachine.run s.ensureTextBlock.2.1 tools.flatten).bind _) = Option.bind
              (some (s.ensureTextBlock.2.1, s.ensureTextBlock.2.2
                ++ [.contentBlockDelta s.ensureTextBlock.1 (.text (delta.get "content"))])) _
            simp only [Option.bind_some]
            cases deltaMachine.run s.ensureTextBlock.2.1 tools.flatten with
            | none => rfl
            | some p => cases (choice.get "finish_reason").truthy <;> simp [run_finish]

theorem eventsForChunk_eq (chunk : Json) :
    s.eventsForChunk chunk = (readChunk chunk).bind (deltaMachine.run s) := by
  unfold eventsForChunk readChunk
  cases chunk.asDict with
  | none => rfl
  | some chunk =>
    simp only [Option.bind_eq_bind, Option.bind_some]
    cases ((chunk.get "choices").or (.arr [])).iter with
    | none => rfl
    | some choices =>
      simp only [Option.bind_some, Machine.run_reading (m := ⟨eventsForChoice⟩)
        (fun s a => eventsForChoice_eq s a)]
      cases choices.mapM readChoice with
      | none => rfl
      | some deltas =>
        simp only [Option.bind_some, Machine.run_append]
        cases (chunk.get "usage").truthy with
        | false =>
          simp only [Bool.false_eq_true, if_false, Machine.run_nil, Option.bind_some]
          cases deltaMachine.run s deltas.flatten <;> rfl
        | true =>
          show deltaMachine.run { s with usage := chunk.get "usage" } deltas.flatten
            = (deltaMachine.run { s with usage := chunk.get "usage" } deltas.flatten).map _
          cases deltaMachine.run { s with usage := chunk.get "usage" } deltas.flatten <;> rfl

end OpenAIChatStream

/-- **A stream is read, and what its chunks say is applied.** -/
theorem run_chunks_eq (s : OpenAIChatStream) (chunks : List Json) :
    Machine.run ⟨OpenAIChatStream.eventsForChunk⟩ s chunks
      = (chunks.mapM readChunk).bind fun deltas =>
        OpenAIChatStream.deltaMachine.run s deltas.flatten :=
  Machine.run_reading (fun s a => OpenAIChatStream.eventsForChunk_eq s a) s chunks

/-! ## What a consumer takes -/

inductive BlockKind where
  | text
  | tool
  deriving DecidableEq

def ContentBlock.kind : ContentBlock → BlockKind
  | text _ => .text
  | toolUse _ _ _ => .tool

def BlockDelta.kind : BlockDelta → BlockKind
  | text _ => .text
  | inputJson _ => .tool

/-- **A consumer of the blocks of a message**: the number of the next block, and the blocks
that are open. -/
structure OpenBlocks where
  next : ℕ := 0
  blocks : List (ℕ × BlockKind) := []

namespace OpenBlocks

/-- What the consumer takes. A block starts with the next number, and beside others only
where all are tool calls; what grows or stops is open. -/
def accept (o : OpenBlocks) : StreamEvent → Option OpenBlocks
  | .contentBlockStart index block =>
    if index = o.next ∧ ∀ b ∈ o.blocks, b.2 = .tool ∧ block.kind = .tool then
      some ⟨o.next + 1, o.blocks ++ [(index, block.kind)]⟩
    else none
  | .contentBlockDelta index delta => if (index, delta.kind) ∈ o.blocks then some o else none
  | .contentBlockStop index =>
    if ∃ b ∈ o.blocks, b.1 = index then
      some { o with blocks := o.blocks.eraseP fun b => b.1 = index }
    else none
  | _ => none

def consumer : TransitionSystem OpenBlocks StreamEvent := ⟨accept⟩

theorem step_start (o : OpenBlocks) {block : ContentBlock}
    (h : ∀ b ∈ o.blocks, b.2 = .tool ∧ block.kind = .tool) :
    consumer.step o (.contentBlockStart o.next block)
      = some ⟨o.next + 1, o.blocks ++ [(o.next, block.kind)]⟩ := if_pos ⟨rfl, h⟩

theorem step_delta {o : OpenBlocks} {index : ℕ} {delta : BlockDelta}
    (h : (index, delta.kind) ∈ o.blocks) :
    consumer.step o (.contentBlockDelta index delta) = some o := if_pos h

theorem step_stop (next index : ℕ) (kind : BlockKind) (blocks : List (ℕ × BlockKind)) :
    consumer.step ⟨next, (index, kind) :: blocks⟩ (.contentBlockStop index)
      = some ⟨next, blocks⟩ := by
  show (if _ then _ else _) = _
  rw [if_pos ⟨(index, kind), List.mem_cons_self, rfl⟩, List.eraseP_cons_of_pos (by simp)]

end OpenBlocks

/-- **The events of a message**: it starts, its blocks are taken until none is open, and it
stops. -/
def Framed (events : List StreamEvent) : Prop :=
  ∃ message body stopReason usage next,
    events = .messageStart message :: body ++ [.messageDelta stopReason usage, .messageStop] ∧
    OpenBlocks.consumer.run {} body = some ⟨next, []⟩

/-- At no time is more than one block open. -/
def OneAtATime (events : List StreamEvent) : Prop :=
  ∀ message body rest o, events = .messageStart message :: body ++ rest →
    OpenBlocks.consumer.run {} body = some o → o.blocks.length ≤ 1

/-- Every tool call has an id and a name when its block is to be opened: the first time, and
again when text has closed it. -/
def Named : List Json.Key → List Delta → Prop
  | _, [] => True
  | _, .text _ :: deltas => Named [] deltas
  | calls, .tool call :: deltas =>
    if call.key ∈ calls then Named calls deltas
    else call.id.truthy = true ∧ call.name.truthy = true ∧ Named (calls ++ [call.key]) deltas
  | calls, .usage _ :: deltas => Named calls deltas
  | calls, .finish _ :: deltas => Named calls deltas

instance decidableNamed : ∀ calls deltas, Decidable (Named calls deltas)
  | _, [] => .isTrue trivial
  | _, .text _ :: deltas => decidableNamed [] deltas
  | calls, .tool call :: deltas =>
    have := decidableNamed calls deltas
    have := decidableNamed (calls ++ [call.key]) deltas
    inferInstanceAs (Decidable (if call.key ∈ calls then Named calls deltas
      else call.id.truthy = true ∧ call.name.truthy = true ∧ Named (calls ++ [call.key]) deltas))
  | calls, .usage _ :: deltas => decidableNamed calls deltas
  | calls, .finish _ :: deltas => decidableNamed calls deltas

/-- The usage that was told last, after one more delta. -/
def tellUsage (last : Json) : Delta → Json
  | .usage usage => usage
  | _ => last

def lastUsage (deltas : List Delta) : Json := deltas.foldl tellUsage (.obj [])

/-- **A stream is accepted** when its chunks can be read, the tool calls are named, and the
usage is a dict. -/
def Accepted (chunks : List Json) : Prop :=
  ∃ deltas, chunks.mapM readChunk = some deltas ∧ Named [] deltas.flatten ∧
    (((lastUsage deltas.flatten).or (.obj [])).asDict).isSome = true

namespace OpenAIChatStream

variable {s s' : OpenAIChatStream}

/-! ## What a delta does -/

def openBlocks (s : OpenAIChatStream) : OpenBlocks :=
  ⟨s.nextIndex, s.textIndex.toList.map (·, .text) ++ s.toolIndexes.map fun t => (t.2, .tool)⟩

/-- A text block is open alone. -/
def Inv (s : OpenAIChatStream) : Prop := s.textIndex = none ∨ s.toolIndexes = []

/-- The arguments of a delta grow the block of its call. -/
def argumentEvents (index : ℕ) (call : ToolDelta) : List StreamEvent :=
  if call.arguments.isNone then [] else [.contentBlockDelta index (.inputJson call.arguments)]

theorem applyTool_of_open {call : ToolDelta} {index : ℕ}
    (h : s.toolIndexes.lookup call.key = some index) :
    s.applyTool call = some (s, argumentEvents index call) := by
  unfold applyTool argumentEvents
  simp only [h, Option.isNone_some, Bool.false_eq_true, if_false, Option.bind_eq_bind,
    Option.bind_some, List.nil_append]
  split <;> rfl

/-- The state after the first delta of a call. -/
def opened (s : OpenAIChatStream) (key : Json.Key) : OpenAIChatStream :=
  { s.closeTextBlock.1 with
    nextIndex := s.nextIndex + 1
    toolIndexes := s.toolIndexes ++ [(key, s.nextIndex)] }

theorem closeTextBlock_nextIndex (s : OpenAIChatStream) :
    s.closeTextBlock.1.nextIndex = s.nextIndex := by
  unfold closeTextBlock
  split <;> rfl

theorem closeTextBlock_toolIndexes (s : OpenAIChatStream) :
    s.closeTextBlock.1.toolIndexes = s.toolIndexes := by
  unfold closeTextBlock
  split <;> rfl

theorem closeTextBlock_textIndex (s : OpenAIChatStream) :
    s.closeTextBlock.1.textIndex = none := by
  unfold closeTextBlock
  split
  · next h => exact h
  · rfl

theorem applyTool_of_new {call : ToolDelta} (h : s.toolIndexes.lookup call.key = none) :
    s.applyTool call =
      if call.id.truthy = true ∧ call.name.truthy = true then
        some (s.opened call.key, s.closeTextBlock.2
          ++ [.contentBlockStart s.nextIndex (.toolUse call.id call.name (.obj []))]
          ++ argumentEvents s.nextIndex call)
      else none := by
  unfold applyTool openToolBlock argumentEvents opened
  have hlookup : (s.toolIndexes ++ [(call.key, s.nextIndex)]).lookup call.key
      = some s.nextIndex := by
    rw [List.lookup_append, h, List.lookup_cons, beq_self_eq_true]
    rfl
  cases call.id.truthy with
  | false => simp [h]
  | true =>
    cases call.name.truthy with
    | false => simp [h]
    | true =>
      simp only [h, Option.isNone_none, if_true, Bool.not_true, Bool.or_self,
        Bool.false_eq_true, if_false, Option.bind_eq_bind, Option.bind_some,
        closeTextBlock_nextIndex, closeTextBlock_toolIndexes, hlookup, and_self]
      split
      · rw [List.append_nil]
      · rfl

theorem applyText_of_open {text : Json} {index : ℕ} (h : s.textIndex = some index) :
    s.applyDelta (.text text) = some (s, [.contentBlockDelta index (.text text)]) := by
  unfold applyDelta ensureTextBlock
  simp only [h, List.nil_append]

theorem applyText_of_new {text : Json} (h : s.textIndex = none) :
    s.applyDelta (.text text) =
      some ({ s with textIndex := some s.nextIndex, toolIndexes := [],
                     nextIndex := s.nextIndex + 1 },
        s.closeToolBlocks.2 ++ [.contentBlockStart s.nextIndex (.text (.str "")),
          .contentBlockDelta s.nextIndex (.text text)]) := by
  unfold applyDelta ensureTextBlock
  simp only [h, closeToolBlocks, List.append_assoc, List.singleton_append]

/-! ## What is accepted -/

theorem lookup_eq_none_iff {key : Json.Key} {tools : List (Json.Key × ℕ)} :
    tools.lookup key = none ↔ key ∉ tools.map Prod.fst := by
  rw [List.lookup_eq_none_iff]
  constructor
  · intro h hmem
    obtain ⟨t, ht, rfl⟩ := List.mem_map.mp hmem
    exact absurd (h t ht) (by simp)
  · intro h t ht
    have hne : key ≠ t.1 := by
      rintro rfl
      exact h (List.mem_map_of_mem ht)
    simp [hne]

theorem Inv.step (h : s.Inv) {delta : Delta} {out : List StreamEvent}
    (hstep : s.applyDelta delta = some (s', out)) : s'.Inv := by
  cases delta with
  | usage usage =>
    cases hstep
    exact h
  | finish reason =>
    cases hstep
    exact h
  | text text =>
    cases htext : s.textIndex with
    | some index =>
      rw [applyText_of_open htext] at hstep
      cases hstep
      exact h
    | none =>
      rw [applyText_of_new htext] at hstep
      cases hstep
      exact .inr rfl
  | tool call =>
    cases hlookup : s.toolIndexes.lookup call.key with
    | some index =>
      rw [show s.applyDelta (.tool call) = s.applyTool call from rfl,
        applyTool_of_open hlookup] at hstep
      cases hstep
      exact h
    | none =>
      rw [show s.applyDelta (.tool call) = s.applyTool call from rfl,
        applyTool_of_new hlookup] at hstep
      split at hstep
      · cases hstep
        exact .inl s.closeTextBlock_textIndex
      · cases hstep

/-- **What chunks say is accepted** exactly when the tool calls are named. -/
theorem isSome_run_iff (h : s.Inv) (deltas : List Delta) :
    (deltaMachine.run s deltas).isSome = true ↔
      Named (s.toolIndexes.map Prod.fst) deltas := by
  induction deltas generalizing s with
  | nil => exact iff_of_true rfl trivial
  | cons delta deltas ih =>
    have hcons : ∀ {s' out}, s.applyDelta delta = some (s', out) →
        ((deltaMachine.run s (delta :: deltas)).isSome = true ↔
          Named (s'.toolIndexes.map Prod.fst) deltas) := by
      intro s' out hstep
      rw [Machine.run_cons, show deltaMachine.step s delta = some (s', out) from hstep,
        Option.bind_some, Option.isSome_map]
      exact ih (h.step hstep)
    cases delta with
    | usage usage => exact @hcons { s with usage } [] rfl
    | finish reason => exact @hcons { s with finishReason := reason } [] rfl
    | text text =>
      cases htext : s.textIndex with
      | some index =>
        rw [hcons (applyText_of_open htext)]
        rcases h with hnone | hnil
        · rw [hnone] at htext
          cases htext
        · rw [hnil]
          rfl
      | none => exact hcons (applyText_of_new htext)
    | tool call =>
      cases hlookup : s.toolIndexes.lookup call.key with
      | some index =>
        rw [hcons (applyTool_of_open hlookup), Named, if_pos]
        by_contra hnot
        rw [lookup_eq_none_iff.mpr hnot] at hlookup
        cases hlookup
      | none =>
        have hnew := applyTool_of_new hlookup
        rw [Named, if_neg (lookup_eq_none_iff.mp hlookup)]
        by_cases hnamed : call.id.truthy = true ∧ call.name.truthy = true
        · rw [if_pos hnamed] at hnew
          rw [hcons hnew, ← and_assoc, and_iff_right hnamed]
          show Named ((s.toolIndexes ++ [(call.key, s.nextIndex)]).map Prod.fst) deltas ↔ _
          rw [List.map_append]
          rfl
        · rw [if_neg hnamed] at hnew
          rw [Machine.run_cons, show deltaMachine.step s (.tool call) = none from hnew]
          exact iff_of_false Bool.false_ne_true fun hboth => hnamed ⟨hboth.1, hboth.2.1⟩

theorem usage_of_step {delta : Delta} {out : List StreamEvent}
    (hstep : s.applyDelta delta = some (s', out)) :
    s'.usage = tellUsage s.usage delta := by
  cases delta with
  | usage usage =>
    cases hstep
    rfl
  | finish reason =>
    cases hstep
    rfl
  | text text =>
    cases htext : s.textIndex with
    | some index =>
      rw [applyText_of_open htext] at hstep
      cases hstep
      rfl
    | none =>
      rw [applyText_of_new htext] at hstep
      cases hstep
      rfl
  | tool call =>
    rw [show s.applyDelta (.tool call) = s.applyTool call from rfl] at hstep
    cases hlookup : s.toolIndexes.lookup call.key with
    | some index =>
      rw [applyTool_of_open hlookup] at hstep
      cases hstep
      rfl
    | none =>
      rw [applyTool_of_new hlookup] at hstep
      split at hstep
      · cases hstep
        show s.closeTextBlock.1.usage = s.usage
        unfold closeTextBlock
        split <;> rfl
      · cases hstep

theorem usage_of_run {deltas : List Delta} {out : List StreamEvent}
    (hrun : deltaMachine.run s deltas = some (s', out)) :
    s'.usage = deltas.foldl tellUsage s.usage := by
  induction deltas generalizing s out with
  | nil =>
    cases hrun
    rfl
  | cons delta deltas ih =>
    rw [Machine.run_cons] at hrun
    obtain ⟨⟨t, out₁⟩, hstep, hrun⟩ := Option.bind_eq_some_iff.mp hrun
    obtain ⟨⟨t', out₂⟩, hrest, heq⟩ := Option.map_eq_some_iff.mp hrun
    cases heq
    rw [ih hrest, List.foldl_cons, usage_of_step hstep]

/-! ## What the consumer takes of a stream -/

open OpenBlocks

theorem openBlocks_of_none (h : s.textIndex = none) :
    s.openBlocks = ⟨s.nextIndex, s.toolIndexes.map fun t => (t.2, .tool)⟩ := by
  unfold openBlocks
  rw [h]
  rfl

theorem openBlocks_opened (s : OpenAIChatStream) (key : Json.Key) :
    (s.opened key).openBlocks = ⟨s.nextIndex + 1,
      (s.toolIndexes.map fun t => (t.2, .tool)) ++ [(s.nextIndex, .tool)]⟩ := by
  rw [openBlocks_of_none (show (s.opened key).textIndex = none from s.closeTextBlock_textIndex)]
  show OpenBlocks.mk _ (List.map _ (s.toolIndexes ++ [(key, s.nextIndex)])) = _
  rw [List.map_append]
  rfl

theorem run_closeTextBlock (s : OpenAIChatStream) :
    consumer.run s.openBlocks s.closeTextBlock.2 = some s.closeTextBlock.1.openBlocks := by
  unfold closeTextBlock
  cases htext : s.textIndex with
  | none => rfl
  | some index =>
    rw [openBlocks, htext]
    show consumer.run ⟨s.nextIndex, (index, .text) :: _⟩ [.contentBlockStop index] = _
    rw [TransitionSystem.run_cons, step_stop]
    rfl

theorem run_closeToolBlocks (next : ℕ) (tools : List (Json.Key × ℕ)) :
    consumer.run ⟨next, tools.map fun t => (t.2, .tool)⟩
      (tools.map fun t => .contentBlockStop t.2) = some ⟨next, []⟩ := by
  induction tools with
  | nil => rfl
  | cons t tools ih =>
    rw [List.map_cons, List.map_cons, TransitionSystem.run_cons, step_stop, Option.bind_some, ih]

theorem run_argumentEvents {o : OpenBlocks} {index : ℕ} (call : ToolDelta)
    (h : (index, .tool) ∈ o.blocks) :
    consumer.run o (argumentEvents index call) = some o := by
  unfold argumentEvents
  split
  · rfl
  · rw [TransitionSystem.run_cons, step_delta h]
    rfl

/-- **The events of a delta are taken**, and leave the blocks open that the translator
holds. -/
theorem consumer_of_step {delta : Delta} {out : List StreamEvent}
    (hstep : s.applyDelta delta = some (s', out)) :
    consumer.run s.openBlocks out = some s'.openBlocks := by
  cases delta with
  | usage usage =>
    cases hstep
    rfl
  | finish reason =>
    cases hstep
    rfl
  | text text =>
    cases htext : s.textIndex with
    | some index =>
      rw [applyText_of_open htext] at hstep
      cases hstep
      have hmem : (index, BlockKind.text) ∈ s.openBlocks.blocks := by
        unfold openBlocks
        rw [htext]
        exact List.mem_cons_self
      rw [TransitionSystem.run_cons, step_delta hmem]
      rfl
    | none =>
      rw [applyText_of_new htext] at hstep
      cases hstep
      rw [TransitionSystem.run_append, openBlocks_of_none htext,
        show s.closeToolBlocks.2 = s.toolIndexes.map fun t => .contentBlockStop t.2 from rfl,
        run_closeToolBlocks, Option.bind_some]
      rw [TransitionSystem.run_cons,
        step_start ⟨s.nextIndex, []⟩ fun b hb => absurd hb List.not_mem_nil, Option.bind_some,
        TransitionSystem.run_cons, step_delta (List.mem_singleton_self _)]
      rfl
  | tool call =>
    rw [show s.applyDelta (.tool call) = s.applyTool call from rfl] at hstep
    cases hlookup : s.toolIndexes.lookup call.key with
    | some index =>
      rw [applyTool_of_open hlookup] at hstep
      cases hstep
      refine run_argumentEvents call (List.mem_append_right _ ?_)
      obtain ⟨before, behind, hsplit, -⟩ := List.lookup_eq_some_iff.mp hlookup
      rw [hsplit, List.map_append]
      exact List.mem_append_right _ List.mem_cons_self
    | none =>
      rw [applyTool_of_new hlookup] at hstep
      split at hstep
      · cases hstep
        rw [TransitionSystem.run_append, TransitionSystem.run_append, run_closeTextBlock,
          Option.bind_some, openBlocks_of_none s.closeTextBlock_textIndex,
          closeTextBlock_nextIndex, closeTextBlock_toolIndexes, TransitionSystem.run_cons,
          step_start ⟨s.nextIndex, s.toolIndexes.map fun t => (t.2, .tool)⟩ ?_]
        · show Option.bind (some (OpenBlocks.mk (s.nextIndex + 1) _)) _ = _
          rw [Option.bind_some, run_argumentEvents call
            (List.mem_append_right _ (List.mem_singleton_self _))]
          rw [openBlocks_opened]
          rfl
        · intro b hb
          obtain ⟨t, -, rfl⟩ := List.mem_map.mp hb
          exact ⟨rfl, rfl⟩
      · cases hstep

theorem consumer_of_run {deltas : List Delta} {out : List StreamEvent}
    (hrun : deltaMachine.run s deltas = some (s', out)) :
    consumer.run s.openBlocks out = some s'.openBlocks := by
  refine Machine.run_compose (P := fun s s' out =>
    consumer.run s.openBlocks out = some s'.openBlocks) (fun s => rfl) ?_ ?_ hrun
  · intro s t u out₁ out₂ hfirst hsecond
    rw [TransitionSystem.run_append, hfirst, Option.bind_some, hsecond]
  · exact fun s delta t out _ hstep => consumer_of_step hstep

/-- **The last events** close what is open, where the usage is a dict. -/
theorem finishEvents_of_usage (s : OpenAIChatStream) {usage : Dict}
    (h : usageFromOpenai s.usage = some usage) :
    s.finishEvents = some (s.closeTextBlock.2
      ++ s.toolIndexes.map (fun t => .contentBlockStop t.2)
      ++ [.messageDelta (stopReason s.finishReason) usage, .messageStop]) := by
  unfold finishEvents closeTextBlock closeToolBlocks
  cases s.textIndex with
  | none =>
    show (usageFromOpenai s.usage).bind _ = _
    rw [h]
    rfl
  | some index =>
    show (usageFromOpenai s.usage).bind _ = _
    rw [h]
    rfl

theorem consumer_of_finish (s : OpenAIChatStream) :
    consumer.run s.openBlocks (s.closeTextBlock.2
      ++ s.toolIndexes.map fun t => .contentBlockStop t.2) = some ⟨s.nextIndex, []⟩ := by
  rw [TransitionSystem.run_append, run_closeTextBlock, Option.bind_some,
    openBlocks_of_none s.closeTextBlock_textIndex, closeTextBlock_nextIndex,
    closeTextBlock_toolIndexes]
  exact run_closeToolBlocks s.nextIndex s.toolIndexes

theorem isSome_usageFromOpenai (usage : Json) :
    (usageFromOpenai usage).isSome = ((usage.or (.obj [])).asDict).isSome := by
  unfold usageFromOpenai
  cases (usage.or (.obj [])).asDict <;> rfl

theorem isSome_finishEvents (s : OpenAIChatStream) :
    s.finishEvents.isSome = ((s.usage.or (.obj [])).asDict).isSome := by
  rw [← isSome_usageFromOpenai]
  cases husage : usageFromOpenai s.usage with
  | some usage => rw [s.finishEvents_of_usage husage]; rfl
  | none =>
    unfold finishEvents closeTextBlock closeToolBlocks
    cases s.textIndex with
    | none =>
      show (Option.bind (usageFromOpenai s.usage) _).isSome = false
      rw [husage]
      rfl
    | some index =>
      show (Option.bind (usageFromOpenai s.usage) _).isSome = false
      rw [husage]
      rfl

end OpenAIChatStream

open OpenAIChatStream

/-- **A stream is translated** exactly when it is accepted. -/
theorem isSome_streamEvents_iff (messageId model : String) (chunks : List Json) :
    (streamEvents messageId model chunks).isSome = true ↔ Accepted chunks := by
  unfold streamEvents Accepted
  rw [run_chunks_eq]
  show (Option.bind ((chunks.mapM readChunk).bind _) _).isSome = true ↔ _
  cases chunks.mapM readChunk with
  | none => exact iff_of_false Bool.false_ne_true fun h => (by obtain ⟨_, h, -⟩ := h; cases h)
  | some deltas =>
    have hnamed := isSome_run_iff (s := {}) (.inl rfl) deltas.flatten
    rw [Option.bind_some]
    cases hrun : deltaMachine.run {} deltas.flatten with
    | none =>
      rw [hrun] at hnamed
      refine iff_of_false Bool.false_ne_true fun h => ?_
      obtain ⟨_, heq, h, -⟩ := h
      cases heq
      cases hnamed.mpr h
    | some p =>
      obtain ⟨s, body⟩ := p
      rw [hrun] at hnamed
      have husage : s.usage = lastUsage deltas.flatten := usage_of_run hrun
      rw [Option.bind_some]
      show (Option.bind s.finishEvents _).isSome = true ↔ _
      rw [show (Option.bind s.finishEvents _).isSome = s.finishEvents.isSome by
        cases s.finishEvents <;> rfl]
      constructor
      · exact fun h => ⟨deltas, rfl, hnamed.mp rfl, (by
          rw [← husage, ← isSome_finishEvents]
          exact h)⟩
      · rintro ⟨_, heq, -, h⟩
        cases heq
        rw [← husage, ← isSome_finishEvents] at h
        exact h

def startMessage (messageId model : String) : AnthropicMessage where
  id := .str messageId
  model := .str model
  usage := (usageFromOpenai .null).getD []

theorem streamEvents_eq_some {messageId model : String} {chunks : List Json}
    {events : List StreamEvent} (h : streamEvents messageId model chunks = some events) :
    ∃ deltas s body finished, chunks.mapM readChunk = some deltas ∧
      deltaMachine.run {} deltas.flatten = some (s, body) ∧ s.finishEvents = some finished ∧
      events = .messageStart (startMessage messageId model) :: (body ++ finished) := by
  unfold streamEvents at h
  obtain ⟨started, hstarted, h⟩ := Option.bind_eq_some_iff.mp h
  obtain ⟨⟨s, body⟩, hrun, h⟩ := Option.bind_eq_some_iff.mp h
  obtain ⟨finished, hfinished, h⟩ := Option.bind_eq_some_iff.mp h
  rw [run_chunks_eq] at hrun
  obtain ⟨deltas, hdeltas, hrun⟩ := Option.bind_eq_some_iff.mp hrun
  cases hstarted
  refine ⟨deltas, s, body, finished, hdeltas, hrun, hfinished, ?_⟩
  rw [← Option.some.inj h, List.append_assoc]
  rfl

/-- **A stream that is accepted** is translated to the events of a message: its blocks are
numbered in the order they start, each grows between its start and its one stop, text is
open alone, and at the end no block is. -/
theorem framed_of_accepted (messageId model : String) {chunks : List Json}
    (haccepted : Accepted chunks) :
    ∃ events, streamEvents messageId model chunks = some events ∧ Framed events := by
  obtain ⟨events, hevents⟩ := Option.isSome_iff_exists.mp
    ((isSome_streamEvents_iff messageId model chunks).mpr haccepted)
  refine ⟨events, hevents, ?_⟩
  obtain ⟨deltas, s, body, finished, -, hrun, hfinished, rfl⟩ := streamEvents_eq_some hevents
  have husage : (usageFromOpenai s.usage).isSome = true := by
    rw [isSome_usageFromOpenai, ← isSome_finishEvents, hfinished]
    rfl
  obtain ⟨usage, husage⟩ := Option.isSome_iff_exists.mp husage
  rw [s.finishEvents_of_usage husage] at hfinished
  cases hfinished
  refine ⟨startMessage messageId model,
    body ++ (s.closeTextBlock.2 ++ s.toolIndexes.map fun t => .contentBlockStop t.2),
    stopReason s.finishReason, usage, s.nextIndex, ?_, ?_⟩
  · rw [List.cons_append, ← List.append_assoc body]
  · rw [TransitionSystem.run_append]
    show (OpenBlocks.consumer.run (openBlocks {}) body).bind _ = _
    rw [consumer_of_run hrun, Option.bind_some, consumer_of_finish]

/-- **What a stream is translated to.** One that is accepted gives the events of a message,
and any other is refused. -/
theorem streams_framed (messageId model : String) (chunks : List Json) :
    (Accepted chunks →
      ∃ events, streamEvents messageId model chunks = some events ∧ Framed events) ∧
    (¬Accepted chunks → streamEvents messageId model chunks = none) := by
  refine ⟨framed_of_accepted messageId model, fun hrefused => ?_⟩
  rw [← Option.not_isSome_iff_eq_none, isSome_streamEvents_iff]
  exact hrefused

def chunkOf (delta : Dict) : Json := .obj [("choices", .arr [.obj [("delta", .obj delta)]])]

def textChunk (text : String) : Json := chunkOf [("content", .str text)]

/-- A chunk with a delta of a tool call. -/
def toolChunk (index : ℤ) (fields : Dict) (function : Dict) : Json :=
  chunkOf [("tool_calls",
    .arr [.obj (("index", .int index) :: fields ++ [("function", .obj function)])])]

/-- The first delta of a tool call. -/
def firstToolChunk (index : ℤ) : Json :=
  toolChunk index [("id", .str "call")] [("name", .str "Bash"), ("arguments", .str "")]

/-- Text, and a tool call whose arguments come later. -/
def plainStream : List Json :=
  [textChunk "Checking", firstToolChunk 0, toolChunk 0 [] [("arguments", .str "\x7b\x7d")]]

/-- Two parallel tool calls. -/
def parallelStream : List Json := [firstToolChunk 0, firstToolChunk 1]

/-- Arguments of a tool call come behind text. -/
def lateStream : List Json :=
  [firstToolChunk 0, textChunk "Done", toolChunk 0 [] [("arguments", .str "\x7b\x7d")]]

theorem streams_framed_plainStream :
    ∃ events, streamEvents "m" "model" plainStream = some events ∧ Framed events :=
  (streams_framed "m" "model" plainStream).1 ⟨_, rfl, by decide +kernel, rfl⟩

/-- **Two blocks are open at once** in a stream with parallel tool calls, and arguments that
come behind text are refused in a stream that was accepted so far. -/
theorem parallel_open : (∃ events, streamEvents "m" "model" parallelStream = some events ∧
      ¬OneAtATime events) ∧
    Accepted lateStream.dropLast ∧ streamEvents "m" "model" lateStream = none := by
  refine ⟨⟨_, rfl, fun hone => ?_⟩, ⟨_, rfl, by decide +kernel, rfl⟩, rfl⟩
  -- the first call grows by its empty arguments before the second is opened
  have hlength := hone _ [_, _, _] _ ⟨2, [(0, .tool), (1, .tool)]⟩ rfl rfl
  exact absurd hlength (by decide)

end AnthropicProxy
