import CharlieBot.AnthropicStream
import CharlieBot.Lib.Traverse
import Mathlib.Data.Rat.Cast.Defs

/-!
# A completion, streamed and whole

The proxy translates a completion in two ways: as a whole, and chunk by chunk. A
client that folds the events of the second has a message as well, and it should be
the message of the first, however the completion was cut.

A cut is told by what its chunks join to (`Completion.join`): pieces of text, then
tool calls, each begun by a piece with its id and name, the arguments of the calls
in any order of turns. Text, tool calls and usage come out the same for every cut.
The stop reason does but for one completion: an empty finish reason is missing to the
stream and a reason to the other translator (`streamed_eq_iff`).
-/

namespace AnthropicProxy

/-! ## The whole completion -/

section Whole

variable (loads : String → Option Json)

def toolUseOf (toolCall : Json) : Option ContentBlock := do
  let toolCall ← toolCall.asDict
  let function ← ((toolCall.get "function").or (.obj [])).asDict
  let toolId := toolCall.get "id"
  let name := function.get "name"
  -- "OpenAI tool_call missing id or function.name"
  if !toolId.truthy || !name.truthy then none
  else
    let arguments ← ((function.get "arguments").or (.str "\x7b\x7d")).asText
    let input ← loads arguments
    some (.toolUse toolId name input)

def openaiChatResponseToAnthropic (newId : String) (response : Json) (requestedModel : String) :
    Option AnthropicMessage := do
  let response ← response.asDict
  match response.get "choices" with
  | .arr (choice :: _) =>
    let choice ← choice.asDict
    let message ← ((choice.get "message").or (.obj [])).asDict
    let calls ← ((message.get "tool_calls").or (.arr [])).iter
    let tools ← calls.mapM (toolUseOf loads)
    let usage ← usageFromOpenai (response.get "usage")
    some
      { id := (response.get "id").or (.str newId)
        model := (response.get "model").or (.str requestedModel)
        content := (if (message.get "content").truthy then [.text (message.get "content")] else [])
          ++ tools
        stopReason := stopReason (choice.get "finish_reason")
        usage }
  -- "OpenAI response missing choices", or choices that are no list of dicts
  | _ => none

end Whole

/-! ## What a client makes of the events -/

/-- **What a client has received**: the blocks, each with the input it collects, the stop
reason and the usage. -/
structure Received where
  blocks : List (ContentBlock × String) := []
  stopReason : Json := .null
  usage : Dict := []

namespace Received

def grow : ContentBlock × String → BlockDelta → Option (ContentBlock × String)
  | (.text (.str text), partialJson), .text (.str more) =>
    some (.text (.str (text ++ more)), partialJson)
  | (.toolUse id name input, partialJson), .inputJson (.str more) =>
    some (.toolUse id name input, partialJson ++ more)
  | _, _ => none

variable (loads : String → Option Json)

/-- The input that was collected; where none was, it stays as the block began. -/
def inputOf (partialJson : String) (input : Json) : Option Json :=
  if partialJson = "" then some input else loads partialJson

/-- A block stops, and its input is parsed. -/
def close : ContentBlock × String → Option (ContentBlock × String)
  | (.text text, partialJson) => some (.text text, partialJson)
  | (.toolUse id name input, partialJson) =>
    (inputOf loads partialJson input).map fun input => (.toolUse id name input, "")

def receive (r : Received) : StreamEvent → Option Received
  | .messageStart message => some { r with blocks := [], usage := message.usage }
  | .contentBlockStart index block =>
    if index = r.blocks.length then some { r with blocks := r.blocks ++ [(block, "")] } else none
  | .contentBlockDelta index delta => do
    let block ← r.blocks[index]?
    let block ← grow block delta
    some { r with blocks := r.blocks.set index block }
  | .contentBlockStop index => do
    let block ← r.blocks[index]?
    let block ← close loads block
    some { r with blocks := r.blocks.set index block }
  | .messageDelta stopReason usage => some { r with stopReason, usage }
  | .messageStop => some r

def client : TransitionSystem Received StreamEvent := ⟨receive loads⟩

/-- The content, the stop reason and the usage. -/
def content (r : Received) : List ContentBlock × Json × Dict :=
  (r.blocks.map Prod.fst, r.stopReason, r.usage)

end Received

/-! ## Completions and their cuts -/

structure ToolCall where
  id : String
  name : String
  arguments : String

/-- **A completion** of one choice: text followed by tool calls. -/
structure Completion where
  text : String := ""
  calls : List ToolCall := []
  finishReason : Option String := none
  usage : Dict := []

/-- A text, or `null`. -/
def optText : Option String → Json
  | none => .null
  | some s => .str s

def ToolCall.toJson (call : ToolCall) : Json :=
  .obj [("id", .str call.id), ("type", .str "function"),
    ("function", .obj [("name", .str call.name), ("arguments", .str call.arguments)])]

def Completion.toJson (c : Completion) : Json :=
  .obj [("choices", .arr [.obj
      [("message", .obj [("content", .str c.text), ("tool_calls", .arr (c.calls.map ToolCall.toJson))]),
        ("finish_reason", optText c.finishReason)]]),
    ("usage", .obj c.usage)]

structure CallPiece where
  index : ℕ
  id : Option String := none
  name : Option String := none
  arguments : Option String := none

/-- What a chunk says of the choice. -/
structure ChoicePiece where
  content : Option String := none
  calls : List CallPiece := []
  finishReason : Option String := none

structure CompletionChunk where
  choices : List ChoicePiece := []
  usage : Option Dict := none

def CallPiece.toJson (piece : CallPiece) : Json :=
  .obj [("index", .int piece.index), ("id", optText piece.id),
    ("function", .obj [("name", optText piece.name), ("arguments", optText piece.arguments)])]

def ChoicePiece.toJson (piece : ChoicePiece) : Json :=
  .obj [("delta", .obj [("content", optText piece.content),
      ("tool_calls", .arr (piece.calls.map CallPiece.toJson))]),
    ("finish_reason", optText piece.finishReason)]

def CompletionChunk.toJson (chunk : CompletionChunk) : Json :=
  .obj [("choices", .arr (chunk.choices.map ChoicePiece.toJson)),
    ("usage", match chunk.usage with
      | none => .null
      | some usage => .obj usage)]

inductive Piece where
  | usage (usage : Dict)
  | text (text : String)
  | call (piece : CallPiece)
  | finish (reason : String)

def ChoicePiece.pieces (piece : ChoicePiece) : List Piece :=
  (piece.content.map Piece.text).toList
    ++ (piece.calls.map Piece.call ++ (piece.finishReason.map Piece.finish).toList)

def CompletionChunk.pieces (chunk : CompletionChunk) : List Piece :=
  (chunk.usage.map Piece.usage).toList ++ chunk.choices.flatMap ChoicePiece.pieces

namespace Completion

/-- One more piece. Text comes before the calls, a call begins with its id and its name, and
what comes for a call that began adds to its arguments. -/
def join (c : Completion) : Piece → Option Completion
  | .usage usage => some { c with usage := if usage = [] then c.usage else usage }
  | .text text =>
    if text = "" then some c
    else if c.calls = [] then some { c with text := c.text ++ text }
    else none
  | .call piece =>
    if piece.index < c.calls.length then
      some { c with calls := c.calls.modify piece.index fun call =>
        { call with arguments := call.arguments ++ piece.arguments.getD "" } }
    else if piece.index = c.calls.length then
      match piece.id, piece.name with
      | some id, some name =>
        some { c with calls := c.calls ++ [⟨id, name, piece.arguments.getD ""⟩] }
      | _, _ => none
    else none
  | .finish reason => some { c with finishReason := some reason }

def joining : TransitionSystem Completion Piece := ⟨join⟩

/-- **A cut of a completion**: chunks whose pieces join to it. -/
def Cut (c : Completion) (chunks : List CompletionChunk) : Prop :=
  joining.run {} (chunks.flatMap CompletionChunk.pieces) = some c

/-- Every tool call has an id, a name and arguments that can be parsed. -/
def Acceptable (loads : String → Option Json) (c : Completion) : Prop :=
  ∀ call ∈ c.calls, call.id ≠ "" ∧ call.name ≠ "" ∧
    (loads (if call.arguments = "" then "\x7b\x7d" else call.arguments)).isSome = true

end Completion

/-- What a client makes of the streamed completion. -/
def streamed (loads : String → Option Json) (messageId model : String)
    (chunks : List CompletionChunk) : Option (List ContentBlock × Json × Dict) := do
  let events ← streamEvents messageId model (chunks.map CompletionChunk.toJson)
  let received ← (Received.client loads).run {} events
  some received.content

/-- The content, the stop reason and the usage of the completion that was translated whole. -/
def whole (loads : String → Option Json) (newId model : String) (c : Completion) :
    Option (List ContentBlock × Json × Dict) :=
  (openaiChatResponseToAnthropic loads newId c.toJson model).map fun message =>
    (message.content, message.stopReason, message.usage)

/-! ## The whole completion, part by part -/

theorem truthy_str (s : String) : (Json.str s).truthy = decide (s ≠ "") := by
  unfold Json.truthy
  by_cases h : s = ""
  · rw [h]
    rfl
  · have hne : s.toList.isEmpty = false :=
      List.isEmpty_eq_false_iff.mpr fun hnil => h (String.toList_eq_nil_iff.mp hnil)
    show (!s.toList.isEmpty) = _
    rw [decide_eq_true h, hne]
    rfl

theorem iter_arr_or (xs : List Json) : ((Json.arr xs).or (.arr [])).iter = some xs := by
  unfold Json.or
  split
  · rfl
  · next h =>
    cases xs with
    | nil => rfl
    | cons x xs => exact absurd rfl h

theorem asDict_obj_or (d : Dict) : ((Json.obj d).or (.obj [])).asDict = some d := by
  unfold Json.or
  split
  · rfl
  · next h =>
    cases d with
    | nil => rfl
    | cons f d => exact absurd rfl h

def usageOf (usage : Dict) : Dict :=
  [(ET.usageInputTokens, usage.getD "prompt_tokens" (.int 0)),
    (ET.usageOutputTokens, usage.getD "completion_tokens" (.int 0)),
    (ET.usageCacheCreationInputTokens, .int 0),
    (ET.usageCacheReadInputTokens, .int 0)]

theorem usageFromOpenai_obj (usage : Dict) : usageFromOpenai (.obj usage) = some (usageOf usage) := by
  unfold usageFromOpenai
  rw [asDict_obj_or]
  rfl

variable {loads : String → Option Json} {messageId model : String}

def Completion.textBlocks (c : Completion) : List ContentBlock :=
  if c.text = "" then [] else [.text (.str c.text)]

def ToolCall.block (loads : String → Option Json) (call : ToolCall) : Option ContentBlock :=
  if call.id = "" ∨ call.name = "" then none
  else (loads (if call.arguments = "" then "\x7b\x7d" else call.arguments)).map fun input =>
    .toolUse (.str call.id) (.str call.name) input

theorem toolUseOf_toJson (call : ToolCall) : toolUseOf loads call.toJson = call.block loads := by
  have hdict : toolUseOf loads call.toJson =
      if !(Json.str call.id).truthy || !(Json.str call.name).truthy then none
      else ((Json.str call.arguments).or (.str "\x7b\x7d")).asText.bind fun arguments =>
        (loads arguments).bind fun input =>
          some (.toolUse (.str call.id) (.str call.name) input) := rfl
  rw [hdict, ToolCall.block, truthy_str, truthy_str]
  by_cases hid : call.id = ""
  · simp [hid]
  · by_cases hname : call.name = ""
    · simp [hname]
    · simp only [hid, hname, ne_eq, not_false_eq_true, decide_true, Bool.not_true, Bool.or_self,
        Bool.false_eq_true, if_false, or_self]
      unfold Json.or
      rw [truthy_str]
      by_cases hargs : call.arguments = ""
      · rw [hargs]
        show (loads "\x7b\x7d").bind _ = (loads "\x7b\x7d").map _
        cases loads "\x7b\x7d" <;> rfl
      · rw [decide_eq_true hargs, if_neg hargs]
        show (loads call.arguments).bind _ = _
        cases loads call.arguments <;> rfl

/-- **The whole completion** has its text, the blocks of its calls, its reason and its
usage. -/
theorem whole_eq (c : Completion) :
    whole loads messageId model c = (c.calls.mapM (ToolCall.block loads)).map fun tools =>
      (c.textBlocks ++ tools, stopReason (optText c.finishReason), usageOf c.usage) := by
  have htools : (c.calls.map ToolCall.toJson).mapM (toolUseOf loads)
      = c.calls.mapM (ToolCall.block loads) := by
    rw [List.mapM_map]
    exact List.mapM_congr_mem fun call _ => toolUseOf_toJson call
  have hwhole : openaiChatResponseToAnthropic loads messageId c.toJson model =
      ((Json.arr (c.calls.map ToolCall.toJson)).or (.arr [])).iter.bind fun calls =>
        (calls.mapM (toolUseOf loads)).bind fun tools =>
          (usageFromOpenai (.obj c.usage)).bind fun usage => some
            { id := .str messageId, model := .str model
              content := (if (Json.str c.text).truthy then [.text (.str c.text)] else []) ++ tools
              stopReason := stopReason (optText c.finishReason)
              usage } := rfl
  rw [whole, hwhole, iter_arr_or, Option.bind_some, htools, usageFromOpenai_obj, truthy_str]
  cases c.calls.mapM (ToolCall.block loads) with
  | none => rfl
  | some tools =>
    rw [Completion.textBlocks]
    by_cases htext : c.text = ""
    · rw [htext]
      rfl
    · rw [decide_eq_true htext, if_neg htext]
      rfl

/-! ## What the chunks of a cut say -/

def CallPiece.delta (piece : CallPiece) : ToolDelta :=
  ⟨.number ((piece.index : ℤ) : ℚ), optText piece.id, optText piece.name, optText piece.arguments⟩

/-- What a piece says. What is empty says nothing. -/
def Piece.deltas : Piece → List Delta
  | .usage u => if u = [] then [] else [.usage (.obj u)]
  | .text t => if t = "" then [] else [.text (.str t)]
  | .call piece => [.tool piece.delta]
  | .finish reason => if reason = "" then [] else [.finish (.str reason)]

theorem read_optText (delta : Json → Delta) (piece : String → Piece)
    (h : ∀ s, (piece s).deltas = if s = "" then [] else [delta (.str s)]) (o : Option String) :
    (if (optText o).truthy then [delta (optText o)] else [])
      = (o.map piece).toList.flatMap Piece.deltas := by
  cases o with
  | none => rfl
  | some s =>
    show (if (Json.str s).truthy = true then [delta (.str s)] else []) = (piece s).deltas ++ []
    rw [List.append_nil, h, truthy_str]
    by_cases hs : s = "" <;> simp [hs]

theorem readChoice_toJson (piece : ChoicePiece) :
    readChoice piece.toJson = some (piece.pieces.flatMap Piece.deltas) := by
  have hread : readChoice piece.toJson =
      ((Json.arr (piece.calls.map CallPiece.toJson)).or (.arr [])).iter.bind fun calls =>
        (calls.mapM readToolDelta).bind fun tools =>
          some ((if (optText piece.content).truthy then [.text (optText piece.content)] else [])
            ++ (tools.flatten ++ if (optText piece.finishReason).truthy then
              [.finish (optText piece.finishReason)] else [])) := rfl
  have htools : (piece.calls.map CallPiece.toJson).mapM readToolDelta
      = some (piece.calls.map fun call => [.tool call.delta]) := by
    rw [List.mapM_map]
    show piece.calls.mapM (fun call => some [Delta.tool call.delta]) = _
    exact List.mapM_pure
  rw [hread, iter_arr_or, Option.bind_some, htools, Option.bind_some,
    read_optText .text .text fun _ => rfl, read_optText .finish .finish fun _ => rfl,
    ChoicePiece.pieces, List.flatMap_append, List.flatMap_append, List.flatMap_map]
  rfl

theorem readChunk_toJson (chunk : CompletionChunk) :
    readChunk chunk.toJson = some (chunk.pieces.flatMap Piece.deltas) := by
  have hchoices : (chunk.choices.map ChoicePiece.toJson).mapM readChoice
      = some (chunk.choices.map fun piece => piece.pieces.flatMap Piece.deltas) := by
    rw [List.mapM_map, List.mapM_congr_mem (f := readChoice ∘ ChoicePiece.toJson)
      fun piece _ => readChoice_toJson piece]
    exact List.mapM_pure
  have hread : ∀ usage, readChunk (.obj [("choices", .arr (chunk.choices.map ChoicePiece.toJson)),
      ("usage", usage)]) =
      ((Json.arr (chunk.choices.map ChoicePiece.toJson)).or (.arr [])).iter.bind fun choices =>
        (choices.mapM readChoice).bind fun deltas =>
          some ((if usage.truthy then [.usage usage] else []) ++ deltas.flatten) := fun _ => rfl
  rw [CompletionChunk.toJson, hread, iter_arr_or, Option.bind_some, hchoices, Option.bind_some,
    CompletionChunk.pieces, List.flatMap_append, List.flatMap_assoc, ← List.flatMap_def]
  cases chunk.usage with
  | none => rfl
  | some usage => cases usage <;> rfl

/-- **Chunks say what their pieces say.** -/
theorem mapM_readChunk (chunks : List CompletionChunk) :
    ∃ deltas, (chunks.map CompletionChunk.toJson).mapM readChunk = some deltas ∧
      deltas.flatten = (chunks.flatMap CompletionChunk.pieces).flatMap Piece.deltas := by
  refine ⟨chunks.map fun chunk => chunk.pieces.flatMap Piece.deltas, ?_, ?_⟩
  · rw [List.mapM_map, List.mapM_congr_mem (f := readChunk ∘ CompletionChunk.toJson)
      fun chunk _ => readChunk_toJson chunk]
    exact List.mapM_pure
  · rw [List.flatMap_assoc, ← List.flatMap_def]

/-! ## The translator follows the cut -/

open OpenAIChatStream Received

/-- A call, as the client has it while it is open. -/
def ToolCall.opened (call : ToolCall) : ContentBlock × String :=
  (.toolUse (.str call.id) (.str call.name) (.obj []), call.arguments)

/-- The tool calls that are open, the first of them as block `base`. -/
def toolIndexesOf (base n : ℕ) : List (Json.Key × ℕ) :=
  (List.range n).map fun i : ℕ => (.number ((i : ℤ) : ℚ), base + i)

theorem lookup_toolIndexesOf (base n i : ℕ) :
    (toolIndexesOf base n).lookup (.number ((i : ℤ) : ℚ))
      = if i < n then some (base + i) else none := by
  induction n with
  | zero => rfl
  | succ n ih =>
    have hsucc : toolIndexesOf base (n + 1)
        = toolIndexesOf base n ++ [(.number ((n : ℤ) : ℚ), base + n)] := by
      unfold toolIndexesOf
      rw [List.range_succ, List.map_append]
      rfl
    rw [hsucc, List.lookup_append, ih, List.lookup_cons]
    by_cases hlt : i < n
    · rw [if_pos hlt, if_pos (Nat.lt_succ_of_lt hlt)]
      rfl
    · rw [if_neg hlt]
      by_cases heq : i = n
      · rw [heq, beq_self_eq_true, if_pos (Nat.lt_succ_self n)]
        rfl
      · have hne : (Json.Key.number ((i : ℤ) : ℚ) == .number ((n : ℤ) : ℚ)) = false := by
          refine beq_false_of_ne fun hkey => heq ?_
          exact_mod_cast Json.Key.number.inj hkey
        rw [hne, if_neg (by omega)]
        rfl

/-- How many blocks stand before the calls. -/
def Completion.base (c : Completion) : ℕ := c.textBlocks.length

/-- **The translator and the client have what was joined**, while the calls are open. -/
structure Follows (c : Completion) (s : OpenAIChatStream) (r : Received) : Prop where
  nextIndex : s.nextIndex = c.base + c.calls.length
  textIndex : s.textIndex = if c.calls = [] ∧ c.text ≠ "" then some 0 else none
  toolIndexes : s.toolIndexes = toolIndexesOf c.base c.calls.length
  usage : s.usage = .obj c.usage
  finishReason : c.finishReason ≠ some "" → s.finishReason = optText c.finishReason
  /-- A reason that was told is not empty. -/
  reason : s.finishReason ≠ .str ""
  blocks : r.blocks = c.textBlocks.map (·, "") ++ c.calls.map ToolCall.opened
  named : ∀ call ∈ c.calls, call.id ≠ "" ∧ call.name ≠ ""

/-- A call lacks its id or its name. -/
def Completion.Unnamed (c : Completion) : Prop :=
  ∃ call ∈ c.calls, call.id = "" ∨ call.name = ""

variable {c c' : Completion} {s s' : OpenAIChatStream} {r r' : Received}

theorem step_grow {index : ℕ} {delta : BlockDelta} {block block' : ContentBlock × String}
    (hblock : r.blocks[index]? = some block) (hgrow : grow block delta = some block') :
    (client loads).step r (.contentBlockDelta index delta)
      = some { r with blocks := r.blocks.set index block' } := by
  show (r.blocks[index]?).bind _ = _
  rw [hblock, Option.bind_some, hgrow]
  rfl

theorem step_add {index : ℕ} {block : ContentBlock} (h : index = r.blocks.length) :
    (client loads).step r (.contentBlockStart index block)
      = some { r with blocks := r.blocks ++ [(block, "")] } := if_pos h

theorem Follows.length_blocks (h : Follows c s r) :
    r.blocks.length = c.base + c.calls.length := by
  rw [h.blocks, List.length_append, List.length_map, List.length_map]
  rfl

theorem Follows.run_closeText (h : Follows c s r) :
    (client loads).run r s.closeTextBlock.2 = some r := by
  unfold closeTextBlock
  rw [h.textIndex]
  by_cases hboth : c.calls = [] ∧ c.text ≠ ""
  · rw [if_pos hboth]
    have hblocks : r.blocks = [(.text (.str c.text), "")] := by
      rw [h.blocks, Completion.textBlocks, if_neg hboth.2, hboth.1]
      rfl
    show ((r.blocks[0]?.bind _).bind _) = _
    rw [hblocks]
    show some { r with blocks := [(.text (.str c.text), "")] } = _
    rw [← hblocks]
  · rw [if_neg hboth]
    rfl

theorem Follows.joinText (h : Follows c s r) {text : String} (htext : text ≠ "")
    (hcalls : c.calls = []) : ∃ s' out r',
    s.applyDelta (.text (.str text)) = some (s', out) ∧ (client loads).run r out = some r' ∧
      Follows { c with text := c.text ++ text } s' r' := by
  have hne : c.text ++ text ≠ "" := fun hnil => htext (String.append_eq_empty_iff.mp hnil).2
  have hbase : Completion.base { c with text := c.text ++ text } = 1 := by
    rw [Completion.base, Completion.textBlocks, if_neg hne]
    rfl
  have hblocks' : (Completion.textBlocks { c with text := c.text ++ text }).map (·, "")
      ++ c.calls.map ToolCall.opened = [(.text (.str (c.text ++ text)), "")] := by
    rw [Completion.textBlocks, if_neg hne, hcalls]
    rfl
  by_cases hempty : c.text = ""
  · have hnone : s.textIndex = none := by
      rw [h.textIndex, if_neg fun hboth => hboth.2 hempty]
    have hbase₀ : c.base = 0 := by
      rw [Completion.base, Completion.textBlocks, if_pos hempty]
      rfl
    have hnext : s.nextIndex = 0 := by rw [h.nextIndex, hbase₀, hcalls]; rfl
    have htools : s.toolIndexes = [] := by rw [h.toolIndexes, hcalls]; rfl
    have hblocks : r.blocks = [] := by
      rw [h.blocks, Completion.textBlocks, if_pos hempty, hcalls]
      rfl
    refine ⟨_, _, { r with blocks := [(.text (.str ("" ++ text)), "")] }, applyText_of_new hnone,
      ?_, ?_⟩
    · rw [show s.closeToolBlocks.2 = s.toolIndexes.map fun t => .contentBlockStop t.2 from rfl,
        htools, hnext, List.map_nil, List.nil_append, TransitionSystem.run_cons,
        step_add (by rw [hblocks]; rfl), Option.bind_some, hblocks, TransitionSystem.run_cons,
        step_grow rfl rfl]
      rfl
    · refine ⟨?_, ?_, ?_, h.usage, h.finishReason, h.reason, ?_, h.named⟩
      · rw [hbase]
        show s.nextIndex + 1 = 1 + c.calls.length
        rw [hnext, hcalls]
        rfl
      · rw [if_pos ⟨hcalls, hne⟩]
        show some s.nextIndex = some 0
        rw [hnext]
      · show [] = toolIndexesOf _ c.calls.length
        rw [hcalls]
        rfl
      · rw [hblocks', hempty]
  · have hsome : s.textIndex = some 0 := by rw [h.textIndex, if_pos ⟨hcalls, hempty⟩]
    have hblocks : r.blocks = [(.text (.str c.text), "")] := by
      rw [h.blocks, Completion.textBlocks, if_neg hempty, hcalls]
      rfl
    have hbase₀ : c.base = 1 := by
      rw [Completion.base, Completion.textBlocks, if_neg hempty]
      rfl
    refine ⟨_, _, { r with blocks := [(.text (.str (c.text ++ text)), "")] },
      applyText_of_open hsome, ?_, ?_⟩
    · rw [TransitionSystem.run_cons, step_grow (by rw [hblocks]; rfl) rfl, hblocks]
      rfl
    · refine ⟨?_, ?_, ?_, h.usage, h.finishReason, h.reason, ?_, h.named⟩
      · rw [hbase, h.nextIndex, hbase₀]
      · rw [if_pos ⟨hcalls, hne⟩, hsome]
      · rw [h.toolIndexes, hbase, hbase₀]
      · rw [hblocks']

theorem run_arguments {index : ℕ} {piece : CallPiece} {id name input : Json} {partialJson : String}
    (hblock : r.blocks[index]? = some (.toolUse id name input, partialJson)) :
    (client loads).run r (argumentEvents index piece.delta) = some { r with
      blocks := r.blocks.set index
        (.toolUse id name input, partialJson ++ piece.arguments.getD "") } := by
  unfold argumentEvents CallPiece.delta
  cases piece.arguments with
  | none =>
    obtain ⟨hlt, heq⟩ := List.getElem?_eq_some_iff.mp hblock
    show some r = some { r with blocks := r.blocks.set index (_, partialJson ++ "") }
    rw [String.append_empty, ← heq, List.set_getElem_self]
  | some arguments =>
    show (client loads).run r [.contentBlockDelta index (.inputJson (.str arguments))] = _
    rw [TransitionSystem.run_cons, step_grow hblock rfl]
    rfl

def ToolCall.argued (piece : CallPiece) (call : ToolCall) : ToolCall :=
  { call with arguments := call.arguments ++ piece.arguments.getD "" }

/-- The completion, with more arguments for a call that began. -/
def Completion.argued (c : Completion) (piece : CallPiece) : Completion :=
  { c with calls := c.calls.modify piece.index (ToolCall.argued piece) }

theorem map_modify_eq_set {α β : Type} (f : α → β) (g : α → α) {l : List α} {i : ℕ} {a : α}
    (h : l[i]? = some a) : (l.modify i g).map f = (l.map f).set i (f (g a)) := by
  obtain ⟨hlt, -⟩ := List.getElem?_eq_some_iff.mp h
  ext1 j
  rw [List.getElem?_map, List.getElem?_modify, List.getElem?_set, List.getElem?_map,
    List.length_map]
  by_cases hj : i = j
  · rw [if_pos hj, ← hj, h, if_pos hlt]
    simp
  · rw [if_neg hj]
    simp [hj]

theorem Completion.getElem?_argued (c : Completion) (piece : CallPiece) (i : ℕ) :
    ((c.argued piece).calls[i]?).map (fun call => (call.id, call.name))
      = (c.calls[i]?).map fun call => (call.id, call.name) := by
  show ((c.calls.modify piece.index (ToolCall.argued piece))[i]?).map _ = _
  rw [List.getElem?_modify, Option.map_eq_map, Option.map_map]
  congr 1
  ext call <;> simp only [Function.comp_apply] <;> split <;> rfl

theorem Completion.exists_of_mem_argued {piece : CallPiece} {call : ToolCall}
    (h : call ∈ (c.argued piece).calls) :
    ∃ old ∈ c.calls, call.id = old.id ∧ call.name = old.name := by
  obtain ⟨i, hi⟩ := List.mem_iff_getElem?.mp h
  have hsame := c.getElem?_argued piece i
  rw [hi, Option.map_some, eq_comm, Option.map_eq_some_iff] at hsame
  obtain ⟨old, hold, heq⟩ := hsame
  obtain ⟨hid, hname⟩ := Prod.mk.inj heq
  exact ⟨old, List.mem_iff_getElem?.mpr ⟨i, hold⟩, hid.symm, hname.symm⟩

theorem Completion.exists_mem_argued (piece : CallPiece) {call : ToolCall} (h : call ∈ c.calls) :
    ∃ new ∈ (c.argued piece).calls, new.id = call.id ∧ new.name = call.name := by
  obtain ⟨i, hi⟩ := List.mem_iff_getElem?.mp h
  have hsame := c.getElem?_argued piece i
  rw [hi, Option.map_some, Option.map_eq_some_iff] at hsame
  obtain ⟨new, hnew, heq⟩ := hsame
  obtain ⟨hid, hname⟩ := Prod.mk.inj heq
  exact ⟨new, List.mem_iff_getElem?.mpr ⟨i, hnew⟩, hid, hname⟩

theorem Follows.joinArguments (h : Follows c s r) {piece : CallPiece}
    (hlt : piece.index < c.calls.length) : ∃ s' out r',
    s.applyDelta (.tool piece.delta) = some (s', out) ∧ (client loads).run r out = some r' ∧
      Follows (c.argued piece) s' r' := by
  have hlookup : s.toolIndexes.lookup piece.delta.key = some (c.base + piece.index) := by
    rw [h.toolIndexes, CallPiece.delta, lookup_toolIndexesOf, if_pos hlt]
  obtain ⟨call, hcall⟩ : ∃ call, c.calls[piece.index]? = some call :=
    ⟨c.calls[piece.index], List.getElem?_eq_getElem hlt⟩
  have hlength : (c.textBlocks.map fun b => (b, "")).length = c.base := List.length_map _
  have hblock : r.blocks[c.base + piece.index]? = some call.opened := by
    rw [h.blocks, List.getElem?_append_right (by omega), hlength, Nat.add_sub_cancel_left,
      List.getElem?_map, hcall]
    rfl
  have hcalls : (c.argued piece).calls.length = c.calls.length := List.length_modify ..
  have hnil : (c.argued piece).calls = [] ↔ c.calls = [] := by
    rw [← List.length_eq_zero_iff, hcalls, List.length_eq_zero_iff]
  refine ⟨_, _, _, applyTool_of_open hlookup, run_arguments hblock, ?_⟩
  refine ⟨?_, ?_, ?_, h.usage, h.finishReason, h.reason, ?_, fun other hother => ?_⟩
  · rw [hcalls]
    exact h.nextIndex
  · rw [h.textIndex]
    simp only [hnil]
    rfl
  · rw [hcalls]
    exact h.toolIndexes
  · show r.blocks.set (c.base + piece.index) _ = _ ++ ((c.argued piece).calls.map _)
    rw [h.blocks, List.set_append_right _ _ (by omega), hlength, Nat.add_sub_cancel_left]
    exact congrArg _ (map_modify_eq_set ToolCall.opened (ToolCall.argued piece) hcall).symm
  · obtain ⟨old, hold, hid, hname⟩ := Completion.exists_of_mem_argued hother
    rw [hid, hname]
    exact h.named old hold

variable (loads) in
theorem Follows.joinCall (h : Follows c s r) {piece : CallPiece} {id name : String}
    (hindex : piece.index = c.calls.length) (hid : piece.id = some id)
    (hname : piece.name = some name) :
    (id ≠ "" ∧ name ≠ "" → ∃ s' out r',
      s.applyDelta (.tool piece.delta) = some (s', out) ∧ (client loads).run r out = some r' ∧
        Follows { c with calls := c.calls ++ [⟨id, name, piece.arguments.getD ""⟩] } s' r') ∧
    (¬(id ≠ "" ∧ name ≠ "") → s.applyDelta (.tool piece.delta) = none) := by
  have hlookup : s.toolIndexes.lookup piece.delta.key = none := by
    rw [h.toolIndexes, CallPiece.delta, lookup_toolIndexesOf, hindex, if_neg (Nat.lt_irrefl _)]
  have happly := applyTool_of_new hlookup
  have hid' : piece.delta.id = .str id := by rw [CallPiece.delta, hid]; rfl
  have hname' : piece.delta.name = .str name := by rw [CallPiece.delta, hname]; rfl
  rw [hid', hname'] at happly
  simp only [truthy_str, decide_eq_true_eq] at happly
  refine ⟨fun hnamed => ?_, fun hnot => ?_⟩
  · rw [if_pos hnamed] at happly
    have hblock : ∀ b : ContentBlock × String,
        (r.blocks ++ [b])[s.nextIndex]? = some b := by
      intro b
      rw [h.nextIndex, ← h.length_blocks, List.getElem?_append_right (Nat.le_refl _), Nat.sub_self]
      rfl
    refine ⟨_, _, { r with blocks := r.blocks ++
      [ToolCall.opened ⟨id, name, piece.arguments.getD ""⟩] }, happly, ?_, ?_⟩
    · rw [TransitionSystem.run_append, TransitionSystem.run_append, h.run_closeText,
        Option.bind_some, TransitionSystem.run_cons,
        step_add (h.nextIndex.trans h.length_blocks.symm), Option.bind_some]
      show (client loads).run _ _ = _
      rw [run_arguments (hblock _), h.nextIndex, ← h.length_blocks, List.set_append_right _ _
        (Nat.le_refl _), Nat.sub_self, String.empty_append]
      rfl
    · have hlength : (c.calls ++ [(⟨id, name, piece.arguments.getD ""⟩ : ToolCall)]).length
          = c.calls.length + 1 := List.length_append
      have hne : c.calls ++ [(⟨id, name, piece.arguments.getD ""⟩ : ToolCall)] ≠ [] :=
        List.append_ne_nil_of_right_ne_nil _ (List.cons_ne_nil _ _)
      refine ⟨?_, ?_, ?_, ?_, ?_, ?_, ?_, fun call hcall => ?_⟩
      · rw [hlength]
        show s.nextIndex + 1 = _
        rw [h.nextIndex]
        rfl
      · rw [if_neg fun hboth => hne hboth.1]
        exact s.closeTextBlock_textIndex
      · rw [hlength]
        show s.toolIndexes ++ [(piece.delta.key, s.nextIndex)] = toolIndexesOf c.base _
        rw [h.toolIndexes, h.nextIndex, toolIndexesOf, toolIndexesOf, List.range_succ,
          List.map_append, CallPiece.delta, hindex]
        rfl
      · show s.closeTextBlock.1.usage = _
        unfold closeTextBlock
        split <;> exact h.usage
      · show _ → s.closeTextBlock.1.finishReason = _
        unfold closeTextBlock
        split <;> exact h.finishReason
      · show s.closeTextBlock.1.finishReason ≠ _
        unfold closeTextBlock
        split <;> exact h.reason
      · show r.blocks ++ _ = c.textBlocks.map _ ++ (c.calls ++ [_]).map _
        rw [h.blocks, List.map_append, List.append_assoc]
        rfl
      · rcases List.mem_append.mp hcall with hold | hnew
        · exact h.named call hold
        · rw [List.mem_singleton.mp hnew]
          exact hnamed
  · rw [if_neg hnot] at happly
    exact happly

variable (loads) in
/-- **A piece follows**, or it begins a call without an id or a name. -/
theorem Follows.step (h : Follows c s r) {piece : Piece} (hjoin : c.join piece = some c') :
    (∃ s' out r', deltaMachine.run s piece.deltas = some (s', out) ∧
      (client loads).run r out = some r' ∧ Follows c' s' r') ∨
    deltaMachine.run s piece.deltas = none ∧ c'.Unnamed := by
  cases piece with
  | usage u =>
    refine .inl ?_
    cases hjoin
    by_cases hnil : u = []
    · rw [Piece.deltas, if_pos hnil]
      refine ⟨s, [], r, rfl, rfl, ?_⟩
      simp only [hnil, if_true]
      exact h
    · rw [Piece.deltas, if_neg hnil]
      refine ⟨_, _, r, rfl, rfl, ?_⟩
      simp only [hnil, if_false]
      exact ⟨h.nextIndex, h.textIndex, h.toolIndexes, rfl, h.finishReason, h.reason, h.blocks,
        h.named⟩
  | finish reason =>
    refine .inl ?_
    cases hjoin
    by_cases hempty : reason = ""
    · rw [Piece.deltas, if_pos hempty]
      refine ⟨s, [], r, rfl, rfl, ?_⟩
      exact ⟨h.nextIndex, h.textIndex, h.toolIndexes, h.usage,
        fun hne => absurd (congrArg some hempty) hne, h.reason, h.blocks, h.named⟩
    · rw [Piece.deltas, if_neg hempty]
      refine ⟨_, _, r, rfl, rfl, ?_⟩
      exact ⟨h.nextIndex, h.textIndex, h.toolIndexes, h.usage, fun _ => rfl,
        fun heq => hempty (Json.str.inj heq), h.blocks, h.named⟩
  | text t =>
    refine .inl ?_
    simp only [Completion.join] at hjoin
    rw [Piece.deltas]
    split at hjoin
    · next hempty =>
      cases hjoin
      rw [if_pos hempty]
      exact ⟨s, [], r, rfl, rfl, h⟩
    · next htext =>
      split at hjoin
      · next hcalls =>
        cases hjoin
        obtain ⟨s', out, r', hstep, hrun, hfollows⟩ := h.joinText htext hcalls
        rw [if_neg htext, Machine.run_singleton]
        exact ⟨s', out, r', hstep, hrun, hfollows⟩
      · cases hjoin
  | call piece =>
    simp only [Completion.join] at hjoin
    rw [Piece.deltas, Machine.run_singleton]
    split at hjoin
    · next hlt =>
      cases hjoin
      exact .inl (h.joinArguments hlt)
    · split at hjoin
      · next hindex =>
        split at hjoin
        · next id name hid hname =>
          cases hjoin
          obtain ⟨hok, hfail⟩ := h.joinCall loads hindex hid hname
          by_cases hnamed : id ≠ "" ∧ name ≠ ""
          · exact .inl (hok hnamed)
          · refine .inr ⟨hfail hnamed, _, List.mem_append_right _ (List.mem_singleton_self _), ?_⟩
            rwa [not_and_or, not_not, not_not] at hnamed
        · cases hjoin
      · cases hjoin

theorem Completion.Unnamed.join (h : c.Unnamed) {piece : Piece} (hjoin : c.join piece = some c') :
    c'.Unnamed := by
  obtain ⟨call, hcall, hlacks⟩ := h
  cases piece with
  | usage u =>
    cases hjoin
    exact ⟨call, hcall, hlacks⟩
  | finish reason =>
    cases hjoin
    exact ⟨call, hcall, hlacks⟩
  | text t =>
    simp only [Completion.join] at hjoin
    split at hjoin
    · cases hjoin
      exact ⟨call, hcall, hlacks⟩
    · split at hjoin
      · cases hjoin
        exact ⟨call, hcall, hlacks⟩
      · cases hjoin
  | call piece =>
    simp only [Completion.join] at hjoin
    split at hjoin
    · cases hjoin
      obtain ⟨new, hnew, hid, hname⟩ := Completion.exists_mem_argued piece hcall
      exact ⟨new, hnew, hid ▸ hname ▸ hlacks⟩
    · split at hjoin
      · split at hjoin
        · cases hjoin
          exact ⟨call, List.mem_append_left _ hcall, hlacks⟩
        · cases hjoin
      · cases hjoin

variable (loads) in
/-- **Pieces follow**, or one of them begins a call without an id or a name. -/
theorem Follows.run (h : Follows c s r) {pieces : List Piece}
    (hjoin : Completion.joining.run c pieces = some c') :
    (∃ s' out r', deltaMachine.run s (pieces.flatMap Piece.deltas) = some (s', out) ∧
      (client loads).run r out = some r' ∧ Follows c' s' r') ∨
    deltaMachine.run s (pieces.flatMap Piece.deltas) = none ∧ c'.Unnamed := by
  induction pieces generalizing c s r with
  | nil =>
    cases hjoin
    exact .inl ⟨s, [], r, rfl, rfl, h⟩
  | cons piece pieces ih =>
    rw [TransitionSystem.run_cons] at hjoin
    obtain ⟨c₁, hpiece, hjoin⟩ := Option.bind_eq_some_iff.mp hjoin
    rw [List.flatMap_cons, Machine.run_append]
    rcases h.step loads hpiece with ⟨s₁, out₁, r₁, hstep, hrun₁, h₁⟩ | ⟨hnone, hlacks⟩
    · rw [hstep, Option.bind_some]
      rcases ih h₁ hjoin with ⟨s', out, r', hrest, hrun, h'⟩ | ⟨hnone, hlacks⟩
      · refine .inl ⟨s', out₁ ++ out, r', ?_, ?_, h'⟩
        · rw [hrest, Option.map_some]
        · rw [TransitionSystem.run_append, hrun₁, Option.bind_some, hrun]
      · refine .inr ⟨?_, hlacks⟩
        rw [hnone, Option.map_none]
    · refine .inr ⟨?_, ?_⟩
      · rw [hnone, Option.bind_none]
      · exact Completion.joining.run_invariant (fun _ _ _ hc hstep => hc.join hstep) hlacks pieces
          hjoin

theorem close_opened (hloads : loads "\x7b\x7d" = some (.obj [])) {call : ToolCall}
    (hnamed : call.id ≠ "" ∧ call.name ≠ "") :
    close loads call.opened = (call.block loads).map (·, "") := by
  show (inputOf loads call.arguments (.obj [])).map (fun input =>
    (ContentBlock.toolUse (.str call.id) (.str call.name) input, "")) = _
  unfold ToolCall.block inputOf
  rw [if_neg (not_or.mpr hnamed), Option.map_map]
  by_cases hargs : call.arguments = ""
  · rw [if_pos hargs, if_pos hargs, hloads]
    rfl
  · rw [if_neg hargs, if_neg hargs]
    rfl

theorem run_closeTools (hloads : loads "\x7b\x7d" = some (.obj [])) (r : Received)
    {calls : List ToolCall} (hnamed : ∀ call ∈ calls, call.id ≠ "" ∧ call.name ≠ "")
    (before : List (ContentBlock × String)) :
    (client loads).run { r with blocks := before ++ calls.map ToolCall.opened }
      ((List.range calls.length).map fun i => .contentBlockStop (before.length + i))
      = (calls.mapM (ToolCall.block loads)).map fun tools =>
        { r with blocks := before ++ tools.map (·, "") } := by
  induction calls generalizing before with
  | nil => rfl
  | cons call calls ih =>
    have hstop : (client loads).step { r with blocks := before ++ (call :: calls).map ToolCall.opened }
        (.contentBlockStop (before.length + 0)) = (call.block loads).map fun block =>
          { r with blocks := before ++ [(block, "")] ++ calls.map ToolCall.opened } := by
      show ((before ++ _)[before.length + 0]?).bind _ = _
      rw [Nat.add_zero, List.getElem?_append_right (Nat.le_refl _), Nat.sub_self, List.map_cons,
        List.getElem?_cons_zero, Option.bind_some, close_opened hloads (hnamed call List.mem_cons_self)]
      cases call.block loads with
      | none => rfl
      | some block =>
        show some { r with blocks := (before ++ _).set before.length (block, "") } = _
        rw [List.set_append_right _ _ (Nat.le_refl _), Nat.sub_self, Option.map_some,
          List.append_assoc]
        rfl
    rw [List.length_cons, List.range_succ_eq_map, List.mapM_cons]
    show (client loads).run _ (.contentBlockStop (before.length + 0) :: List.map _ _) = _
    rw [TransitionSystem.run_cons, hstop]
    cases call.block loads with
    | none => rfl
    | some block =>
      have hnext := ih (fun other hother => hnamed other (List.mem_cons_of_mem _ hother))
        (before ++ [(block, "")])
      rw [List.map_map]
      show (client loads).run _ (List.map (fun i => .contentBlockStop (before.length + (i + 1))) _) = _
      rw [show (fun i => StreamEvent.contentBlockStop (before.length + (i + 1)))
        = fun i => .contentBlockStop ((before ++ [(block, "")]).length + i) by
          funext i
          rw [List.length_append, List.length_singleton, Nat.add_assoc, Nat.add_comm 1 i], hnext]
      show _ = Option.map _ ((calls.mapM (ToolCall.block loads)).bind fun tools =>
        some (block :: tools))
      cases calls.mapM (ToolCall.block loads) with
      | none => rfl
      | some tools =>
        show some _ = some _
        simp

theorem Follows.finish (hloads : loads "\x7b\x7d" = some (.obj [])) (h : Follows c s r) :
    ∃ events, s.finishEvents = some events ∧
      ((client loads).run r events).map content
        = (c.calls.mapM (ToolCall.block loads)).map fun tools =>
          (c.textBlocks ++ tools, stopReason s.finishReason, usageOf c.usage) := by
  have husage : usageFromOpenai s.usage = some (usageOf c.usage) := by
    rw [h.usage, usageFromOpenai_obj]
  refine ⟨_, s.finishEvents_of_usage husage, ?_⟩
  have hbefore : (c.textBlocks.map fun b => (b, "")).length = c.base := List.length_map _
  have hstops : (s.toolIndexes.map fun t => StreamEvent.contentBlockStop t.2)
      = (List.range c.calls.length).map fun i =>
        .contentBlockStop ((c.textBlocks.map fun b => (b, "")).length + i) := by
    rw [h.toolIndexes, toolIndexesOf, List.map_map, hbefore]
    rfl
  have hr : r = ⟨(c.textBlocks.map fun b => (b, "")) ++ c.calls.map ToolCall.opened,
      r.stopReason, r.usage⟩ := by rw [← h.blocks]
  rw [TransitionSystem.run_append, TransitionSystem.run_append, h.run_closeText, Option.bind_some,
    hstops]
  conv_lhs => rw [hr]
  rw [run_closeTools hloads r h.named]
  cases c.calls.mapM (ToolCall.block loads) with
  | none => rfl
  | some tools =>
    show some (content _) = some _
    unfold content
    simp [Function.comp_def]

theorem stopReason_ne {reason : Json} (h : reason ≠ .str "") : stopReason reason ≠ .str "" := by
  unfold stopReason
  split
  · exact fun heq => absurd (Json.str.inj heq) (by decide)
  · split
    · exact fun heq => absurd (Json.str.inj heq) (by decide)
    · split
      · exact fun heq => absurd (Json.str.inj heq) (by decide)
      · exact h

theorem isSome_block (call : ToolCall) : (call.block loads).isSome = true ↔
    call.id ≠ "" ∧ call.name ≠ "" ∧
      (loads (if call.arguments = "" then "\x7b\x7d" else call.arguments)).isSome = true := by
  unfold ToolCall.block
  split
  · next hlacks =>
    refine iff_of_false Bool.false_ne_true fun hall => ?_
    exact hlacks.elim hall.1 hall.2.1
  · next hnamed =>
    rw [not_or] at hnamed
    rw [Option.isSome_map]
    exact ⟨fun hsome => ⟨hnamed.1, hnamed.2, hsome⟩, fun hall => hall.2.2⟩

theorem acceptable_iff : c.Acceptable loads ↔
    (c.calls.mapM (ToolCall.block loads)).isSome = true := by
  rw [List.isSome_mapM_iff]
  exact forall₂_congr fun call _ => (isSome_block call).symm

variable (messageId model) in
/-- **What a client makes of a cut**, whatever the cut: the text of the completion, the blocks
of its calls and its usage; and where its finish reason is not empty, its reason. -/
theorem streamed_eq (hloads : loads "\x7b\x7d" = some (.obj [])) {chunks : List CompletionChunk}
    (hcut : c.Cut chunks) : ∃ reason : Json, reason ≠ .str "" ∧
      (c.finishReason ≠ some "" → reason = stopReason (optText c.finishReason)) ∧
      streamed loads messageId model chunks = (c.calls.mapM (ToolCall.block loads)).map fun tools =>
        (c.textBlocks ++ tools, reason, usageOf c.usage) := by
  obtain ⟨deltas, hread, hflatten⟩ := mapM_readChunk chunks
  have hstart : (client loads).step {} (.messageStart (startMessage messageId model))
      = some { usage := (startMessage messageId model).usage } := rfl
  have hfollows : Follows {} {} { usage := (startMessage messageId model).usage } :=
    ⟨rfl, rfl, rfl, rfl, fun _ => rfl, fun heq => (by cases heq), rfl,
      fun _ hcall => absurd hcall List.not_mem_nil⟩
  have hrun := run_chunks_eq {} (chunks.map CompletionChunk.toJson)
  rw [hread, Option.bind_some, hflatten] at hrun
  have hstreamed : streamed loads messageId model chunks =
      ((deltaMachine.run {} ((chunks.flatMap CompletionChunk.pieces).flatMap Piece.deltas)).bind
        fun p => p.1.finishEvents.bind fun finished =>
          ((client loads).run { usage := (startMessage messageId model).usage }
            (p.2 ++ finished)).map content) := by
    unfold streamed streamEvents
    rw [← hrun]
    show (Option.bind (Option.bind (Machine.run ⟨eventsForChunk⟩ {} _) _) _) = _
    cases Machine.run ⟨eventsForChunk⟩ {} (chunks.map CompletionChunk.toJson) with
    | none => rfl
    | some p =>
      show Option.bind (Option.bind p.1.finishEvents _) _ = _
      rw [Option.bind_some]
      cases p.1.finishEvents with
      | none => rfl
      | some finished =>
        show ((client loads).run {} (.messageStart (startMessage messageId model)
          :: (p.2 ++ finished))).bind _ = ((client loads).run _ (p.2 ++ finished)).map content
        rw [TransitionSystem.run_cons, hstart, Option.bind_some]
        cases (client loads).run _ (p.2 ++ finished) <;> rfl
  rcases hfollows.run loads hcut with ⟨s, body, r, hbody, hclient, h⟩ | ⟨hnone, hlacks⟩
  · obtain ⟨finished, hfinished, hreceived⟩ := h.finish hloads
    refine ⟨stopReason s.finishReason, stopReason_ne h.reason, fun hne => ?_, ?_⟩
    · rw [h.finishReason hne]
    · rw [hstreamed, hbody, Option.bind_some, hfinished, Option.bind_some,
        TransitionSystem.run_append, hclient, Option.bind_some, hreceived]
  · refine ⟨if c.finishReason = some "" then .null else stopReason (optText c.finishReason),
      ?_, fun hne => if_neg hne, ?_⟩
    · split
      · exact fun heq => (by cases heq)
      · next hne =>
        refine stopReason_ne fun heq => hne ?_
        cases hreason : c.finishReason with
        | none =>
          rw [hreason] at heq
          cases heq
        | some reason =>
          rw [hreason] at heq
          rw [Json.str.inj heq]
    · have hrefused : c.calls.mapM (ToolCall.block loads) = none := by
        rw [← Option.not_isSome_iff_eq_none, ← acceptable_iff]
        obtain ⟨call, hcall, hlacks⟩ := hlacks
        exact fun hall => hlacks.elim (hall call hcall).1 (hall call hcall).2.1
      rw [hstreamed, hnone, Option.bind_none, hrefused]
      rfl

/-- **The two translations agree**, for every cut, exactly where the finish reason is not
empty, or the completion is refused by both. -/
theorem streamed_eq_iff (hloads : loads "\x7b\x7d" = some (.obj [])) {chunks : List CompletionChunk}
    (hcut : c.Cut chunks) : streamed loads messageId model chunks = whole loads messageId model c ↔
      c.finishReason ≠ some "" ∨ ¬c.Acceptable loads := by
  obtain ⟨reason, hreason, hsame, hstreamed⟩ :=
    streamed_eq messageId model hloads hcut
  rw [hstreamed, whole_eq, acceptable_iff]
  cases c.calls.mapM (ToolCall.block loads) with
  | none => exact iff_of_true rfl (.inr Bool.false_ne_true)
  | some tools =>
    constructor
    · intro heq
      refine .inl fun hempty => hreason ?_
      have hboth := (Prod.mk.inj (Prod.mk.inj (Option.some.inj heq)).2).1
      rw [hboth, hempty]
      rfl
    · intro hor
      rw [hsame (hor.resolve_right fun hnot => hnot rfl)]

def parseTwo (text : String) : Option Json :=
  if text = "\x7b\x7d" then some (.obj [])
  else if text = "\x7b\"cmd\":\"pwd\"\x7d" then some (.obj [("cmd", .str "pwd")])
  else none

/-- Text and two calls, the arguments of the first in three pieces. -/
def twoCalls : List CompletionChunk :=
  [{ choices := [{ content := some "Check" }] }, { choices := [{ content := some "ing" }] },
    { choices := [{ calls := [{ index := 0, id := some "call_1", name := some "Bash"
                                arguments := some "" }] }] },
    { choices := [{ calls := [{ index := 0, arguments := some "\x7b\"cmd\":" },
                              { index := 1, id := some "call_2", name := some "List" }] }] },
    { choices := [{ calls := [{ index := 0, arguments := some "\"pwd\"\x7d" }]
                    finishReason := some "tool_calls" }] },
    { usage := some [("prompt_tokens", .int 8), ("completion_tokens", .int 3)] }]

/-- The completion that `twoCalls` is a cut of. -/
def twoCallsJoined : Completion where
  text := "Checking"
  calls := [⟨"call_1", "Bash", "\x7b\"cmd\":\"pwd\"\x7d"⟩, ⟨"call_2", "List", ""⟩]
  finishReason := some "tool_calls"
  usage := [("prompt_tokens", .int 8), ("completion_tokens", .int 3)]

theorem streamed_eq_iff_twoCalls :
    streamed parseTwo "m" "model" twoCalls = whole parseTwo "m" "model" twoCallsJoined :=
  (streamed_eq_iff rfl (show twoCallsJoined.Cut twoCalls from rfl)).mpr (.inl (by decide))

/-- **An empty finish reason** is no reason to the stream, and one to the other translator. -/
theorem empty_reason :
    Completion.Cut { text := "Hi", finishReason := some "" }
      [{ choices := [{ content := some "Hi", finishReason := some "" }] }] ∧
    streamed parseTwo "m" "model" [{ choices := [{ content := some "Hi", finishReason := some "" }] }]
      = some ([.text (.str "Hi")], .str "end_turn", usageOf []) ∧
    whole parseTwo "m" "model" { text := "Hi", finishReason := some "" }
      = some ([.text (.str "Hi")], .str "", usageOf []) := ⟨rfl, rfl, rfl⟩

end AnthropicProxy
