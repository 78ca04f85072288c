import CharlieBot.Lib.Fallible
import CharlieBot.Lib.Json
import CharlieBot.Lib.Traverse

/-!
# An Anthropic request, translated

A client of the proxy posts a request of the Anthropic protocol, which is
translated to one of the OpenAI protocol. A user message becomes several
messages, one for each tool result and one for each stretch of text around
them; the texts of an assistant message become one, and its tool calls a
list beside it.

What a request is to tell is read off the body alone (`conversation`): its
texts, tool calls and tool results, in order. The translation returns a
request that tells just that, where the body can be read so, and raises a
`ValueError` where it cannot. Two bodies are neither: one that is no object,
on which the first `get` raises, and one whose `tools` is a number
(`translates_iff`).
-/

namespace AnthropicProxy

/-! ## The translation -/

/-- What the translation raises. -/
inductive RequestError
  | valueError (message : String)
  | typeError (message : String)
  | attributeError (message : String)
  deriving DecidableEq, Repr

/-- The status a request is answered with: the route turns a `ValueError` to
a bad request, and lets the others pass. -/
def RequestError.status : RequestError → ℕ
  | .valueError _ => 400
  | .typeError _ => 500
  | .attributeError _ => 500

structure Spelling where
  /-- `json.dumps` without blanks. -/
  dumps : Json → String
  /-- `repr`. -/
  repr : Json → String

variable (w : Spelling)

/-- `str(value)`. -/
def Spelling.text : Json → String
  | .str s => s
  | value => w.repr value

/-- A `ValueError` under a condition. -/
def refuseIf (p : Prop) [Decidable p] (message : String) : Except RequestError Unit :=
  if p then .error (.valueError message) else .ok ()

def requireDict (value : Json) (label : String) : Except RequestError Dict :=
  match value with
  | .obj fields => .ok fields
  | _ => .error (.valueError (label ++ " must be an object"))

/-- One block of `_blocks_to_text`. -/
def blockToText (label : String) (rawBlock : Json) : Except RequestError String := do
  let block ← requireDict rawBlock (label ++ " block")
  let blockType := block.get "type"
  refuseIf (blockType.isText "text" = false)
    ("unsupported " ++ label ++ " block type: " ++ w.text blockType)
  return w.text (block.getD "text" (.str ""))

def blocksToText (content : Json) (label : String) : Except RequestError String :=
  match content with
  | .str s => .ok s
  | .arr blocks => do
    let parts ← blocks.mapM (blockToText w label)
    return String.join parts
  | _ => .error (.valueError (label ++ " must be a string or content block list"))

def toolResultToText (content : Json) : Except RequestError String :=
  blocksToText w content "tool_result content"

def textMessage (role text : String) : Dict := [("role", .str role), ("content", .str text)]

def toolMessage (toolUseId : Json) (text : String) : Dict :=
  [("role", .str "tool"), ("tool_call_id", toolUseId), ("content", .str text)]

/-- A user message under way: the messages made of it, and the texts behind the
last one. -/
structure UserPass where
  converted : List Dict := []
  textParts : List String := []

def UserPass.flushUserText (pass : UserPass) : UserPass :=
  if pass.textParts = [] then pass
  else ⟨pass.converted ++ [textMessage "user" (String.join pass.textParts)], []⟩

/-- One turn of the loop over the blocks of a user message. -/
def userBlock (pass : UserPass) (rawBlock : Json) : Except RequestError UserPass := do
  let block ← requireDict rawBlock "user content block"
  let blockType := block.get "type"
  if blockType.isText "text" then
    return { pass with textParts := pass.textParts ++ [w.text (block.getD "text" (.str ""))] }
  else if blockType.isText "tool_result" then
    let pass := pass.flushUserText
    let toolUseId := block.get "tool_use_id"
    refuseIf (toolUseId.truthy = false) "tool_result block missing tool_use_id"
    let text ← toolResultToText w (block.getD "content" (.str ""))
    return { pass with converted := pass.converted ++ [toolMessage toolUseId text] }
  else .error (.valueError ("unsupported user content block type: " ++ w.text blockType))

def convertUserMessage (message : Dict) : Except RequestError (List Dict) :=
  match message.getD "content" (.str "") with
  | .str content => .ok [textMessage "user" content]
  | .arr blocks => do
    let pass ← blocks.foldlM (userBlock w) {}
    return pass.flushUserText.converted
  | _ => .error (.valueError "user message content must be a string or content block list")

/-- An assistant message under way. -/
structure AssistantPass where
  textParts : List String := []
  toolCalls : List Json := []

def toolCall (toolId name : Json) (arguments : String) : Json :=
  .obj [("id", toolId), ("type", .str "function"),
    ("function", .obj [("name", name), ("arguments", .str arguments)])]

/-- One turn of the loop over the blocks of an assistant message. -/
def assistantBlock (pass : AssistantPass) (rawBlock : Json) :
    Except RequestError AssistantPass := do
  let block ← requireDict rawBlock "assistant content block"
  let blockType := block.get "type"
  if blockType.isText "text" then
    return { pass with textParts := pass.textParts ++ [w.text (block.getD "text" (.str ""))] }
  else if blockType.isText "tool_use" then
    let toolId := block.get "id"
    let name := block.get "name"
    refuseIf (toolId.truthy = false ∨ name.truthy = false) "tool_use block missing id or name"
    let call := toolCall toolId name (w.dumps (block.getD "input" (.obj [])))
    return { pass with toolCalls := pass.toolCalls ++ [call] }
  else .error (.valueError ("unsupported assistant content block type: " ++ w.text blockType))

/-- The message an assistant message becomes: `None` stands for no text. -/
def AssistantPass.message (pass : AssistantPass) : Dict :=
  [("role", .str "assistant"), ("content", (Json.str (String.join pass.textParts)).or .null)]
    ++ if pass.toolCalls = [] then [] else [("tool_calls", .arr pass.toolCalls)]

def convertAssistantMessage (message : Dict) : Except RequestError Dict :=
  match message.getD "content" (.str "") with
  | .str content => .ok (textMessage "assistant" content)
  | .arr blocks => do
    let pass ← blocks.foldlM (assistantBlock w) {}
    return pass.message
  | _ => .error (.valueError "assistant message content must be a string or content block list")

def convertMessage (rawMessage : Json) : Except RequestError (List Dict) := do
  let message ← requireDict rawMessage "message"
  let role := message.get "role"
  if role.isText "user" then convertUserMessage w message
  else if role.isText "assistant" then do
    let converted ← convertAssistantMessage w message
    return [converted]
  else .error (.valueError ("unsupported message role: " ++ w.text role))

/-- The message a system prompt becomes. -/
def systemMessage (system : Json) : Except RequestError (List Dict) :=
  if system.truthy then do
    let text ← blocksToText w system "system"
    return [textMessage "system" text]
  else .ok []

def convertMessages (messages : List Json) (system : Json) : Except RequestError (List Dict) := do
  let opening ← systemMessage w system
  let converted ← messages.mapM (convertMessage w)
  return opening ++ converted.flatten

/-- One turn of the loop of `_convert_tools`. -/
def convertTool (rawTool : Json) : Except RequestError Json := do
  let tool ← requireDict rawTool "tool"
  refuseIf ((tool.get "type").truthy = true)
    ("unsupported Anthropic built-in tool type: " ++ w.text (tool.get "type"))
  let name := tool.get "name"
  let inputSchema := tool.get "input_schema"
  refuseIf (name.truthy = false ∨ inputSchema.isNone = true) "tool missing name or input_schema"
  return .obj [("type", .str "function"),
    ("function", .obj [("name", name), ("description", tool.getD "description" (.str "")),
      ("parameters", inputSchema)])]

/-- `_convert_tools`: the `for` raises where there is nothing to go through. -/
def convertTools (tools : Json) : Except RequestError (List Json) :=
  match tools.iter with
  | some rawTools => rawTools.mapM (convertTool w)
  | none => .error (.typeError ("'" ++ tools.typeName ++ "' object is not iterable"))

def convertToolChoice (choice : Dict) : Except RequestError Json := do
  let choiceType := choice.get "type"
  if choiceType.isText "auto" then return .str "auto"
  else if choiceType.isText "any" then return .str "required"
  else if choiceType.isText "tool" then
    let name := choice.get "name"
    refuseIf (name.truthy = false) "tool_choice type 'tool' missing name"
    return .obj [("type", .str "function"), ("function", .obj [("name", name)])]
  else if choiceType.isText "none" then return .str "none"
  else .error (.valueError ("unsupported tool_choice type: " ++ w.text choiceType))

def handOn (payload : Dict) (field target : String) (request : Dict) : Dict :=
  if (payload.get field).isNone then request else request.set target (payload.get field)

/-- The tools, where they are given. -/
def withTools (payload request : Dict) : Except RequestError Dict :=
  if (payload.get "tools").isNone then .ok request
  else do
    let tools ← convertTools w (payload.get "tools")
    return request.set "tools" (.arr tools)

/-- The choice among them, where it is given. -/
def withToolChoice (payload request : Dict) : Except RequestError Dict :=
  if (payload.get "tool_choice").isNone then .ok request
  else do
    let toolChoice ← requireDict (payload.get "tool_choice") "tool_choice"
    let converted ← convertToolChoice w toolChoice
    let request := request.set "tool_choice" converted
    let disabled := toolChoice.get "disable_parallel_tool_use"
    return if disabled.isNone then request
      else request.set "parallel_tool_calls" (.bool !disabled.truthy)

/-- `messages` as a list. -/
def messagesOf (payload : Dict) : Except RequestError (List Json) :=
  match payload.get "messages" with
  | .arr messages => .ok messages
  | _ => .error (.valueError "messages must be a list")

def requestOf (payload : Dict) (upstreamModel : String) (messages : List Dict) : Dict :=
  handOn payload "stop_sequences" "stop" <| handOn payload "top_p" "top_p" <|
    handOn payload "temperature" "temperature" <| handOn payload "max_tokens" "max_tokens"
      [("model", .str upstreamModel), ("messages", .arr (messages.map .obj)),
        ("stream", .bool (payload.getD "stream" (.bool false)).truthy)]

def withStreamOptions (request : Dict) : Dict :=
  if (request.get "stream").truthy then
    request.set "stream_options" (.obj [("include_usage", .bool true)])
  else request

/-- The rest of the request, once the messages are converted. -/
def completeRequest (payload : Dict) (upstreamModel : String) (converted : List Dict) :
    Except RequestError Dict := do
  let request ← withTools w payload (requestOf payload upstreamModel converted)
  let request ← withToolChoice w payload request
  refuseIf ((payload.get "thinking").isNone = false)
    "OpenAI-compatible proxy does not support Anthropic thinking blocks"
  refuseIf ((payload.get "top_k").isNone = false)
    "OpenAI-compatible proxy does not support Anthropic top_k"
  return withStreamOptions request

def anthropicToOpenaiChatRequest (payload : Json) (upstreamModel : String) :
    Except RequestError Dict :=
  match payload.asDict with
  | some payload => do
    let messages ← messagesOf payload
    let converted ← convertMessages w messages (payload.get "system")
    completeRequest w payload upstreamModel converted
  | none => .error (.attributeError ("'" ++ payload.typeName ++ "' object has no attribute 'get'"))

/-! ## What a request tells -/

/-- **A part of a conversation.** A text has the role that says it; a call has
its arguments as JSON text. -/
inductive Part
  | text (role content : String)
  | call (toolId name : Json) (arguments : String)
  | result (toolUseId : Json) (content : String)

namespace Part

def textOf : Part → Option String
  | text _ content => some content
  | _ => none

def isCall : Part → Bool
  | call .. => true
  | _ => false

end Part

/-- A tool call of an OpenAI message. -/
def callTold (toolCall : Json) : Option Part := do
  let toolCall ← toolCall.asDict
  let function ← (toolCall.get "function").asDict
  let arguments ← (function.get "arguments").asText
  return .call (toolCall.get "id") (function.get "name") arguments

/-- What an OpenAI message tells: the result of a tool, or a text and the tool
calls with it. -/
def messageTold (message : Dict) : List Part :=
  match message.get "role", message.get "content" with
  | .str "tool", .str content => [.result (message.get "tool_call_id") content]
  | .str role, content =>
    (content.asText.map (Part.text role)).toList ++
      match message.get "tool_calls" with
      | .arr toolCalls => toolCalls.filterMap callTold
      | _ => []
  | _, _ => []

/-- What an OpenAI request tells. -/
def requestTold (request : Dict) : List Part :=
  match request.get "messages" with
  | .arr messages => messages.flatMap fun message => (message.asDict.map messageTold).getD []
  | _ => []

/-! ## What it is to tell -/

def textBlock (rawBlock : Json) : Option String := do
  let block ← rawBlock.asDict
  if (block.get "type").isText "text" then some (w.text (block.getD "text" (.str ""))) else none

/-- A text, or a list of text blocks. -/
def textContent : Json → Option String
  | .str s => some s
  | .arr blocks => (blocks.mapM (textBlock w)).map String.join
  | _ => none

/-- A block of a user message: a text, or the result of a tool. -/
def userPart (rawBlock : Json) : Option Part := do
  let block ← rawBlock.asDict
  if (block.get "type").isText "text" then
    some (.text "user" (w.text (block.getD "text" (.str ""))))
  else if (block.get "type").isText "tool_result" ∧ (block.get "tool_use_id").truthy then
    (textContent w (block.getD "content" (.str ""))).map (.result (block.get "tool_use_id"))
  else none

/-- A block of an assistant message: a text, or a tool call. -/
def assistantPart (rawBlock : Json) : Option Part := do
  let block ← rawBlock.asDict
  if (block.get "type").isText "text" then
    some (.text "assistant" (w.text (block.getD "text" (.str ""))))
  else if (block.get "type").isText "tool_use" ∧ (block.get "id").truthy ∧
      (block.get "name").truthy then
    some (.call (block.get "id") (block.get "name") (w.dumps (block.getD "input" (.obj []))))
  else none

/-- **Texts side by side are one.** -/
def gathered : List Part → List Part
  | .text role s :: parts =>
    match gathered parts with
    | .text _ t :: more => .text role (s ++ t) :: more
    | more => .text role s :: more
  | part :: parts => part :: gathered parts
  | [] => []

/-- **An assistant message says its texts as one**, if there is one to say, with
its tool calls. -/
def spoken (parts : List Part) : List Part :=
  let content := String.join (parts.filterMap Part.textOf)
  (if content = "" then [] else [.text "assistant" content]) ++ parts.filter Part.isCall

/-- What a message of the body tells. -/
def messageParts (rawMessage : Json) : Option (List Part) := do
  let message ← rawMessage.asDict
  let content := message.getD "content" (.str "")
  if (message.get "role").isText "user" then
    match content with
    | .str s => some [.text "user" s]
    | .arr blocks => (blocks.mapM (userPart w)).map gathered
    | _ => none
  else if (message.get "role").isText "assistant" then
    match content with
    | .str s => some [.text "assistant" s]
    | .arr blocks => (blocks.mapM (assistantPart w)).map spoken
    | _ => none
  else none

/-- What a system prompt tells. -/
def systemParts (system : Json) : Option (List Part) :=
  if system.truthy then (textContent w system).map fun s => [.text "system" s] else some []

/-- **What a body tells**: the system prompt, and the messages in order. -/
def conversation (payload : Dict) : Option (List Part) :=
  match payload.get "messages" with
  | .arr messages => do
    let opening ← systemParts w (payload.get "system")
    let parts ← messages.mapM (messageParts w)
    return opening ++ parts.flatten
  | _ => none

/-! ## The translation reads what is there -/

/-- An error the route answers as a bad request. -/
abbrev BadRequest (e : RequestError) : Prop := e.status = 400

section

variable {w}

theorem refuseIf_reads {γ : Type} {p : Prop} [Decidable p] {message : String} {α : Type}
    {x : Except RequestError α} {y : Option γ} {R : α → γ → Prop}
    (rest : ¬p → Except.Reads BadRequest R x y) (no : p → y = none) :
    Except.Reads BadRequest R (refuseIf p message >>= fun _ => x) y := by
  unfold refuseIf
  by_cases h : p
  · rw [if_pos h, no h]
    exact .refuse rfl
  · rw [if_neg h]
    exact rest h

theorem requireDict_reads (value : Json) (label : String) :
    Except.Reads BadRequest Eq (requireDict value label) value.asDict := by
  cases value with
  | obj fields => exact .read rfl
  | _ => exact .refuse rfl

theorem blockToText_reads (label : String) (rawBlock : Json) :
    Except.Reads BadRequest Eq (blockToText w label rawBlock) (textBlock w rawBlock) := by
  refine (requireDict_reads _ _).bind fun block _ same => ?_
  subst same
  refine refuseIf_reads (fun isText => ?_) fun other => if_neg (Bool.eq_false_iff.mp other)
  rw [if_pos (Bool.of_not_eq_false isText)]
  exact .read rfl

theorem blocksToText_reads (content : Json) (label : String) :
    Except.Reads BadRequest Eq (blocksToText w content label) (textContent w content) := by
  cases content with
  | str s => exact .read rfl
  | arr blocks =>
    refine (Except.Reads.mapM (blockToText_reads label) blocks).map fun parts texts same => ?_
    rw [List.forall₂_eq_eq_eq] at same
    rw [same]
  | _ => exact .refuse rfl

/-! ### User messages -/

/-- What the loop over a user message does with a part. -/
def UserPass.add (pass : UserPass) : Part → UserPass
  | .text _ content => { pass with textParts := pass.textParts ++ [content] }
  | .result toolUseId content =>
    { pass.flushUserText with
      converted := pass.flushUserText.converted ++ [toolMessage toolUseId content] }
  | .call .. => pass

inductive IsUserPart : Part → Prop
  | text (content : String) : IsUserPart (.text "user" content)
  | result (toolUseId : Json) (content : String) : IsUserPart (.result toolUseId content)

theorem isUserPart_of_userPart {rawBlock : Json} {part : Part}
    (told : userPart w rawBlock = some part) : IsUserPart part := by
  unfold userPart at told
  obtain ⟨block, -, told⟩ := Option.bind_eq_some_iff.mp told
  split_ifs at told
  · cases told
    exact .text _
  · obtain ⟨content, -, rfl⟩ := Option.map_eq_some_iff.mp told
    exact .result _ _

theorem userBlock_reads (pass : UserPass) (rawBlock : Json) :
    Except.Reads BadRequest (fun after part => after = pass.add part) (userBlock w pass rawBlock)
      (userPart w rawBlock) := by
  refine (requireDict_reads _ _).bind fun block _ same => ?_
  subst same
  by_cases isText : (block.get "type").isText "text" = true
  · rw [if_pos isText, if_pos isText]
    exact .read rfl
  rw [if_neg isText, if_neg isText]
  by_cases isResult : (block.get "type").isText "tool_result" = true
  · rw [if_pos isResult]
    refine refuseIf_reads (fun named => ?_) fun nameless =>
      if_neg fun both => Bool.eq_false_iff.mp nameless both.2
    rw [if_pos ⟨isResult, Bool.of_not_eq_false named⟩]
    exact (blocksToText_reads _ _).map fun text _ same => same ▸ rfl
  · rw [if_neg isResult, if_neg fun both => isResult both.1]
    exact .refuse rfl

theorem gathered_texts {role : String} (texts : List String) {more : List Part}
    (other : ∀ role' s parts, gathered more ≠ .text role' s :: parts) :
    gathered (texts.map (Part.text role) ++ more) =
      (if texts = [] then [] else [.text role (String.join texts)]) ++ gathered more := by
  induction texts with
  | nil => rfl
  | cons s texts ih =>
    rw [List.map_cons, List.cons_append, gathered, ih, if_neg (List.cons_ne_nil s texts),
      String.join_cons]
    by_cases none_ : texts = []
    · subst none_
      rw [if_pos rfl, List.nil_append, String.join_nil, String.append_empty]
      split
      · rename_i here
        exact absurd here (other _ _ _)
      · rfl
    · rw [if_neg none_]
      rfl

theorem UserPass.flush_told (pass : UserPass) :
    pass.flushUserText.converted.flatMap messageTold =
      pass.converted.flatMap messageTold ++ if pass.textParts = [] then []
        else [.text "user" (String.join pass.textParts)] := by
  unfold flushUserText
  by_cases none_ : pass.textParts = []
  · rw [if_pos none_, if_pos none_, List.append_nil]
  · rw [if_neg none_, if_neg none_, List.flatMap_append]
    rfl

theorem UserPass.flush_textParts (pass : UserPass) : pass.flushUserText.textParts = [] := by
  unfold flushUserText
  by_cases none_ : pass.textParts = []
  · rw [if_pos none_, none_]
  · rw [if_neg none_]

/-- **The messages made of the parts of a user message tell them**, behind what
was told before. -/
theorem UserPass.told_foldl_add {parts : List Part} (user : ∀ part ∈ parts, IsUserPart part)
    (pass : UserPass) :
    (parts.foldl add pass).flushUserText.converted.flatMap messageTold =
      pass.converted.flatMap messageTold ++
        gathered (pass.textParts.map (Part.text "user") ++ parts) := by
  induction parts generalizing pass with
  | nil =>
    have none_ : ∀ role' s parts, gathered [] ≠ .text role' s :: parts := fun _ _ _ => nofun
    rw [List.foldl_nil, flush_told, gathered_texts _ none_, gathered, List.append_nil]
  | cons part parts ih =>
    rw [List.foldl_cons, ih fun part mem => user part (List.mem_cons_of_mem _ mem)]
    cases user part List.mem_cons_self with
    | text content =>
      show _ ++ gathered ((pass.textParts ++ [content]).map _ ++ parts) = _
      rw [List.map_append, List.append_assoc]
      rfl
    | result toolUseId content =>
      have other : ∀ role' s more,
          gathered (.result toolUseId content :: parts) ≠ .text role' s :: more :=
        fun _ _ _ => nofun
      rw [gathered_texts _ other, ← List.append_assoc, ← flush_told]
      show (pass.flushUserText.converted ++ [toolMessage toolUseId content]).flatMap messageTold ++
        gathered (pass.flushUserText.textParts.map _ ++ parts) = _
      rw [flush_textParts, List.flatMap_append, List.append_assoc]
      rfl

theorem convertUserMessage_reads (message : Dict) :
    Except.Reads BadRequest (fun converted parts => converted.flatMap messageTold = parts)
      (convertUserMessage w message)
      (match message.getD "content" (.str "") with
        | .str s => some [.text "user" s]
        | .arr blocks => (blocks.mapM (userPart w)).map gathered
        | _ => none) := by
  unfold convertUserMessage
  cases message.getD "content" (.str "") with
  | str s => exact .read rfl
  | arr blocks =>
    have loop := (Except.Reads.foldlM (userBlock_reads (w := w)) blocks {}).imp
      fun pass parts told same => And.intro told same
    refine loop.map fun pass parts told => ?_
    rw [told.2, UserPass.told_foldl_add fun part mem => ?_]
    · rfl
    · obtain ⟨_, _, told⟩ := List.exists_of_mem_mapM told.1 mem
      exact isUserPart_of_userPart told
  | _ => exact .refuse rfl

/-! ### Assistant messages -/

/-- What the loop over an assistant message does with a part. -/
def AssistantPass.add (pass : AssistantPass) : Part → AssistantPass
  | .text _ content => { pass with textParts := pass.textParts ++ [content] }
  | .call toolId name arguments =>
    { pass with toolCalls := pass.toolCalls ++ [toolCall toolId name arguments] }
  | .result .. => pass

theorem assistantBlock_reads (pass : AssistantPass) (rawBlock : Json) :
    Except.Reads BadRequest (fun after part => after = pass.add part)
      (assistantBlock w pass rawBlock) (assistantPart w rawBlock) := by
  refine (requireDict_reads _ _).bind fun block _ same => ?_
  subst same
  by_cases isText : (block.get "type").isText "text" = true
  · rw [if_pos isText, if_pos isText]
    exact .read rfl
  rw [if_neg isText, if_neg isText]
  by_cases isUse : (block.get "type").isText "tool_use" = true
  · rw [if_pos isUse]
    refine refuseIf_reads (fun named => ?_) fun nameless => if_neg fun all => ?_
    · have named := not_or.mp named
      rw [if_pos ⟨isUse, Bool.of_not_eq_false named.1, Bool.of_not_eq_false named.2⟩]
      exact .read rfl
    · exact nameless.elim (Bool.eq_false_iff.mp · all.2.1) (Bool.eq_false_iff.mp · all.2.2)
  · rw [if_neg isUse, if_neg fun all => isUse all.1]
    exact .refuse rfl

theorem AssistantPass.foldl_add (parts : List Part) (pass : AssistantPass) :
    (parts.foldl add pass).textParts = pass.textParts ++ parts.filterMap Part.textOf ∧
      (parts.foldl add pass).toolCalls.filterMap callTold =
        pass.toolCalls.filterMap callTold ++ parts.filter Part.isCall := by
  induction parts generalizing pass with
  | nil => exact ⟨(List.append_nil _).symm, (List.append_nil _).symm⟩
  | cons part parts ih =>
    rw [List.foldl_cons]
    obtain ⟨texts, calls⟩ := ih (pass.add part)
    rw [texts, calls]
    cases part with
    | text role content => exact ⟨List.append_assoc _ _ _, rfl⟩
    | call toolId name arguments =>
      refine ⟨rfl, ?_⟩
      show (pass.toolCalls ++ [toolCall toolId name arguments]).filterMap callTold ++ _ = _
      rw [List.filterMap_append, List.append_assoc]
      rfl
    | result toolUseId content => exact ⟨rfl, rfl⟩

theorem AssistantPass.message_told (pass : AssistantPass) :
    messageTold pass.message = (if String.join pass.textParts = "" then []
      else [.text "assistant" (String.join pass.textParts)]) ++
        pass.toolCalls.filterMap callTold := by
  have content : (Json.str (String.join pass.textParts)).or .null =
      if String.join pass.textParts = "" then .null else .str (String.join pass.textParts) := by
    by_cases silent : String.join pass.textParts = ""
    · rw [if_pos silent, silent]
      rfl
    · have said : (Json.str (String.join pass.textParts)).truthy = true := by
        rw [Json.truthy, Bool.not_eq_true', List.isEmpty_eq_false_iff]
        exact fun none_ => silent (String.toList_eq_nil_iff.mp none_)
      rw [if_neg silent, Json.or, if_pos said]
  unfold message
  rw [content]
  by_cases silent : String.join pass.textParts = "" <;> by_cases none_ : pass.toolCalls = []
  · rw [if_pos silent, if_pos silent, if_pos none_, none_]
    rfl
  · rw [if_pos silent, if_pos silent, if_neg none_]
    rfl
  · rw [if_neg silent, if_neg silent, if_pos none_, none_]
    rfl
  · rw [if_neg silent, if_neg silent, if_neg none_]
    rfl

theorem convertAssistantMessage_reads (message : Dict) :
    Except.Reads BadRequest (fun converted parts => messageTold converted = parts)
      (convertAssistantMessage w message)
      (match message.getD "content" (.str "") with
        | .str s => some [.text "assistant" s]
        | .arr blocks => (blocks.mapM (assistantPart w)).map spoken
        | _ => none) := by
  unfold convertAssistantMessage
  cases message.getD "content" (.str "") with
  | str s => exact .read rfl
  | arr blocks =>
    have loop := Except.Reads.foldlM (assistantBlock_reads (w := w)) blocks {}
    refine loop.map fun pass parts told => ?_
    obtain ⟨texts, calls⟩ := AssistantPass.foldl_add parts {}
    rw [told, AssistantPass.message_told, texts, calls]
    rfl
  | _ => exact .refuse rfl

/-! ### The conversation -/

theorem convertMessage_reads (rawMessage : Json) :
    Except.Reads BadRequest (fun converted parts => converted.flatMap messageTold = parts)
      (convertMessage w rawMessage) (messageParts w rawMessage) := by
  refine (requireDict_reads _ _).bind fun message _ same => ?_
  subst same
  by_cases isUser : (message.get "role").isText "user" = true
  · rw [if_pos isUser, if_pos isUser]
    exact convertUserMessage_reads message
  rw [if_neg isUser, if_neg isUser]
  by_cases isAssistant : (message.get "role").isText "assistant" = true
  · rw [if_pos isAssistant, if_pos isAssistant]
    refine (convertAssistantMessage_reads message).wrap fun converted parts told => ?_
    rw [List.flatMap_singleton, told]
  · rw [if_neg isAssistant, if_neg isAssistant]
    exact .refuse rfl

theorem systemMessage_reads (system : Json) :
    Except.Reads BadRequest (fun converted parts => converted.flatMap messageTold = parts)
      (systemMessage w system) (systemParts w system) := by
  unfold systemMessage systemParts
  by_cases given : system.truthy = true
  · rw [if_pos given, if_pos given]
    exact (blocksToText_reads _ _).map fun text _ same => same ▸ rfl
  · rw [if_neg given, if_neg given]
    exact .read rfl

/-- **The messages become messages that tell the conversation**, in order. -/
theorem convertMessages_reads (messages : List Json) (system : Json) :
    Except.Reads BadRequest (fun converted parts => converted.flatMap messageTold = parts)
      (convertMessages w messages system)
      (do
        let opening ← systemParts w system
        let parts ← messages.mapM (messageParts w)
        return opening ++ parts.flatten) := by
  refine (systemMessage_reads system).bind fun opening told begins => ?_
  refine (Except.Reads.mapM convertMessage_reads messages).bind fun converted parts each => ?_
  refine .read ?_
  rw [List.flatMap_append, begins]
  congr 1
  induction each with
  | nil => rfl
  | cons here _ ih => rw [List.flatten_cons, List.flatten_cons, List.flatMap_append, here, ih]

theorem messages_reads (payload : Dict) :
    Except.Reads BadRequest (fun converted parts => converted.flatMap messageTold = parts)
      (messagesOf payload >>= fun messages => convertMessages w messages (payload.get "system"))
      (conversation w payload) := by
  unfold messagesOf conversation
  cases payload.get "messages" with
  | arr messages => exact convertMessages_reads messages (payload.get "system")
  | _ => exact .refuse rfl

/-! ## The rest of the request -/

theorem handOn_get {payload request : Dict} {field target : String}
    (other : "messages" ≠ target) :
    (handOn payload field target request).get "messages" = request.get "messages" := by
  unfold handOn
  by_cases missing : (payload.get field).isNone = true
  · rw [if_pos missing]
  · rw [if_neg missing, Dict.get_set_of_ne _ _ other]

theorem requestTold_of_get {request : Dict} {messages : List Dict}
    (has : request.get "messages" = .arr (messages.map .obj)) :
    requestTold request = messages.flatMap messageTold := by
  unfold requestTold
  rw [has]
  exact List.flatMap_map ..

theorem requestOf_get (payload : Dict) (upstreamModel : String) (messages : List Dict) :
    (requestOf payload upstreamModel messages).get "messages" = .arr (messages.map .obj) := by
  unfold requestOf
  rw [handOn_get (by decide), handOn_get (by decide), handOn_get (by decide),
    handOn_get (by decide)]
  rfl

abbrev KeepsMessages (request after : Dict) : Prop :=
  after.get "messages" = request.get "messages"

theorem refuseIf_ends {p : Prop} [Decidable p] {message : String} {α : Type} {Q : α → Prop}
    {x : Except RequestError α} (rest : Except.Ends BadRequest Q x) :
    Except.Ends BadRequest Q (refuseIf p message >>= fun _ => x) := by
  unfold refuseIf
  by_cases h : p
  · rw [if_pos h]
    exact .raised rfl
  · rw [if_neg h]
    exact rest

theorem requireDict_ends (value : Json) (label : String) :
    Except.Ends BadRequest (fun _ => True) (requireDict value label) := by
  cases value with
  | obj fields => exact .returned trivial
  | _ => exact .raised rfl

theorem convertTool_ends (rawTool : Json) :
    Except.Ends BadRequest (fun _ => True) (convertTool w rawTool) :=
  (requireDict_ends _ _).bind fun _ _ => refuseIf_ends (refuseIf_ends (.returned trivial))

theorem iter_eq_none_iff (tools : Json) :
    tools.iter = none ↔ tools.isNone = true ∨ tools.asNumber ≠ none := by
  cases tools <;> simp [Json.iter, Json.isNone, Json.asNumber]

theorem withTools_ends {payload : Dict} (request : Dict)
    (tools : (payload.get "tools").asNumber = none) :
    Except.Ends BadRequest (KeepsMessages request) (withTools w payload request) := by
  unfold withTools
  by_cases missing : (payload.get "tools").isNone = true
  · rw [if_pos missing]
    exact .returned rfl
  · rw [if_neg missing, convertTools]
    cases items : (payload.get "tools").iter with
    | none => exact absurd tools (((iter_eq_none_iff _).mp items).resolve_left missing)
    | some rawTools =>
      refine (Except.Ends.mapM convertTool_ends rawTools).bind fun tools _ => .returned ?_
      exact Dict.get_set_of_ne _ _ (by decide)

/-- **A number is no list of tools**: the `for` over it raises what the route
lets pass. -/
theorem withTools_number {payload : Dict} (request : Dict)
    (tools : (payload.get "tools").asNumber ≠ none) :
    ∃ message, withTools w payload request = .error (.typeError message) := by
  have given : ¬(payload.get "tools").isNone = true := by
    intro missing
    revert tools missing
    cases payload.get "tools" with
    | null => exact fun number _ => number rfl
    | _ => exact fun _ missing => Bool.noConfusion missing
  have items : (payload.get "tools").iter = none := (iter_eq_none_iff _).mpr (.inr tools)
  rw [withTools, if_neg given, convertTools, items]
  exact ⟨_, rfl⟩

theorem convertToolChoice_ends (choice : Dict) :
    Except.Ends BadRequest (fun _ => True) (convertToolChoice w choice) := by
  unfold convertToolChoice
  dsimp only
  split_ifs
  · exact .returned trivial
  · exact .returned trivial
  · exact refuseIf_ends (.returned trivial)
  · exact .returned trivial
  · exact .raised rfl

theorem withToolChoice_ends (payload request : Dict) :
    Except.Ends BadRequest (KeepsMessages request) (withToolChoice w payload request) := by
  unfold withToolChoice
  by_cases missing : (payload.get "tool_choice").isNone = true
  · rw [if_pos missing]
    exact .returned rfl
  rw [if_neg missing]
  refine (requireDict_ends _ _).bind fun toolChoice _ => ?_
  refine (convertToolChoice_ends toolChoice).bind fun converted _ => .returned ?_
  by_cases unsaid : (toolChoice.get "disable_parallel_tool_use").isNone = true
  · rw [if_pos unsaid]
    exact Dict.get_set_of_ne _ _ (by decide)
  · rw [if_neg unsaid]
    exact (Dict.get_set_of_ne _ _ (by decide)).trans (Dict.get_set_of_ne _ _ (by decide))

theorem withStreamOptions_get (request : Dict) :
    KeepsMessages request (withStreamOptions request) := by
  unfold withStreamOptions
  by_cases stream : (request.get "stream").truthy = true
  · rw [if_pos stream]
    exact Dict.get_set_of_ne _ _ (by decide)
  · rw [if_neg stream]

theorem completeRequest_ends {payload : Dict} (tools : (payload.get "tools").asNumber = none)
    (upstreamModel : String) (converted : List Dict) :
    Except.Ends BadRequest (fun request => requestTold request = converted.flatMap messageTold)
      (completeRequest w payload upstreamModel converted) := by
  refine (withTools_ends _ tools).bind fun request kept => ?_
  refine (withToolChoice_ends payload request).bind fun after keptToo => ?_
  refine refuseIf_ends (refuseIf_ends (.returned ?_))
  have all := (withStreamOptions_get after).trans (keptToo.trans kept)
  exact requestTold_of_get (all.trans (requestOf_get payload upstreamModel converted))

theorem completeRequest_number {payload : Dict} (tools : (payload.get "tools").asNumber ≠ none)
    (upstreamModel : String) (converted : List Dict) :
    ∃ message, completeRequest w payload upstreamModel converted = .error (.typeError message) := by
  obtain ⟨message, raises⟩ :=
    withTools_number (w := w) (requestOf payload upstreamModel converted) tools
  rw [completeRequest, raises]
  exact ⟨message, rfl⟩

end

/-! ## Every body -/

/-- **What a translation is to come to**: a request that tells what the body
tells, or an error that is answered as a bad request. -/
def Translates (payload : Json) : Except RequestError Dict → Prop
  | .ok request => payload.asDict.bind (conversation w) = some (requestTold request)
  | .error e => BadRequest e

/-- **A body is translated or refused**, unless it is no object, or its messages
can be read and its `tools` is a number; a bool counts as one. -/
theorem translates_iff (payload : Json) (upstreamModel : String) :
    Translates w payload (anthropicToOpenaiChatRequest w payload upstreamModel) ↔
      ∃ fields, payload.asDict = some fields ∧
        ((conversation w fields).isSome = true → (fields.get "tools").asNumber = none) := by
  have passes : ∀ {e : RequestError}, e.status = 500 → ¬Translates w payload (.error e) := by
    intro e passed right
    exact absurd (passed.symm.trans right) (by decide)
  cases body : payload.asDict with
  | none =>
    rw [anthropicToOpenaiChatRequest, body]
    exact iff_of_false (passes rfl) (by rintro ⟨fields, ⟨⟩, -⟩)
  | some fields =>
    have translated : anthropicToOpenaiChatRequest w payload upstreamModel =
        (messagesOf fields >>= fun messages => convertMessages w messages (fields.get "system")) >>=
          completeRequest w fields upstreamModel := by
      rw [anthropicToOpenaiChatRequest, body, bind_assoc]
    have only : (∃ fields', some fields = some fields' ∧ ((conversation w fields').isSome = true →
        (fields'.get "tools").asNumber = none)) ↔
        ((conversation w fields).isSome = true → (fields.get "tools").asNumber = none) :=
      ⟨fun ⟨_, same, tools⟩ => Option.some.inj same ▸ tools, fun tools => ⟨_, rfl, tools⟩⟩
    have reads := messages_reads (w := w) fields
    rw [translated, only]
    revert reads
    generalize (messagesOf fields >>= fun messages =>
      convertMessages w messages (fields.get "system")) = x
    cases told : conversation w fields with
    | none =>
      rintro (_ | kind)
      exact iff_of_true kind fun some_ => Bool.noConfusion some_
    | some parts =>
      rintro (@⟨converted, _, here⟩ | _)
      show Translates w payload (completeRequest w fields upstreamModel converted) ↔ _
      by_cases tools : (fields.get "tools").asNumber = none
      · refine iff_of_true ?_ fun _ => tools
        have ends := completeRequest_ends (w := w) tools upstreamModel converted
        revert ends
        generalize completeRequest w fields upstreamModel converted = completed
        rintro (tells | kind)
        · show payload.asDict.bind (conversation w) = _
          rw [body, tells, here]
          exact told
        · exact kind
      · obtain ⟨message, raises⟩ := completeRequest_number (w := w) tools upstreamModel converted
        rw [raises]
        exact iff_of_false (passes rfl) fun right => tools (right rfl)

/-- **A body that is a list, and one whose tools are a number**, raise what is
answered as an error of the server. -/
theorem list_not_translated :
    let w : Spelling := ⟨Json.typeName, Json.typeName⟩
    ¬Translates w (.arr []) (anthropicToOpenaiChatRequest w (.arr []) "m") ∧
      let payload : Json := .obj [("messages", .arr []), ("tools", .int 1)]
      ¬Translates w payload (anthropicToOpenaiChatRequest w payload "m") :=
  ⟨fun right => absurd (show 500 = 400 from right) (by decide),
    fun right => absurd (show 500 = 400 from right) (by decide)⟩

end AnthropicProxy
