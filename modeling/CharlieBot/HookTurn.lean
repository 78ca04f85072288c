import CharlieBot.Lib.Fallible
import CharlieBot.Lib.Json
import CharlieBot.Lib.Transition
import Mathlib.Data.List.Nodup

/-!
# One turn, as its hooks tell it

A Claude process is followed through the hooks it calls. Each call brings an
event name and a payload; `HookTurnState` validates the payload against what
it expects and what it has seen, changes a few of its fields, and gives back
the chat events the payload stands for. Any payload may come at any time.

A handler looks before it writes: what it ensures is proved with the rules
of `Raising.Ensures`, and `Handles` lists, once, all that a call can do to
the state when it returns. Every law of a turn follows from that list by one
induction over the calls (`Inv`). One law has an exception, a second
`UserPromptSubmit` that brings another id; along a run the laws hold exactly
where no call is one (`laws_iff`).
-/

namespace HookTurn

/-- What a handler raises. -/
inductive Failure
  /-- A `HookProtocolError`. -/
  | protocol (message : String)
  /-- What the standard library raises. -/
  | other (message : String)
  deriving DecidableEq, Repr

/-- What a call finds around it. -/
structure World where
  /-- `os.path.realpath`, which raises at a null character. -/
  realpath : String → Except String String
  /-- `json.dumps` without blanks. -/
  dumps : Json → String
  /-- The ids `uuid.uuid4` makes. -/
  uuid : ℕ → String

inductive PromptDelivery
  | unknown
  | acknowledged
  deriving DecidableEq, Repr

structure HookTurnState where
  expectedSessionId : String
  expectedCwd : String
  expectedPrompt : String
  model : String := ""
  expectedSource : String := "startup"
  delivery : PromptDelivery := .unknown
  sessionStarted : Bool := false
  correlationId : Option String := none
  correlationField : Option String := none
  stopSeen : Bool := false
  stopCandidate : Option String := none
  idleSeen : Bool := false
  active : Bool := false
  failure : Option String := none
  seenMessageBatches : List (String × ℤ) := []
  deriving DecidableEq, Repr

/-- What a handler is: it may change the state and may raise. -/
abbrev Handling := Raising HookTurnState Failure

/-! ## The checks -/

/-- `raise HookProtocolError(message)` under a condition. -/
def raiseIf (p : Prop) [Decidable p] (message : String) : Except Failure Unit :=
  if p then .error (.protocol message) else .ok ()

/-- `_required`, with the reading of the expected type and its name. -/
def required {α : Type} (payload : Dict) (fieldName : String) (expected : Json → Option α)
    (typeName : String) : Except Failure α :=
  match payload.item fieldName with
  | none => .error (.protocol ("hook payload is missing required field '" ++ fieldName ++ "'"))
  | some value =>
    match expected value with
    | none => .error (.protocol ("hook payload field '" ++ fieldName ++ "' must be " ++ typeName ++
        ", got " ++ value.typeName))
    | some a => .ok a

def asBool : Json → Option Bool
  | .bool b => some b
  | _ => none

def asList : Json → Option (List Json)
  | .arr xs => some xs
  | _ => none

def requiredString (payload : Dict) (fieldName : String) : Except Failure String := do
  let value ← required payload fieldName Json.asText "str"
  raiseIf (value = "") ("hook payload field '" ++ fieldName ++ "' must not be empty")
  return value

def canonicalCwd (w : World) (value : String) : Except Failure String :=
  match w.realpath value with
  | .ok path => .ok path
  | .error message => .error (.other message)

def validateCommon (w : World) (s : HookTurnState) (eventName : String) (payload : Dict) :
    Except Failure Unit := do
  let hookEventName ← requiredString payload "hook_event_name"
  raiseIf (hookEventName ≠ eventName) ("hook event name mismatch: bridge received " ++ eventName ++
    ", payload says " ++ hookEventName)
  let sessionId ← requiredString payload "session_id"
  raiseIf (sessionId ≠ s.expectedSessionId) ("hook session id mismatch: expected " ++
    s.expectedSessionId ++ ", got " ++ sessionId)
  let cwd ← requiredString payload "cwd"
  let path ← canonicalCwd w cwd
  let expectedPath ← canonicalCwd w s.expectedCwd
  raiseIf (path ≠ expectedPath) ("hook cwd mismatch: expected " ++ s.expectedCwd ++ ", got " ++ cwd)

def correlationFields : List String := ["turn_id", "prompt_id", "turnId", "promptId"]

/-- The id in a field, which must be a text that is not empty. -/
def correlationValue (eventName fieldName : String) (value : Json) :
    Except Failure (String × String) :=
  match value with
  | .str id =>
    if id = "" then .error (.protocol (eventName ++ " correlation field '" ++ fieldName ++
      "' must be a non-empty string"))
    else .ok (fieldName, id)
  | _ => .error (.protocol (eventName ++ " correlation field '" ++ fieldName ++
      "' must be a non-empty string"))

/-- `_correlation`: the established field, or the first there is. -/
def correlation (s : HookTurnState) (payload : Dict) (eventName : String) :
    Except Failure (String × String) :=
  match s.correlationField with
  | some fieldName =>
    match payload.item fieldName with
    | none => .error (.protocol (eventName ++
        " payload is missing established correlation field '" ++ fieldName ++ "'"))
    | some value => correlationValue eventName fieldName value
  | none =>
    match correlationFields.find? payload.has with
    | some fieldName => correlationValue eventName fieldName (payload.get fieldName)
    | none => .error (.protocol (eventName ++
        " payload is missing the official turn correlation field; checked " ++
        ", ".intercalate correlationFields))

def correlationText (s : HookTurnState) : String := s.correlationId.getD "None"

/-- The id a payload brings must be the turn's. -/
def checkCorrelation (s : HookTurnState) (eventName : String) (payload : Dict) :
    Except Failure Unit := do
  let (_, correlationId) ← correlation s payload eventName
  raiseIf (some correlationId ≠ s.correlationId) (eventName ++
    " turn correlation mismatch: expected " ++ correlationText s ++ ", got " ++ correlationId)

/-- The same, of a payload that brings one. -/
def checkGivenCorrelation (s : HookTurnState) (eventName : String) (payload : Dict) :
    Except Failure Unit :=
  if correlationFields.any payload.has then checkCorrelation s eventName payload else .ok ()

def validateCurrentTurn (w : World) (s : HookTurnState) (eventName : String) (payload : Dict) :
    Except Failure Unit := do
  validateCommon w s eventName payload
  raiseIf (s.sessionStarted = false) (eventName ++ " arrived before SessionStart")
  raiseIf (s.delivery ≠ .acknowledged) (eventName ++
    " arrived before UserPromptSubmit acknowledgement")
  checkGivenCorrelation s eventName payload

/-! ## The handlers -/

def sessionStartSources : List String := ["startup", "resume", "clear", "compact"]

def notificationTypes : List String :=
  ["permission_prompt", "idle_prompt", "auth_success", "elicitation_dialog",
    "elicitation_complete", "elicitation_response", "agent_needs_input", "agent_completed"]

def sessionEndReasons : List String :=
  ["clear", "resume", "logout", "prompt_input_exit", "bypass_permissions_disabled", "other"]

def postCompactTriggers : List String := ["manual", "auto"]

def stopFailureTypes : List String :=
  ["rate_limit", "overloaded", "authentication_failed", "oauth_org_not_allowed", "billing_error",
    "invalid_request", "model_not_found", "server_error", "max_output_tokens", "unknown"]

def initEvent (w : World) (s : HookTurnState) (model : String) : Dict :=
  [("type", .str "system"), ("subtype", .str "init"), ("cwd", .str s.expectedCwd),
    ("session_id", .str s.expectedSessionId), ("tools", .arr []), ("mcp_servers", .arr []),
    ("model", .str model), ("permissionMode", .str "bypassPermissions"),
    ("output_style", .str "default"), ("agents", .arr []), ("skills", .arr []),
    ("plugins", .arr []), ("uuid", .str (w.uuid 0))]

/-- The model a session starts with. -/
def modelOf (s : HookTurnState) (payload : Dict) : Except Failure String :=
  match payload.getD "model" (.str s.model) with
  | .str model => .ok model
  | _ => .error (.protocol "SessionStart model must be a string when present")

def handleSessionStart (w : World) (payload : Dict) : Handling (List Dict) := do
  let s ← get
  validateCommon w s "SessionStart" payload
  let source ← requiredString payload "source"
  let model ← modelOf s payload
  raiseIf (source ∉ sessionStartSources) ("unknown SessionStart source '" ++ source ++ "'")
  raiseIf (source ≠ s.expectedSource) ("SessionStart source mismatch: expected " ++
    s.expectedSource ++ ", got " ++ source)
  raiseIf (s.sessionStarted = true) "duplicate SessionStart hook for one Claude process"
  modify fun s => { s with sessionStarted := true }
  return [initEvent w s model]

def handleUserPromptSubmit (w : World) (payload : Dict) : Handling (List Dict) := do
  let s ← get
  validateCommon w s "UserPromptSubmit" payload
  raiseIf (s.sessionStarted = false) "UserPromptSubmit arrived before SessionStart"
  let prompt ← required payload "prompt" Json.asText "str"
  let found ← correlation s payload "UserPromptSubmit"
  raiseIf (prompt ≠ s.expectedPrompt)
    ("UserPromptSubmit prompt mismatch: the hook blocked model processing; " ++
      "the submitted prompt is not the expected full prompt")
  modify fun s =>
    { s with
      correlationField := some found.1
      correlationId := some found.2
      delivery := .acknowledged
      active := true }
  return []

/-- An event of the assistant that shows a text. -/
def messageEvent (w : World) (s : HookTurnState) (delta messageId turnId : String) : Dict :=
  [("type", .str "assistant"),
    ("message", .obj [("role", .str "assistant"),
      ("content", .arr [.obj [("type", .str "text"), ("text", .str delta)]])]),
    ("parent_tool_use_id", .null), ("session_id", .str s.expectedSessionId),
    ("message_id", .str messageId), ("turn_id", .str turnId), ("uuid", .str (w.uuid 0))]

/-- `_handle_message_display`. A bool counts as an index. -/
def handleMessageDisplay (w : World) (payload : Dict) : Handling (List Dict) := do
  let s ← get
  validateCurrentTurn w s "MessageDisplay" payload
  checkCorrelation s "MessageDisplay" payload
  let turnId ← requiredString payload "turn_id"
  let messageId ← requiredString payload "message_id"
  let index ← required payload "index" Json.asInt "int"
  raiseIf (index < 0) "MessageDisplay index must be non-negative"
  let _ ← required payload "final" asBool "bool"
  let delta ← required payload "delta" Json.asText "str"
  raiseIf ((messageId, index) ∈ s.seenMessageBatches) ("duplicate MessageDisplay batch for " ++
    messageId ++ " index " ++ ((payload.get "index").toText))
  modify fun s => { s with seenMessageBatches := (messageId, index) :: s.seenMessageBatches }
  return if delta = "" then [] else [messageEvent w s delta messageId turnId]

def handlePreToolUse (w : World) (payload : Dict) : Handling (List Dict) := do
  let s ← get
  validateCurrentTurn w s "PreToolUse" payload
  let toolName ← requiredString payload "tool_name"
  let toolInput ← required payload "tool_input" Json.asDict "dict"
  let toolUseId ← requiredString payload "tool_use_id"
  return [[("type", .str "assistant"),
    ("message", .obj [("role", .str "assistant"),
      ("content", .arr [.obj [("type", .str "tool_use"), ("id", .str toolUseId),
        ("name", .str toolName), ("input", .obj toolInput)]])]),
    ("parent_tool_use_id", .null), ("session_id", .str s.expectedSessionId),
    ("uuid", .str (w.uuid 0))]]

/-- The texts of an output that are not empty, a line each. -/
def outputText (texts : List Json) : Json :=
  .str ("\n".intercalate ((texts.filterMap Json.asText).filter (· ≠ "")))

def toolResultContent (w : World) (value : Json) : Json :=
  match value with
  | .str _ | .arr _ => value
  | .obj fields =>
    match Dict.get fields "content" with
    | .str text => .str text
    | .arr items => .arr items
    | _ =>
      match Dict.get fields "stdout", Dict.get fields "stderr" with
      | .str stdout, stderr => outputText [.str stdout, stderr]
      | stdout, .str stderr => outputText [stdout, .str stderr]
      | _, _ => .str (w.dumps value)
  | _ => .str (w.dumps value)

/-- The response of a tool, or the error it failed with. -/
def toolResponseOf (eventName : String) (payload : Dict) : Except Failure Json :=
  if eventName = "PostToolUse" then required payload "tool_response" some "object"
  else (required payload "error" Json.asText "str").map Json.str

def handlePostToolUse (w : World) (eventName : String) (payload : Dict) :
    Handling (List Dict) := do
  let s ← get
  validateCurrentTurn w s eventName payload
  let _ ← requiredString payload "tool_name"
  let _ ← required payload "tool_input" Json.asDict "dict"
  let toolUseId ← requiredString payload "tool_use_id"
  let toolResponse ← toolResponseOf eventName payload
  return [[("type", .str "user"),
    ("message", .obj [("role", .str "user"),
      ("content", .arr [.obj [("type", .str "tool_result"), ("tool_use_id", .str toolUseId),
        ("content", toolResultContent w toolResponse),
        ("is_error", .bool (eventName ≠ "PostToolUse"))]])]),
    ("parent_tool_use_id", .null), ("session_id", .str s.expectedSessionId),
    ("uuid", .str (w.uuid 0)), ("tool_use_result", toolResponse)]]

/-- Whether a value is `None` or a number; a bool counts as one. -/
def isNumber : Json → Bool
  | .int _ | .float _ _ | .bool _ => true
  | _ => false

def handlePostCompact (w : World) (payload : Dict) : Handling (List Dict) := do
  let s ← get
  validateCurrentTurn w s "PostCompact" payload
  let trigger ← requiredString payload "trigger"
  raiseIf (trigger ∉ postCompactTriggers) ("unknown PostCompact trigger '" ++ trigger ++ "'")
  let _ ← requiredString payload "compact_summary"
  raiseIf (payload.has "pre_tokens" = true ∧ isNumber (payload.get "pre_tokens") = false)
    "PostCompact pre_tokens must be numeric when present"
  return [[("type", .str "context_compacted"), ("trigger", .str trigger),
    ("pre_tokens", payload.get "pre_tokens")]]

def handleStop (w : World) (payload : Dict) : Handling (List Dict) := do
  let s ← get
  validateCurrentTurn w s "Stop" payload
  let lastMessage ← required payload "last_assistant_message" Json.asText "str"
  let backgroundTasks ← required payload "background_tasks" asList "list"
  let sessionCrons ← required payload "session_crons" asList "list"
  raiseIf (backgroundTasks ≠ [] ∨ sessionCrons ≠ [])
    ("Stop reported active background work: " ++ toString backgroundTasks.length ++
      " background tasks, " ++ toString sessionCrons.length ++ " scheduled follow-ups")
  let stopHookActive ← required payload "stop_hook_active" asBool "bool"
  raiseIf (stopHookActive = true)
    "Stop hook reported stop_hook_active=true; final answer is not stable"
  raiseIf (s.stopSeen = true) "duplicate Stop hook for one turn"
  modify fun s => { s with stopSeen := true, stopCandidate := some lastMessage }
  return []

/-- A text that may be missing or null. -/
def optionalText (payload : Dict) (fieldName message : String) : Except Failure (Option String) :=
  match payload.get fieldName with
  | .null => .ok none
  | .str text => .ok (some text)
  | _ => .error (.protocol message)

def handleStopFailure (w : World) (payload : Dict) : Handling (List Dict) := do
  let s ← get
  validateCurrentTurn w s "StopFailure" payload
  let error ← requiredString payload "error"
  raiseIf (error ∉ stopFailureTypes) ("unknown StopFailure error value '" ++ error ++ "'")
  let errorDetails ← optionalText payload "error_details"
    "StopFailure error_details must be a string when present"
  let candidate ← optionalText payload "last_assistant_message"
    "StopFailure last_assistant_message must be a string when present"
  let message := ((candidate.filter (· ≠ "")).or (errorDetails.filter (· ≠ ""))).getD error
  let errorEvent : Dict :=
    [("type", .str "error"), ("message", .str message), ("content", .str message),
      ("error", .str error), ("error_details", (errorDetails.map Json.str).getD .null),
      ("uuid", .str (w.uuid 0))]
  let rateLimit : List Dict :=
    if error = "rate_limit" then
      [[("type", .str "rate_limit_event"),
        ("rate_limit_info", .obj [("status", .str "rejected"), ("rateLimitType", .str "unknown"),
          ("resetsAt", .str "unknown")]),
        ("uuid", .str (w.uuid 1))]]
    else []
  modify fun s => { s with failure := some ("StopFailure reported " ++ error ++ ": " ++ message) }
  return rateLimit ++ [errorEvent]

def handleNotification (w : World) (payload : Dict) : Handling (List Dict) := do
  let s ← get
  validateCommon w s "Notification" payload
  let notificationType ← requiredString payload "notification_type"
  let _ ← requiredString payload "message"
  raiseIf (notificationType ∉ notificationTypes)
    ("unknown Notification notification_type '" ++ notificationType ++ "'")
  if notificationType = "idle_prompt" then do
    raiseIf (s.active = false) "idle_prompt arrived before UserPromptSubmit for the turn"
    raiseIf (s.stopSeen = false) "idle_prompt arrived before Stop for the turn"
    checkGivenCorrelation s "Notification" payload
    modify fun s => { s with idleSeen := true }
    return []
  else do
    raiseIf (notificationType ∈ ["permission_prompt", "elicitation_dialog", "agent_needs_input"])
      ("Claude Code emitted unsupported blocking notification '" ++ notificationType ++
        "'; the GUI channel cannot answer it")
    return []

def handlePermissionRequest (w : World) (payload : Dict) : Handling (List Dict) := do
  let s ← get
  validateCurrentTurn w s "PermissionRequest" payload
  let toolName ← requiredString payload "tool_name"
  let _ ← required payload "tool_input" Json.asDict "dict"
  throw (.protocol ("Claude Code requested structured permission for tool '" ++ toolName ++
    "'; the GUI channel cannot answer it"))

def handleSessionEnd (w : World) (payload : Dict) : Handling (List Dict) := do
  let s ← get
  validateCommon w s "SessionEnd" payload
  let reason ← requiredString payload "reason"
  raiseIf (reason ∉ sessionEndReasons) ("unknown SessionEnd reason '" ++ reason ++ "'")
  raiseIf (s.active = true ∧ s.idleSeen = false)
    ("SessionEnd occurred during an active turn (reason=" ++ reason ++ ")")
  return []

def handle (w : World) (eventName : String) (payload : Dict) : Handling (List Dict) :=
  if eventName = "SessionStart" then handleSessionStart w payload
  else if eventName = "UserPromptSubmit" then handleUserPromptSubmit w payload
  else if eventName = "MessageDisplay" then handleMessageDisplay w payload
  else if eventName = "PreToolUse" then handlePreToolUse w payload
  else if eventName = "PostToolUse" ∨ eventName = "PostToolUseFailure" then
    handlePostToolUse w eventName payload
  else if eventName = "PostCompact" then handlePostCompact w payload
  else if eventName = "Stop" then handleStop w payload
  else if eventName = "StopFailure" then handleStopFailure w payload
  else if eventName = "Notification" then handleNotification w payload
  else if eventName = "PermissionRequest" then handlePermissionRequest w payload
  else if eventName = "SessionEnd" then handleSessionEnd w payload
  else throw (.protocol ("unsupported hook event '" ++ eventName ++ "'"))

/-! ## What a call can do -/

def IsInit (event : Dict) : Prop :=
  (event.get "type").isText "system" = true ∧ (event.get "subtype").isText "init" = true

/-- An event of the assistant or of a tool. -/
def IsTurnEvent (event : Dict) : Prop :=
  (event.get "type").isText "assistant" = true ∨ (event.get "type").isText "user" = true

/-- A turn goes on: the session started and the prompt was acknowledged. -/
def Current (s : HookTurnState) : Prop :=
  s.sessionStarted = true ∧ s.delivery = .acknowledged

def batchKey (payload : Dict) : Option (String × ℤ) := do
  let messageId ← (payload.get "message_id").asText
  let index ← (payload.get "index").asInt
  return (messageId, index)

/-- **What a call can do** when it returns: the events and the state it leaves. -/
inductive Handles (w : World) (s : HookTurnState) : String → Dict → List Dict → HookTurnState → Prop
  | sessionStart {payload : Dict} {model : String} (new : s.sessionStarted = false) :
      Handles w s "SessionStart" payload [initEvent w s model] { s with sessionStarted := true }
  | prompt {payload : Dict} {found : String × String} (started : s.sessionStarted = true)
      (common : validateCommon w s "UserPromptSubmit" payload = .ok ())
      (text : required payload "prompt" Json.asText "str" = .ok s.expectedPrompt)
      (correlates : correlation s payload "UserPromptSubmit" = .ok found) :
      Handles w s "UserPromptSubmit" payload []
        { s with
          correlationField := some found.1
          correlationId := some found.2
          delivery := .acknowledged
          active := true }
  | message {payload : Dict} {key : String × ℤ} {events : List Dict} (current : Current s)
      (batch : batchKey payload = some key) (new : key ∉ s.seenMessageBatches)
      (other : ∀ event ∈ events, ¬IsInit event) :
      Handles w s "MessageDisplay" payload events
        { s with seenMessageBatches := key :: s.seenMessageBatches }
  | told {eventName : String} {payload : Dict} {events : List Dict} {failure : Option String}
      (current : Current s) (named : eventName ≠ "MessageDisplay")
      (other : ∀ event ∈ events, ¬IsInit event) :
      Handles w s eventName payload events { s with failure := failure }
  | stop {payload : Dict} {message : String} (current : Current s) :
      Handles w s "Stop" payload [] { s with stopSeen := true, stopCandidate := some message }
  | idle {payload : Dict} (active : s.active = true) (stopped : s.stopSeen = true) :
      Handles w s "Notification" payload [] { s with idleSeen := true }
  | quiet {eventName : String} {payload : Dict} (named : eventName ≠ "MessageDisplay") :
      Handles w s eventName payload [] s

section

variable {w : World} {s : HookTurnState} {payload : Dict}

theorem of_raiseIf {p : Prop} [Decidable p] {message : String} {a : Unit}
    (passed : raiseIf p message = .ok a) : ¬p :=
  (Except.check_eq_ok_iff.1 passed).1

theorem current_of_validate {eventName : String} {a : Unit}
    (valid : validateCurrentTurn w s eventName payload = .ok a) : Current s := by
  obtain ⟨_, -, valid⟩ := Except.bind_eq_ok_iff.1 valid
  obtain ⟨_, started, valid⟩ := Except.bind_eq_ok_iff.1 valid
  obtain ⟨_, acknowledged, -⟩ := Except.bind_eq_ok_iff.1 valid
  exact ⟨by simpa using of_raiseIf started, by simpa using of_raiseIf acknowledged⟩

theorem get_of_required {α : Type} {fieldName typeName : String} {expected : Json → Option α}
    {a : α} (found : required payload fieldName expected typeName = .ok a) :
    expected (payload.get fieldName) = some a := by
  unfold required at found
  split at found
  · cases found
  · next value there =>
    split at found
    · cases found
    · next a reads =>
      cases found
      have is : payload.get fieldName = value := congrArg (fun o => Option.getD o Json.null) there
      rw [is]
      exact reads

open Raising

theorem handleSessionStart_ensures :
    Ensures (handleSessionStart w payload) s (Handles w s "SessionStart" payload) := by
  refine Ensures.get ?_
  refine Ensures.check fun _ _ => ?_
  refine Ensures.check fun source _ => ?_
  refine Ensures.check fun model _ => ?_
  refine Ensures.check fun _ _ => ?_
  refine Ensures.check fun _ _ => ?_
  refine Ensures.check fun _ new => ?_
  exact Ensures.modify (.sessionStart (by simpa using of_raiseIf new))

theorem handleUserPromptSubmit_ensures :
    Ensures (handleUserPromptSubmit w payload) s (Handles w s "UserPromptSubmit" payload) := by
  refine Ensures.get ?_
  refine Ensures.check fun _ common => ?_
  refine Ensures.check fun _ started => ?_
  refine Ensures.check fun prompt text => ?_
  refine Ensures.check fun found correlates => ?_
  refine Ensures.check fun _ same => ?_
  obtain rfl : prompt = s.expectedPrompt := not_not.1 (of_raiseIf same)
  exact Ensures.modify (.prompt (by simpa using of_raiseIf started) common text correlates)

theorem handleMessageDisplay_ensures :
    Ensures (handleMessageDisplay w payload) s (Handles w s "MessageDisplay" payload) := by
  refine Ensures.get ?_
  refine Ensures.check fun _ valid => ?_
  refine Ensures.check fun _ _ => ?_
  refine Ensures.check fun turnId _ => ?_
  refine Ensures.check fun messageId named => ?_
  refine Ensures.check fun index numbered => ?_
  refine Ensures.check fun _ _ => ?_
  refine Ensures.check fun _ _ => ?_
  refine Ensures.check fun delta _ => ?_
  refine Ensures.check fun _ new => ?_
  obtain ⟨id, found, rest⟩ := Except.bind_eq_ok_iff.1 named
  obtain ⟨_, -, rest⟩ := Except.bind_eq_ok_iff.1 rest
  cases rest
  have key : batchKey payload = some (messageId, index) := by
    simp [batchKey, get_of_required found, get_of_required numbered]
  refine Ensures.modify (.message (current_of_validate valid) key (of_raiseIf new) ?_)
  split
  · exact fun _ absent => absurd absent List.not_mem_nil
  · intro event is
    obtain rfl := List.mem_singleton.1 is
    exact fun init => Bool.noConfusion init.1

theorem Ensures.told {eventName : String} {events : List Dict} (current : Current s)
    (named : eventName ≠ "MessageDisplay") (other : ∀ event ∈ events, ¬IsInit event) :
    Ensures (pure events : Handling (List Dict)) s (Handles w s eventName payload) :=
  Ensures.pure (@Handles.told w s eventName payload events s.failure current named other)

theorem not_isInit_cons {event : Dict} {name : String} (other : name ≠ "system") :
    ¬IsInit (("type", .str name) :: event) := by
  rintro ⟨is, -⟩
  exact other (eq_of_beq is)

theorem handlePreToolUse_ensures :
    Ensures (handlePreToolUse w payload) s (Handles w s "PreToolUse" payload) := by
  refine Ensures.get ?_
  refine Ensures.check fun _ valid => ?_
  refine Ensures.check fun _ _ => ?_
  refine Ensures.check fun _ _ => ?_
  refine Ensures.check fun _ _ => ?_
  exact Ensures.told (current_of_validate valid) (by decide)
    (List.forall_mem_singleton.2 (not_isInit_cons (by decide)))

theorem handlePostToolUse_ensures {eventName : String} (named : eventName ≠ "MessageDisplay") :
    Ensures (handlePostToolUse w eventName payload) s (Handles w s eventName payload) := by
  refine Ensures.get ?_
  refine Ensures.check fun _ valid => ?_
  refine Ensures.check fun _ _ => ?_
  refine Ensures.check fun _ _ => ?_
  refine Ensures.check fun _ _ => ?_
  refine Ensures.check fun _ _ => ?_
  exact Ensures.told (current_of_validate valid) named
    (List.forall_mem_singleton.2 (not_isInit_cons (by decide)))

theorem handlePostCompact_ensures :
    Ensures (handlePostCompact w payload) s (Handles w s "PostCompact" payload) := by
  refine Ensures.get ?_
  refine Ensures.check fun _ valid => ?_
  refine Ensures.check fun _ _ => ?_
  refine Ensures.check fun _ _ => ?_
  refine Ensures.check fun _ _ => ?_
  refine Ensures.check fun _ _ => ?_
  exact Ensures.told (current_of_validate valid) (by decide)
    (List.forall_mem_singleton.2 (not_isInit_cons (by decide)))

theorem handleStop_ensures :
    Ensures (handleStop w payload) s (Handles w s "Stop" payload) := by
  refine Ensures.get ?_
  refine Ensures.check fun _ valid => ?_
  refine Ensures.check fun _ _ => ?_
  refine Ensures.check fun _ _ => ?_
  refine Ensures.check fun _ _ => ?_
  refine Ensures.check fun _ _ => ?_
  refine Ensures.check fun _ _ => ?_
  refine Ensures.check fun _ _ => ?_
  refine Ensures.check fun _ _ => ?_
  exact Ensures.modify (.stop (current_of_validate valid))

theorem handleStopFailure_ensures :
    Ensures (handleStopFailure w payload) s (Handles w s "StopFailure" payload) := by
  refine Ensures.get ?_
  refine Ensures.check fun _ valid => ?_
  refine Ensures.check fun error _ => ?_
  refine Ensures.check fun _ _ => ?_
  refine Ensures.check fun _ _ => ?_
  refine Ensures.check fun _ _ => ?_
  refine Ensures.modify (.told (current_of_validate valid) (by decide) ?_)
  intro event is
  rcases List.mem_append.1 is with is | is
  · split at is
    · obtain rfl := List.mem_singleton.1 is
      exact not_isInit_cons (by decide)
    · exact absurd is List.not_mem_nil
  · obtain rfl := List.mem_singleton.1 is
    exact not_isInit_cons (by decide)

theorem handleNotification_ensures :
    Ensures (handleNotification w payload) s (Handles w s "Notification" payload) := by
  refine Ensures.get ?_
  refine Ensures.check fun _ _ => ?_
  refine Ensures.check fun notificationType _ => ?_
  refine Ensures.check fun _ _ => ?_
  refine Ensures.check fun _ _ => ?_
  split
  · refine Ensures.check fun _ active => ?_
    refine Ensures.check fun _ stopped => ?_
    refine Ensures.check fun _ _ => ?_
    exact Ensures.modify (.idle (by simpa using of_raiseIf active)
      (by simpa using of_raiseIf stopped))
  · refine Ensures.check fun _ _ => ?_
    exact Ensures.pure (.quiet (by decide))

theorem handlePermissionRequest_ensures :
    Ensures (handlePermissionRequest w payload) s (Handles w s "PermissionRequest" payload) := by
  refine Ensures.get ?_
  refine Ensures.check fun _ _ => ?_
  refine Ensures.check fun _ _ => ?_
  refine Ensures.check fun _ _ => ?_
  rfl

theorem handleSessionEnd_ensures :
    Ensures (handleSessionEnd w payload) s (Handles w s "SessionEnd" payload) := by
  refine Ensures.get ?_
  refine Ensures.check fun _ _ => ?_
  refine Ensures.check fun _ _ => ?_
  refine Ensures.check fun _ _ => ?_
  refine Ensures.check fun _ _ => ?_
  exact Ensures.pure (.quiet (by decide))

/-- **A call returns as listed, or raises and has changed nothing.** -/
theorem handle_ensures (eventName : String) :
    Ensures (handle w eventName payload) s (Handles w s eventName payload) := by
  rw [handle]
  by_cases h : eventName = "SessionStart"
  · rw [if_pos h, h]
    exact handleSessionStart_ensures
  rw [if_neg h]
  by_cases h : eventName = "UserPromptSubmit"
  · rw [if_pos h, h]
    exact handleUserPromptSubmit_ensures
  rw [if_neg h]
  by_cases message : eventName = "MessageDisplay"
  · rw [if_pos message, message]
    exact handleMessageDisplay_ensures
  rw [if_neg message]
  by_cases h : eventName = "PreToolUse"
  · rw [if_pos h, h]
    exact handlePreToolUse_ensures
  rw [if_neg h]
  by_cases h : eventName = "PostToolUse" ∨ eventName = "PostToolUseFailure"
  · rw [if_pos h]
    exact handlePostToolUse_ensures message
  rw [if_neg h]
  by_cases h : eventName = "PostCompact"
  · rw [if_pos h, h]
    exact handlePostCompact_ensures
  rw [if_neg h]
  by_cases h : eventName = "Stop"
  · rw [if_pos h, h]
    exact handleStop_ensures
  rw [if_neg h]
  by_cases h : eventName = "StopFailure"
  · rw [if_pos h, h]
    exact handleStopFailure_ensures
  rw [if_neg h]
  by_cases h : eventName = "Notification"
  · rw [if_pos h, h]
    exact handleNotification_ensures
  rw [if_neg h]
  by_cases h : eventName = "PermissionRequest"
  · rw [if_pos h, h]
    exact handlePermissionRequest_ensures
  rw [if_neg h]
  by_cases h : eventName = "SessionEnd"
  · rw [if_pos h, h]
    exact handleSessionEnd_ensures
  rw [if_neg h]
  rfl

/-! ## What that means for the state -/

/-- What was seen of a turn implies what has to come before it. -/
structure Ordered (s : HookTurnState) : Prop where
  idle : s.idleSeen = true → s.stopSeen = true
  stop : s.stopSeen = true → s.active = true
  active : s.active = true → s.sessionStarted = true
  /-- A prompt that was acknowledged made the turn active. -/
  acknowledged : s.delivery = .acknowledged → s.active = true

variable {t : HookTurnState} {eventName : String} {events : List Dict}

theorem Ordered.handles (h : Ordered s) (handles : Handles w s eventName payload events t) :
    Ordered t := by
  cases handles with
  | sessionStart new => exact ⟨h.idle, h.stop, fun _ => rfl, h.acknowledged⟩
  | prompt started common text correlates =>
    exact ⟨h.idle, fun _ => rfl, fun _ => started, fun _ => rfl⟩
  | message current batch new other => exact ⟨h.idle, h.stop, h.active, h.acknowledged⟩
  | told current named other => exact ⟨h.idle, h.stop, h.active, h.acknowledged⟩
  | stop current =>
    exact ⟨fun _ => rfl, fun _ => h.acknowledged current.2, h.active, h.acknowledged⟩
  | idle active stopped => exact ⟨fun _ => stopped, h.stop, h.active, h.acknowledged⟩
  | quiet named => exact h

theorem Handles.before_start (handles : Handles w s eventName payload events t)
    (fresh : s.sessionStarted = false) :
    (events = [] ∧ t.sessionStarted = false) ∨
      (∃ model, events = [initEvent w s model] ∧ t.sessionStarted = true) := by
  cases handles with
  | sessionStart new => exact .inr ⟨_, rfl, rfl⟩
  | prompt started common text correlates =>
    rw [fresh] at started
    cases started
  | message current batch new other =>
    rw [Current, fresh] at current
    cases current.1
  | told current named other =>
    rw [Current, fresh] at current
    cases current.1
  | stop current =>
    rw [Current, fresh] at current
    cases current.1
  | idle active stopped => exact .inl ⟨rfl, fresh⟩
  | quiet named => exact .inl ⟨rfl, fresh⟩

theorem Handles.after_start (handles : Handles w s eventName payload events t)
    (started : s.sessionStarted = true) :
    t.sessionStarted = true ∧ ∀ event ∈ events, ¬IsInit event := by
  have none_ : ∀ event ∈ ([] : List Dict), ¬IsInit event := fun _ absent =>
    absurd absent List.not_mem_nil
  cases handles with
  | sessionStart new =>
    rw [started] at new
    cases new
  | prompt _ common text correlates => exact ⟨started, none_⟩
  | message current batch new other => exact ⟨started, other⟩
  | told current named other => exact ⟨started, other⟩
  | stop current => exact ⟨started, none_⟩
  | idle active stopped => exact ⟨started, none_⟩
  | quiet named => exact ⟨started, none_⟩

theorem Handles.acknowledged (handles : Handles w s eventName payload events t)
    {event : Dict} (told : event ∈ events) (isTurn : IsTurnEvent event) :
    s.delivery = .acknowledged := by
  cases handles with
  | sessionStart new =>
    obtain rfl := List.mem_singleton.1 told
    exact isTurn.elim (fun is => Bool.noConfusion is) (fun is => Bool.noConfusion is)
  | prompt started common text correlates => exact absurd told List.not_mem_nil
  | message current batch new other => exact current.2
  | told current named other => exact current.2
  | stop current => exact current.2
  | idle active stopped => exact absurd told List.not_mem_nil
  | quiet named => exact absurd told List.not_mem_nil

theorem Handles.acknowledges (handles : Handles w s eventName payload events t)
    (acknowledged : t.delivery = .acknowledged) :
    s.delivery = .acknowledged ∨ eventName = "UserPromptSubmit" := by
  cases handles with
  | prompt started common text correlates => exact .inr rfl
  | _ => exact .inl acknowledged

theorem Handles.seen (handles : Handles w s eventName payload events t) :
    (eventName ≠ "MessageDisplay" ∧ t.seenMessageBatches = s.seenMessageBatches) ∨
      (eventName = "MessageDisplay" ∧ ∃ key, batchKey payload = some key ∧
        key ∉ s.seenMessageBatches ∧ t.seenMessageBatches = key :: s.seenMessageBatches) := by
  cases handles with
  | sessionStart new => exact .inl ⟨by decide, rfl⟩
  | prompt started common text correlates => exact .inl ⟨by decide, rfl⟩
  | message current batch new other => exact .inr ⟨rfl, _, batch, new, rfl⟩
  | told current named other => exact .inl ⟨named, rfl⟩
  | stop current => exact .inl ⟨by decide, rfl⟩
  | idle active stopped => exact .inl ⟨by decide, rfl⟩
  | quiet named => exact .inl ⟨named, rfl⟩

theorem Handles.correlation (handles : Handles w s eventName payload events t) :
    t.correlationId = s.correlationId ∨
      (eventName = "UserPromptSubmit" ∧ s.sessionStarted = true ∧
        validateCommon w s "UserPromptSubmit" payload = .ok () ∧
        required payload "prompt" Json.asText "str" = .ok s.expectedPrompt ∧
        ∃ found, HookTurn.correlation s payload "UserPromptSubmit" = .ok found ∧
          t.correlationId = some found.2) := by
  cases handles with
  | prompt started common text correlates =>
    exact .inr ⟨rfl, started, common, text, _, correlates, rfl⟩
  | _ => exact .inl rfl

theorem run_handle_prompt {found : String × String} (started : s.sessionStarted = true)
    (common : validateCommon w s "UserPromptSubmit" payload = .ok ())
    (text : required payload "prompt" Json.asText "str" = .ok s.expectedPrompt)
    (correlates : HookTurn.correlation s payload "UserPromptSubmit" = .ok found) :
    ((handle w "UserPromptSubmit" payload).run.run s).2.correlationId = some found.2 := by
  have begun : raiseIf (s.sessionStarted = false) "UserPromptSubmit arrived before SessionStart" =
      .ok () := if_neg (by simp [started])
  have same : raiseIf (s.expectedPrompt ≠ s.expectedPrompt)
      ("UserPromptSubmit prompt mismatch: the hook blocked model processing; " ++
        "the submitted prompt is not the expected full prompt") = .ok () := if_neg (by simp)
  rw [handle, if_neg (by decide), if_pos rfl, handleUserPromptSubmit, Raising.run_get,
    Raising.run_check common, Raising.run_check begun, Raising.run_check text,
    Raising.run_check correlates, Raising.run_check same]
  rfl

end

/-! ## Turns -/

/-- A call of a hook, and what it finds around it. -/
structure Call where
  world : World
  eventName : String
  payload : Dict

/-- A call, the states around it, and what it returned or raised. -/
structure Entry where
  call : Call
  before : HookTurnState
  after : HookTurnState
  outcome : Except Failure (List Dict)

/-- A turn: its state, and the calls so far. -/
structure Turn where
  state : HookTurnState
  log : List Entry := []

/-- A turn about to run, as its state is built. -/
def Turn.begun (sessionId cwd prompt model source : String) : Turn where
  state := {
    expectedSessionId := sessionId, expectedCwd := cwd, expectedPrompt := prompt
    model := model, expectedSource := source }

def respond (s : HookTurnState) (c : Call) : Entry :=
  let result := (handle c.world c.eventName c.payload).run.run s
  ⟨c, s, result.2, result.1⟩

def Turn.call (t : Turn) (c : Call) : Turn :=
  ⟨(respond t.state c).after, t.log ++ [respond t.state c]⟩

def system : TransitionSystem Turn Call := ⟨fun t c => some (t.call c)⟩

namespace Entry

/-- The events a call gave back. -/
def events (e : Entry) : List Dict :=
  match e.outcome with
  | .ok events => events
  | .error _ => []

/-- The key of the message batch a call was accepted with. -/
def batch (e : Entry) : Option (String × ℤ) :=
  match e.outcome with
  | .ok _ => if e.call.eventName = "MessageDisplay" then batchKey e.call.payload else none
  | .error _ => none

/-- The call acknowledged the prompt. -/
def Acknowledges (e : Entry) : Prop :=
  e.call.eventName = "UserPromptSubmit" ∧ ∃ events, e.outcome = .ok events

/-- **A prompt that replaces the id of its turn**: all that is checked of it
is right, and it brings another id than the one that is established. -/
def Replaces (e : Entry) : Prop :=
  e.call.eventName = "UserPromptSubmit" ∧ e.before.sessionStarted = true ∧
    validateCommon e.call.world e.before "UserPromptSubmit" e.call.payload = .ok () ∧
    required e.call.payload "prompt" Json.asText "str" = .ok e.before.expectedPrompt ∧
    ∃ id found, e.before.correlationId = some id ∧
      correlation e.before e.call.payload "UserPromptSubmit" = .ok found ∧ found.2 ≠ id

end Entry

/-- The events of a turn, in order. -/
def emitted (log : List Entry) : List Dict := log.flatMap Entry.events

/-- **The laws of a turn.** -/
structure Laws (log : List Entry) : Prop where
  /-- The init event is before any other. -/
  init_first : ∀ event ∈ (emitted log).head?, IsInit event
  init_once : ∀ event ∈ (emitted log).tail, ¬IsInit event
  /-- Events of the assistant and of tools come after the prompt was acknowledged. -/
  acknowledged : ∀ n e, log[n]? = some e → (∃ event ∈ e.events, IsTurnEvent event) →
    ∃ a ∈ log.take n, a.Acknowledges
  /-- Idle implies stop, stop implies active, active implies started, in every state. -/
  ordered : ∀ e ∈ log, Ordered e.before ∧ Ordered e.after
  /-- No message batch is accepted twice. -/
  batches : (log.filterMap Entry.batch).Nodup
  /-- A call that raises leaves the state. -/
  unchanged : ∀ e ∈ log, ∀ failure, e.outcome = .error failure → e.after = e.before
  /-- An id that is established stays. -/
  correlation : ∀ e ∈ log, ∀ id, e.before.correlationId = some id →
    e.after.correlationId = some id

/-- **What holds along a turn**, of its state and its calls. -/
structure Inv (t : Turn) : Prop where
  responds : ∀ e ∈ t.log, e = respond e.before e.call
  ordered : Ordered t.state
  entries : ∀ e ∈ t.log, Ordered e.before ∧ Ordered e.after
  /-- Nothing was told before the session started. -/
  quiet : t.state.sessionStarted = false → emitted t.log = []
  /-- The init event was. -/
  told : t.state.sessionStarted = true → emitted t.log ≠ []
  first : ∀ event ∈ (emitted t.log).head?, IsInit event
  once : ∀ event ∈ (emitted t.log).tail, ¬IsInit event
  acknowledging : t.state.delivery = .acknowledged → ∃ a ∈ t.log, a.Acknowledges
  acknowledged : ∀ n e, t.log[n]? = some e → (∃ event ∈ e.events, IsTurnEvent event) →
    ∃ a ∈ t.log.take n, a.Acknowledges
  /-- The keys of accepted batches are remembered. -/
  seen : ∀ key ∈ t.log.filterMap Entry.batch, key ∈ t.state.seenMessageBatches
  batches : (t.log.filterMap Entry.batch).Nodup

theorem respond_spec (s : HookTurnState) (c : Call) :
    (∃ events, (respond s c).outcome = .ok events ∧
        Handles c.world s c.eventName c.payload events (respond s c).after) ∨
      ∃ failure, (respond s c).outcome = .error failure ∧ (respond s c).after = s := by
  have ensures : Raising.Ensures (handle c.world c.eventName c.payload) s
      (Handles c.world s c.eventName c.payload) := handle_ensures c.eventName
  unfold Raising.Ensures at ensures
  unfold respond
  revert ensures
  rcases (handle c.world c.eventName c.payload).run.run s with ⟨failure | events, after⟩
  · exact fun same => .inr ⟨failure, rfl, same⟩
  · exact fun handles => .inl ⟨events, rfl, handles⟩

theorem emitted_concat (log : List Entry) (e : Entry) :
    emitted (log ++ [e]) = emitted log ++ e.events := by
  simp [emitted]

theorem Inv.start {s : HookTurnState} (ordered : Ordered s) (unknown : s.delivery = .unknown)
    (fresh : s.sessionStarted = false) : Inv ⟨s, []⟩ where
  responds := fun _ absent => absurd absent List.not_mem_nil
  ordered := ordered
  entries := fun _ absent => absurd absent List.not_mem_nil
  quiet := fun _ => rfl
  told := fun started => by
    rw [fresh] at started
    cases started
  first := fun _ none_ => nomatch none_
  once := fun _ absent => absurd absent List.not_mem_nil
  acknowledging := fun acknowledged => by
    rw [unknown] at acknowledged
    cases acknowledged
  acknowledged := fun _ _ none_ => nomatch none_
  seen := fun _ absent => absurd absent List.not_mem_nil
  batches := List.nodup_nil

/-- What a call tells: nothing, the init event that starts the session, or
other events of a session that started. -/
inductive Tells (s : HookTurnState) (e : Entry) : Prop
  | nothing (none_ : e.events = []) (same : e.after.sessionStarted = s.sessionStarted)
  | init (fresh : s.sessionStarted = false) {event : Dict} (one : e.events = [event])
      (isInit : IsInit event) (starts : e.after.sessionStarted = true)
  | other (started : s.sessionStarted = true) (stays : e.after.sessionStarted = true)
      (events : ∀ event ∈ e.events, ¬IsInit event)

theorem Inv.append {t : Turn} (h : Inv t) {e : Entry} (own : e = respond t.state e.call)
    (ordered : Ordered e.after) (tells : Tells t.state e)
    (acknowledges : e.after.delivery = .acknowledged →
      t.state.delivery = .acknowledged ∨ e.Acknowledges)
    (turn : (∃ event ∈ e.events, IsTurnEvent event) → t.state.delivery = .acknowledged)
    (remembers : (e.batch = none ∧ e.after.seenMessageBatches = t.state.seenMessageBatches) ∨
      ∃ key, e.batch = some key ∧ key ∉ t.state.seenMessageBatches ∧
        e.after.seenMessageBatches = key :: t.state.seenMessageBatches) :
    Inv ⟨e.after, t.log ++ [e]⟩ := by
  have before : e.before = t.state := congrArg Entry.before own
  refine
    { responds := ?_
      ordered := ordered
      entries := ?_
      quiet := ?_
      told := ?_
      first := ?_
      once := ?_
      acknowledging := ?_
      acknowledged := ?_
      seen := ?_
      batches := ?_ }
  · refine List.forall_mem_append.2 ⟨h.responds, List.forall_mem_singleton.2 ?_⟩
    rw [before]
    exact own
  · exact List.forall_mem_append.2 ⟨h.entries, List.forall_mem_singleton.2
      ⟨before.symm ▸ h.ordered, ordered⟩⟩
  · intro fresh
    rw [emitted_concat]
    cases tells with
    | nothing none_ same => rw [none_, List.append_nil, h.quiet (same.symm.trans fresh)]
    | init _ one isInit starts => exact Bool.noConfusion (starts.symm.trans fresh)
    | other started stays events => exact Bool.noConfusion (stays.symm.trans fresh)
  · intro started
    rw [emitted_concat]
    cases tells with
    | nothing none_ same =>
      rw [none_, List.append_nil]
      exact h.told (same.symm.trans started)
    | init fresh one isInit starts => simp [one]
    | other started _ events => simp [h.told started]
  · intro event is
    rw [emitted_concat] at is
    cases tells with
    | nothing none_ same =>
      rw [none_, List.append_nil] at is
      exact h.first event is
    | init fresh one isInit starts =>
      rw [h.quiet fresh, one] at is
      obtain rfl := Option.some.inj is
      exact isInit
    | other started _ events =>
      rw [List.head?_append_of_ne_nil _ (h.told started)] at is
      exact h.first event is
  · intro event is
    rw [emitted_concat] at is
    cases tells with
    | nothing none_ same =>
      rw [none_, List.append_nil] at is
      exact h.once event is
    | init fresh one isInit starts =>
      rw [h.quiet fresh, one] at is
      exact absurd is List.not_mem_nil
    | other started _ events =>
      rw [List.tail_append_of_ne_nil (h.told started)] at is
      exact (List.mem_append.1 is).elim (h.once event) (events event)
  · intro acknowledged
    rcases acknowledges acknowledged with old | new
    · obtain ⟨a, mem, acknowledges⟩ := h.acknowledging old
      exact ⟨a, List.mem_append_left _ mem, acknowledges⟩
    · exact ⟨e, List.mem_append_right _ List.mem_cons_self, new⟩
  · intro n x at_ turns
    rcases Nat.lt_or_ge n t.log.length with old | new
    · rw [List.getElem?_append_left old] at at_
      rw [List.take_append_of_le_length old.le]
      exact h.acknowledged n x at_ turns
    · rw [List.getElem?_append_right new, List.getElem?_singleton] at at_
      split at at_
      · obtain rfl := Option.some.inj at_
        rw [List.take_append_of_le_length (by omega), List.take_of_length_le new]
        exact h.acknowledging (turn turns)
      · cases at_
  · rw [List.filterMap_append]
    rcases remembers with ⟨none_, same⟩ | ⟨key, some_, -, grows⟩
    · rw [List.filterMap_cons_none none_, List.filterMap_nil, List.append_nil]
      exact same.symm ▸ h.seen
    · rw [List.filterMap_cons_some some_, List.filterMap_nil, grows]
      refine List.forall_mem_append.2 ⟨fun old mem => List.mem_cons_of_mem _ (h.seen old mem), ?_⟩
      exact List.forall_mem_singleton.2 List.mem_cons_self
  · rw [List.filterMap_append]
    rcases remembers with ⟨none_, same⟩ | ⟨key, some_, new, grows⟩
    · rw [List.filterMap_cons_none none_, List.filterMap_nil, List.append_nil]
      exact h.batches
    · rw [List.filterMap_cons_some some_, List.filterMap_nil]
      refine List.nodup_append.2 ⟨h.batches, List.nodup_singleton key, ?_⟩
      rintro old mem _ is rfl
      obtain rfl := List.mem_singleton.1 is
      exact new (h.seen _ mem)

theorem Inv.call {t : Turn} (h : Inv t) (c : Call) : Inv (t.call c) := by
  rcases respond_spec t.state c with ⟨events, accepted, handles⟩ | ⟨failure, refused, same⟩
  · have told : (respond t.state c).events = events := by rw [Entry.events, accepted]
    have batch : (respond t.state c).batch =
        if c.eventName = "MessageDisplay" then batchKey c.payload else none := by
      rw [Entry.batch, accepted]
      rfl
    refine h.append rfl (h.ordered.handles handles) ?_ ?_ ?_ ?_
    · cases fresh : t.state.sessionStarted with
      | false =>
        rcases handles.before_start fresh with ⟨rfl, stays⟩ | ⟨model, rfl, starts⟩
        · exact .nothing told (stays.trans fresh.symm)
        · exact .init fresh told ⟨rfl, rfl⟩ starts
      | true =>
        have after := handles.after_start fresh
        exact .other fresh after.1 (told.symm ▸ after.2)
    · intro acknowledged
      exact (handles.acknowledges acknowledged).imp_right fun named => ⟨named, events, accepted⟩
    · rintro ⟨event, mem, isTurn⟩
      exact handles.acknowledged (told ▸ mem) isTurn
    · rw [batch]
      rcases handles.seen with ⟨named, seen⟩ | ⟨named, key, brings, new, grows⟩
      · exact .inl ⟨if_neg named, seen⟩
      · exact .inr ⟨key, (if_pos named).trans brings, new, grows⟩
  · have told : (respond t.state c).events = [] := by rw [Entry.events, refused]
    have batch : (respond t.state c).batch = none := by rw [Entry.batch, refused]
    refine h.append rfl (same.symm ▸ h.ordered) (.nothing told (by rw [same])) ?_ ?_
      (.inl ⟨batch, by rw [same]⟩)
    · exact fun acknowledged => .inl (same ▸ acknowledged)
    · rintro ⟨event, mem, -⟩
      rw [told] at mem
      exact absurd mem List.not_mem_nil

/-- **An id stays exactly where no prompt replaces it.** -/
theorem keeps_correlation_iff (s : HookTurnState) (c : Call) :
    (∀ id, s.correlationId = some id → (respond s c).after.correlationId = some id) ↔
      ¬(respond s c).Replaces := by
  constructor
  · rintro keeps ⟨named, started, common, text, id, found, established, correlates, other⟩
    have kept := keeps id established
    obtain ⟨w, eventName, payload⟩ := c
    obtain rfl : eventName = "UserPromptSubmit" := named
    have replaced := run_handle_prompt started common text correlates
    exact other (Option.some.inj (replaced.symm.trans kept))
  · intro keeps id established
    rcases respond_spec s c with ⟨events, accepted, handles⟩ | ⟨failure, refused, same⟩
    · rcases handles.correlation with same | ⟨named, started, common, text, found, correlates, is⟩
      · exact same.trans established
      · rw [is]
        by_contra other
        exact keeps ⟨named, started, common, text, id, found, established, correlates,
          fun same => other (congrArg some same)⟩
    · rw [same]
      exact established

/-- **The laws of a turn hold along every run of calls, of any names and
payloads, in which no accepted prompt replaces the established id**, and along
no other. -/
theorem laws_iff {sessionId cwd prompt model source : String} {calls : List Call} {t : Turn}
    (ran : system.run (.begun sessionId cwd prompt model source) calls = some t) :
    Laws t.log ↔ ∀ e ∈ t.log, ¬e.Replaces := by
  have fresh : Inv (.begun sessionId cwd prompt model source) :=
    Inv.start ⟨fun seen => (nomatch seen), fun seen => (nomatch seen), fun seen => (nomatch seen),
      fun seen => (nomatch seen)⟩ rfl rfl
  have inv : Inv t := system.run_invariant
    (fun _ c _ inv steps => Option.some.inj steps ▸ inv.call c) fresh calls ran
  have keeps : ∀ e ∈ t.log, (∀ id, e.before.correlationId = some id →
      e.after.correlationId = some id) ↔ ¬e.Replaces := by
    intro e mem
    have own := inv.responds e mem
    rw [own]
    exact keeps_correlation_iff e.before e.call
  constructor
  · exact fun laws e mem => (keeps e mem).1 (laws.correlation e mem)
  · intro none_
    refine ⟨inv.first, inv.once, inv.acknowledged, inv.entries, inv.batches, ?_,
      fun e mem => (keeps e mem).2 (none_ e mem)⟩
    intro e mem failure raised
    have own := inv.responds e mem
    rcases respond_spec e.before e.call with ⟨events, accepted, -⟩ | ⟨_, -, same⟩
    · rw [own, accepted] at raised
      cases raised
    · rw [← own] at same
      exact same

/-- A call of session `s1` in `/work`, with what its payload has besides. -/
def callIn (eventName : String) (more : Dict) : Call where
  world := { realpath := .ok, dumps := Json.typeName, uuid := fun _ => "u" }
  eventName := eventName
  payload := [("hook_event_name", .str eventName), ("session_id", .str "s1"),
    ("cwd", .str "/work")] ++ more

/-- A session that starts and the prompt of its turn, under an id. -/
def startedCalls (id : String) : List Call :=
  [callIn "SessionStart" [("source", .str "startup")],
    callIn "UserPromptSubmit" [("prompt", .str "hi"), ("turn_id", .str id)]]

def startedTurn (id : String) : Turn :=
  (startedCalls id).foldl Turn.call (.begun "s1" "/work" "hi" "" "startup")

theorem laws_iff_started : Laws (startedTurn "t1").log := by
  have ran : system.run (.begun "s1" "/work" "hi" "" "startup") (startedCalls "t1") =
      some (startedTurn "t1") := rfl
  refine (laws_iff ran).2 fun e mem => ?_
  rintro ⟨named, -, -, -, id, found, established, -⟩
  have before : ∀ e ∈ (startedTurn "t1").log, e.before.correlationId = none := by
    decide +kernel
  rw [before e mem] at established
  cases established

/-- **A second prompt replaces the id of a running turn**: the same prompt
comes again under another id, and is not refused. -/
theorem prompt_replaces_id :
    ∃ t, system.run (.begun "s1" "/work" "hi" "" "startup") (startedCalls "t1" ++
        [callIn "UserPromptSubmit" [("prompt", .str "hi"), ("turn_id", .str "t2")]]) = some t ∧
      ¬Laws t.log := by
  refine ⟨_, rfl, fun laws => ?_⟩
  have kept := laws.correlation _ (List.mem_of_getElem? (i := 2) rfl) "t1" (by decide +kernel)
  exact absurd kept (by decide +kernel)

end HookTurn
