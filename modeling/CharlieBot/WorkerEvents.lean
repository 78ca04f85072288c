import CharlieBot.Lib.Attempt
import CharlieBot.Lib.Records
import CharlieBot.Lib.Transition
import CharlieBot.Lib.Lines
import CharlieBot.MessageAggregator

/-!
# A worker's events, polled

The panel of a running worker reads the worker's log every few seconds. What
was projected is kept, with the offset it was read up to, and a poll projects
the lines behind it into the same list. The projection may raise, on a block
that is not what it is taken for, and what it added before it raised stays in
the list while the offset does not move.

A poll therefore returns the projection of the whole log **exactly where every
event in it is one the projection can render** (`polls_iff`), however the log
was cut by the polls before. A user event whose content is a text is none, and
where one is in the log each poll adds the rows in front of it once more
(`rows_duplicated`).
-/

/-! ## Rows -/

/-- What is read off a value of a row that is no text: what the row's validation
takes for a number, a flag and a time. -/
structure FieldParsers (τ : Type) where
  int : Json → Option ℤ
  bool : Json → Option Bool
  timestamp : Json → Option τ
  bool_true : bool (.bool true) = some true

/-- **A row of the panel.** -/
structure WorkerEvent (τ : Type) where
  type : String
  content : Option String := none
  path : Option String := none
  linesAdded : Option ℤ := none
  message : Option String := none
  status : Option String := none
  toolName : Option String := none
  input : Option Dict := none
  /-- The content was cut. -/
  outputTruncated : Option Bool := none
  /-- Its time; without one of its own it has the time it was projected at. -/
  timestamp : Option τ := none

/-- A field that may be missing, or be none. -/
def optionalValue {α : Type} (parse : Json → Option α) : Option Json → Option (Option α)
  | none => some none
  | some .null => some none
  | some value => (parse value).map some

def toolOutputRenderCap : ℕ := 20000

def renderCapped (text : String) : String := String.ofList (text.toList.take toolOutputRenderCap)

namespace WorkerEvent

/-- `WorkerEvent.model_fields`. -/
def modelFields : List String := ["type", "content", "path", "lines_added", "message", "status",
  "tool_name", "input", "output_truncated", "timestamp"]

variable {τ : Type}

/-- `WorkerEvent(**fields)`: nothing where a field is not what it should be. -/
def validate (p : FieldParsers τ) (fields : Dict) : Option (WorkerEvent τ) := do
  let type ← (fields.item "type").bind Json.asText
  let content ← optionalValue Json.asText (fields.item "content")
  let path ← optionalValue Json.asText (fields.item "path")
  let linesAdded ← optionalValue p.int (fields.item "lines_added")
  let message ← optionalValue Json.asText (fields.item "message")
  let status ← optionalValue Json.asText (fields.item "status")
  let toolName ← optionalValue Json.asText (fields.item "tool_name")
  let input ← optionalValue Json.asDict (fields.item "input")
  let outputTruncated ← optionalValue p.bool (fields.item "output_truncated")
  let timestamp ← match fields.item "timestamp" with
    | none => some none
    | some value => (p.timestamp value).map some
  return { type, content, path, linesAdded, message, status, toolName, input, outputTruncated,
           timestamp }

/-- The row of an event that is none. -/
def raw (data : Dict) : WorkerEvent τ := { type := "raw", content := some (Json.obj data).toText }

/-- A tool's output is cut, in a row of its own. -/
def capped (row : WorkerEvent τ) : WorkerEvent τ :=
  match row.content with
  | some content =>
    if row.type = ET.toolResult ∧ toolOutputRenderCap < content.toList.length then
      { row with content := some (renderCapped content), outputTruncated := some true }
    else row
  | none => row

end WorkerEvent

/-! ## The projection -/

/-- **What a projection builds up**: the rows, and the names of the tools. -/
structure WorkerProjection (τ : Type) where
  rows : List (WorkerEvent τ) := []
  /-- `tool_id_to_name`. -/
  toolIdToName : List (Json.Key × Json) := []

namespace WorkerProjection

open Attempt

variable {τ : Type} (p : FieldParsers τ)

/-- The event's own time, where it has one. -/
def timestampField (ev : Event) : Dict :=
  if (ev.get "timestamp").truthy then [("timestamp", ev.get "timestamp")] else []

/-- `events.append(WorkerEvent(...))`. -/
def pushRow (fields : Dict) (ev : Event) : Attempt (WorkerProjection τ) :=
  need (WorkerEvent.validate p (fields ++ timestampField ev)) fun row =>
    change fun s => { s with rows := s.rows ++ [row] }

/-- A tool use: its name is noted, and a row appended. -/
def appendToolUse (ev : Event) (block : Dict) : Attempt (WorkerProjection τ) :=
  need (block.item "name") fun name =>
    need ((block.item "id").bind Json.asKey) fun id =>
      (change fun s => { s with toolIdToName := (id, name) :: s.toolIdToName }).andThen
        (pushRow p [("type", .str ET.toolUse), ("tool_name", name),
          ("input", block.getD "input" (.obj []))] ev)

/-- A block of an assistant's message. -/
def appendAssistantBlock (ev : Event) : Json → Attempt (WorkerProjection τ)
  | .obj block => if (Dict.get block "type").isText "tool_use" then appendToolUse p ev block else skip
  | _ => skip

/-- A tool's result: a row under the name the tool was used by. -/
def appendToolResult (ev : Event) (block : Dict) : Attempt (WorkerProjection τ) :=
  need ((block.getD "tool_use_id" (.str "")).asKey) fun id =>
    need (extractToolResultText block) fun resultText s =>
      let name := (s.toolIdToName.lookup id).getD (.str "")
      if toolOutputRenderCap < resultText.toList.length then
        pushRow p [("type", .str ET.toolResult), ("tool_name", name),
          ("content", .str (renderCapped resultText)), ("output_truncated", .bool true)] ev s
      else
        pushRow p [("type", .str ET.toolResult), ("tool_name", name), ("content", .str resultText),
          ("output_truncated", .null)] ev s

/-- A block of a user's message; what is no dict cannot be asked for its type. -/
def appendUserBlock (ev : Event) : Json → Attempt (WorkerProjection τ)
  | .obj block =>
    if (Dict.get block "type").isText "tool_result" then appendToolResult p ev block else skip
  | _ => fail

def appendAssistant (ev : Event) (message : Dict) : Attempt (WorkerProjection τ) :=
  need (extractTextFromMessage message) fun text =>
    (if text = "" then skip
      else pushRow p [("type", .str ET.assistant), ("content", .str text)] ev).andThen
      (need (message.getD "content" (.arr [])).iter (forEach (appendAssistantBlock p ev)))

/-- Any other event: its own fields are a row, or its text is. -/
def appendOther (ev : Event) : Attempt (WorkerProjection τ) :=
  let row := (WorkerEvent.validate p
    (ev.filter fun field => WorkerEvent.modelFields.contains field.1)).getD (.raw ev)
  change fun s => { s with rows := s.rows ++ [row.capped] }

/-- `_append_worker_events`, one event. -/
def appendWorkerEvent : Json → Attempt (WorkerProjection τ)
  | .obj ev =>
    match (Dict.get ev "message").asDict with
    | some message =>
      if Event.hasType ev ET.assistant then appendAssistant p ev message
      else if Event.hasType ev ET.user then
        need (message.getD "content" (.arr [])).iter (forEach (appendUserBlock p ev))
      else appendOther p ev
    | none => appendOther p ev
  | _ => fail

def appendWorkerEvents (rawEvents : List Json) : Attempt (WorkerProjection τ) :=
  forEach (appendWorkerEvent p) rawEvents

/-! ## Which events can be rendered -/

def TimestampOk (ev : Event) : Prop :=
  (ev.get "timestamp").truthy = true → (p.timestamp (ev.get "timestamp")).isSome = true

/-- What may stand for a tool's name. -/
def NameOk (name : Json) : Prop := ∃ text, name = .str text ∨ name = .null

/-- A block of an assistant's message that is a tool use has a name, an id that can
be looked up, and a dict as its input. -/
def AssistantBlockOk (ev : Event) (block : Json) : Prop :=
  ∀ b : Dict, block = .obj b → (b.get "type").isText "tool_use" = true →
    (∃ name, b.item "name" = some name ∧ NameOk name)
      ∧ ((b.item "id").bind Json.asKey).isSome = true
      ∧ (∃ fields, b.getD "input" (.obj []) = .obj fields ∨ b.getD "input" (.obj []) = .null)
      ∧ TimestampOk p ev

/-- A block of a user's message is a dict, and a result has an id that can be looked
up, and a text. -/
def UserBlockOk (ev : Event) (block : Json) : Prop :=
  ∃ b : Dict, block = .obj b ∧ ((b.get "type").isText "tool_result" = true →
    ((b.getD "tool_use_id" (.str "")).asKey).isSome = true
      ∧ (extractToolResultText b).isSome = true ∧ TimestampOk p ev)

/-- **An event that can be rendered.** -/
def Renderable (data : Json) : Prop :=
  ∃ ev : Event, data = .obj ev ∧ ∀ message, (ev.get "message").asDict = some message →
    if ev.hasType ET.assistant then
      (∃ text, extractTextFromMessage message = some text ∧ (text ≠ "" → TimestampOk p ev))
        ∧ ∃ blocks, (message.getD "content" (.arr [])).iter = some blocks
          ∧ ∀ block ∈ blocks, AssistantBlockOk p ev block
    else if ev.hasType ET.user then
      ∃ blocks, (message.getD "content" (.arr [])).iter = some blocks
        ∧ ∀ block ∈ blocks, UserBlockOk p ev block
    else True

/-! ### Rows that validate -/

/-- Every name that was noted may stand for one. -/
def NamesOk (s : WorkerProjection τ) : Prop := ∀ n ∈ s.toolIdToName, NameOk n.2

theorem isSome_validate_text (ev : Event) (text : String) :
    (WorkerEvent.validate p ([("type", .str ET.assistant), ("content", .str text)]
      ++ timestampField ev)).isSome = true ↔ TimestampOk p ev := by
  unfold timestampField TimestampOk
  by_cases hts : (Dict.get ev "timestamp").truthy = true
  · cases hparse : p.timestamp (Dict.get ev "timestamp") <;>
      simp [hts, hparse, WorkerEvent.validate, Dict.item, List.lookup_cons, optionalValue,
        Json.asText]
  · simp [hts, WorkerEvent.validate, Dict.item, List.lookup_cons, optionalValue, Json.asText]

theorem isSome_validate_toolUse (ev : Event) (name input : Json) :
    (WorkerEvent.validate p ([("type", .str ET.toolUse), ("tool_name", name), ("input", input)]
      ++ timestampField ev)).isSome = true ↔
      NameOk name ∧ (∃ fields, input = .obj fields ∨ input = .null) ∧ TimestampOk p ev := by
  have hname : (optionalValue Json.asText (some name)).isSome = true ↔ NameOk name := by
    cases name <;> simp [optionalValue, Json.asText, NameOk]
  have hinput : (optionalValue Json.asDict (some input)).isSome = true
      ↔ ∃ fields, input = .obj fields ∨ input = .null := by
    cases input <;> simp [optionalValue, Json.asDict]
  rw [← hname, ← hinput]
  unfold timestampField TimestampOk
  by_cases hts : (Dict.get ev "timestamp").truthy = true
  · cases hparse : p.timestamp (Dict.get ev "timestamp") <;>
      cases hn : optionalValue Json.asText (some name) <;>
      cases hi : optionalValue Json.asDict (some input) <;>
      simp [hts, hparse, hn, hi, WorkerEvent.validate, Dict.item, List.lookup_cons, Json.asText] <;>
      simp [optionalValue]
  · cases hn : optionalValue Json.asText (some name) <;>
      cases hi : optionalValue Json.asDict (some input) <;>
      simp [hts, hn, hi, WorkerEvent.validate, Dict.item, List.lookup_cons, Json.asText] <;>
      simp [optionalValue]

theorem isSome_validate_toolResult (ev : Event) (name : Json) (text : String) {flag : Json}
    (hflag : flag = .bool true ∨ flag = .null) :
    (WorkerEvent.validate p ([("type", .str ET.toolResult), ("tool_name", name),
      ("content", .str text), ("output_truncated", flag)] ++ timestampField ev)).isSome = true ↔
      NameOk name ∧ TimestampOk p ev := by
  have hname : (optionalValue Json.asText (some name)).isSome = true ↔ NameOk name := by
    cases name <;> simp [optionalValue, Json.asText, NameOk]
  have hvalid : ∃ truncated, optionalValue p.bool (some flag) = some truncated := by
    rcases hflag with rfl | rfl
    · exact ⟨some true, by simp [optionalValue, p.bool_true]⟩
    · exact ⟨none, rfl⟩
  obtain ⟨truncated, hvalid⟩ := hvalid
  rw [← hname]
  unfold timestampField TimestampOk
  by_cases hts : (Dict.get ev "timestamp").truthy = true
  · cases hparse : p.timestamp (Dict.get ev "timestamp") <;>
      cases hn : optionalValue Json.asText (some name) <;>
      simp [hts, hparse, hn, hvalid, WorkerEvent.validate, Dict.item, List.lookup_cons, Json.asText] <;>
      simp [optionalValue, Json.asText]
  · cases hn : optionalValue Json.asText (some name) <;>
      simp [hts, hn, hvalid, WorkerEvent.validate, Dict.item, List.lookup_cons, Json.asText] <;>
      simp [optionalValue, Json.asText]

/-! ### Steps -/

section Steps

variable {p}

theorem pushRow_keeps {fields : Dict} {ev : Event}
    (h : (WorkerEvent.validate p (fields ++ timestampField ev)).isSome = true) :
    Keeps NamesOk (pushRow p fields ev) := by
  obtain ⟨row, hrow⟩ := Option.isSome_iff_exists.mp h
  unfold pushRow
  rw [hrow]
  exact Keeps.change fun _ hs => hs

theorem pushRow_fails {fields : Dict} {ev : Event}
    (h : ¬(WorkerEvent.validate p (fields ++ timestampField ev)).isSome = true) :
    Fails (pushRow p fields ev) := by
  rw [Option.not_isSome_iff_eq_none] at h
  unfold pushRow
  rw [h]
  exact Fails.fail

theorem appendAssistantBlock_keeps {ev : Event} {block : Json}
    (h : AssistantBlockOk p ev block) : Keeps NamesOk (appendAssistantBlock p ev block) := by
  unfold appendAssistantBlock
  split
  · next b =>
    split
    · next htool =>
      obtain ⟨⟨name, hname, hok⟩, hid, hinput, htime⟩ := h b rfl htool
      obtain ⟨id, hid⟩ := Option.isSome_iff_exists.mp hid
      rw [appendToolUse, hname, hid, need_some, need_some]
      refine (Keeps.change fun s hs n hn => ?_).andThen
        (pushRow_keeps ((isSome_validate_toolUse p ev name _).mpr ⟨hok, hinput, htime⟩))
      rcases List.mem_cons.mp hn with rfl | hn
      · exact hok
      · exact hs n hn
    · exact Keeps.skip
  · exact Keeps.skip

theorem appendAssistantBlock_fails {ev : Event} {block : Json}
    (h : ¬AssistantBlockOk p ev block) : Fails (appendAssistantBlock p ev block) := by
  simp only [AssistantBlockOk, not_forall] at h
  obtain ⟨b, rfl, htool, hbad⟩ := h
  rw [appendAssistantBlock, if_pos htool, appendToolUse]
  cases hname : Dict.item b "name" with
  | none => exact Fails.fail
  | some name =>
    cases hid : (Dict.item b "id").bind Json.asKey with
    | none => exact Fails.fail
    | some id =>
      rw [need_some, need_some]
      refine Fails.andThen_right (pushRow_fails fun hvalid => hbad ?_)
      obtain ⟨hok, hinput, htime⟩ := (isSome_validate_toolUse p ev name _).mp hvalid
      exact ⟨⟨name, hname, hok⟩, by rw [hid]; rfl, hinput, htime⟩

theorem appendUserBlock_keeps {ev : Event} {block : Json} (h : UserBlockOk p ev block) :
    Keeps NamesOk (appendUserBlock p ev block) := by
  obtain ⟨b, rfl, hresult⟩ := h
  rw [appendUserBlock]
  split
  · next htool =>
    obtain ⟨hid, htext, htime⟩ := hresult htool
    obtain ⟨id, hid⟩ := Option.isSome_iff_exists.mp hid
    obtain ⟨text, htext⟩ := Option.isSome_iff_exists.mp htext
    rw [appendToolResult, hid, htext, need_some, need_some]
    intro s hs
    have hname : NameOk ((s.toolIdToName.lookup id).getD (.str "")) := by
      cases hlook : s.toolIdToName.lookup id with
      | none => exact ⟨"", Or.inl rfl⟩
      | some name =>
        obtain ⟨before, behind, hsplit, -⟩ := List.lookup_eq_some_iff.mp hlook
        exact hs (id, name) (by rw [hsplit]; simp)
    dsimp only
    split
    · exact pushRow_keeps
        ((isSome_validate_toolResult p ev _ _ (Or.inl rfl)).mpr ⟨hname, htime⟩) s hs
    · exact pushRow_keeps
        ((isSome_validate_toolResult p ev _ _ (Or.inr rfl)).mpr ⟨hname, htime⟩) s hs
  · exact Keeps.skip

theorem appendUserBlock_fails {ev : Event} {block : Json} (h : ¬UserBlockOk p ev block) :
    Fails (appendUserBlock p ev block) := by
  unfold appendUserBlock
  split
  · next b =>
    split
    · next htool =>
      rw [appendToolResult]
      cases hid : (Dict.getD b "tool_use_id" (.str "")).asKey with
      | none => exact Fails.fail
      | some id =>
        cases htext : extractToolResultText b with
        | none => exact Fails.fail
        | some text =>
          have hbad : ¬TimestampOk p ev := fun htime => h ⟨b, rfl, fun _ =>
            ⟨by rw [hid]; rfl, by rw [htext]; rfl, htime⟩⟩
          intro s
          rw [need_some, need_some]
          dsimp only
          split
          · exact pushRow_fails (fun hvalid =>
              hbad ((isSome_validate_toolResult p ev _ _ (Or.inl rfl)).mp hvalid).2) s
          · exact pushRow_fails (fun hvalid =>
              hbad ((isSome_validate_toolResult p ev _ _ (Or.inr rfl)).mp hvalid).2) s
    · next htool => exact absurd ⟨b, rfl, fun h => absurd h htool⟩ h
  · exact Fails.fail

theorem appendOther_keeps (ev : Event) : Keeps NamesOk (appendOther p ev) :=
  Keeps.change fun _ hs => hs

theorem appendWorkerEvent_keeps {data : Json} (h : Renderable p data) :
    Keeps NamesOk (appendWorkerEvent p data) := by
  obtain ⟨ev, rfl, hmessage⟩ := h
  unfold appendWorkerEvent
  dsimp only
  split
  · next message hsome =>
    have hrest := hmessage message hsome
    split
    · next hassistant =>
      rw [if_pos hassistant] at hrest
      obtain ⟨⟨text, htext, htime⟩, blocks, hblocks, hok⟩ := hrest
      unfold appendAssistant
      rw [htext, hblocks]
      refine Keeps.andThen ?_ (Keeps.forEach fun block hblock =>
        appendAssistantBlock_keeps (hok block hblock))
      split
      · exact Keeps.skip
      · next hne => exact pushRow_keeps ((isSome_validate_text p ev text).mpr (htime hne))
    · next hassistant =>
      rw [if_neg hassistant] at hrest
      split
      · next huser =>
        rw [if_pos huser] at hrest
        obtain ⟨blocks, hblocks, hok⟩ := hrest
        rw [hblocks]
        exact Keeps.forEach fun block hblock => appendUserBlock_keeps (hok block hblock)
      · exact appendOther_keeps ev
  · exact appendOther_keeps ev

/-- **What cannot be rendered raises**, whatever came before. -/
theorem appendWorkerEvent_fails {data : Json} (h : ¬Renderable p data) :
    Fails (appendWorkerEvent p data) := by
  unfold appendWorkerEvent
  split
  · next ev =>
    split
    · next message hsome =>
      split
      · next hassistant =>
        unfold appendAssistant
        cases htext : extractTextFromMessage message with
        | none => exact Fails.fail
        | some text =>
          by_cases htime : text ≠ "" → TimestampOk p ev
          · refine Fails.andThen_right ?_
            cases hblocks : (Dict.getD message "content" (.arr [])).iter with
            | none => exact Fails.fail
            | some blocks =>
              have hbad : ∃ block ∈ blocks, ¬AssistantBlockOk p ev block := by
                by_contra hnone
                push Not at hnone
                refine h ⟨ev, rfl, fun other hother => ?_⟩
                rw [hsome] at hother
                cases hother
                rw [if_pos hassistant]
                exact ⟨⟨text, htext, htime⟩, blocks, hblocks, hnone⟩
              obtain ⟨block, hmem, hbad⟩ := hbad
              exact Fails.forEach_of_mem hmem (appendAssistantBlock_fails hbad)
          · rw [Classical.not_imp] at htime
            refine Fails.andThen_left ?_
            rw [if_neg htime.1]
            exact pushRow_fails fun hvalid => htime.2 ((isSome_validate_text p ev text).mp hvalid)
      · next hassistant =>
        split
        · next huser =>
          cases hblocks : (Dict.getD message "content" (.arr [])).iter with
          | none => exact Fails.fail
          | some blocks =>
            have hbad : ∃ block ∈ blocks, ¬UserBlockOk p ev block := by
              by_contra hnone
              push Not at hnone
              refine h ⟨ev, rfl, fun other hother => ?_⟩
              rw [hsome] at hother
              cases hother
              rw [if_neg hassistant, if_pos huser]
              exact ⟨blocks, hblocks, hnone⟩
            obtain ⟨block, hmem, hbad⟩ := hbad
            exact Fails.forEach_of_mem hmem (appendUserBlock_fails hbad)
        · next huser =>
          refine absurd ⟨ev, rfl, fun other _ => ?_⟩ h
          rw [if_neg hassistant, if_neg huser]
          trivial
    · next hnone =>
      refine absurd ⟨ev, rfl, fun other hother => ?_⟩ h
      rw [hnone] at hother
      cases hother
  · exact Fails.fail

end Steps

end WorkerProjection

/-! ## Polls -/

/-- `bytes.isspace`, for one byte. -/
def isSpaceByte (b : UInt8) : Bool := [9, 10, 11, 12, 13, 32].contains b

/-- `parse_ndjson_line`, over what reads a line: blank lines are passed over, and so
is a line that reads as none. -/
def parseNdjsonLine (loads : List UInt8 → Option Json) (line : List UInt8) : Option Json :=
  if line.all isSpaceByte then none else (loads line).filter (!·.isNone)

/-- **What is kept of a worker's log.** -/
structure ThreadEventsCacheEntry (τ : Type) where
  projection : WorkerProjection τ := {}
  /-- How far the log was read. -/
  offset : ℕ := 0

/-- A worker's log, and what is kept of it. -/
structure WorkerPanel (τ : Type) where
  file : Option (List UInt8) := none
  entry : Option (ThreadEventsCacheEntry τ) := none

inductive WorkerPanelAction where
  /-- The worker writes; the cut may fall into a line. -/
  | append (bytes : List UInt8)
  /-- `read_thread_worker_events`. -/
  | poll
  /-- Other logs push the entry out. -/
  | evict

namespace WorkerPanel

open WorkerProjection

variable {τ : Type} (p : FieldParsers τ) (loads : List UInt8 → Option Json)

/-- The events of the complete lines of a log. -/
def eventsOf (bytes : List UInt8) : List Json :=
  (records lineFeed bytes).1.filterMap (parseNdjsonLine loads)

/-- `read_thread_worker_events`: the rows, or nothing where it raises. -/
def readThreadWorkerEvents (s : WorkerPanel τ) : WorkerPanel τ × Option (List (WorkerEvent τ)) :=
  match s.file with
  | none => ({ s with entry := none }, some [])
  | some bytes =>
    let kept := s.entry.filter fun entry => entry.offset ≤ bytes.length
    let entry := kept.getD {}
    let window := bytes.drop entry.offset
    let cut := records lineFeed window
    let completeEnd := window.length - cut.2.length
    if completeEnd = 0 then ({ s with entry := some entry }, some entry.projection.rows)
    else
      -- the split leaves an empty piece behind the last line
      let rawEvents := (cut.1 ++ [[]]).filterMap (parseNdjsonLine loads)
      let result := appendWorkerEvents p rawEvents entry.projection
      if result.2 then
        -- the rows were added to the object that is kept
        ({ s with
            entry := if kept.isSome then some { entry with projection := result.1 } else s.entry },
          none)
      else
        ({ s with entry := some ⟨result.1, entry.offset + completeEnd⟩ }, some result.1.rows)

/-- `read_thread_worker_events_memo_hit`. -/
def memoHit (s : WorkerPanel τ) : Option (List (WorkerEvent τ)) :=
  match s.entry, s.file with
  | some entry, some bytes =>
    if bytes.length = entry.offset then some entry.projection.rows else none
  | _, _ => none

def step (s : WorkerPanel τ) : WorkerPanelAction → Option (WorkerPanel τ)
  | .append bytes => some { s with file := some (s.file.getD [] ++ bytes) }
  | .poll => some (s.readThreadWorkerEvents p loads).1
  | .evict => some { s with entry := none }

def system : TransitionSystem (WorkerPanel τ) WorkerPanelAction := ⟨step p loads⟩

def present (s : WorkerPanel τ) : List Json := eventsOf loads (s.file.getD [])

/-- The rows of all of them, projected at once. -/
def oneShot (s : WorkerPanel τ) : List (WorkerEvent τ) :=
  (appendWorkerEvents p (s.present loads) {}).1.rows

/-- **A poll is the projection of the log**: it returns the rows of all its events,
and so does a poll that needs not read; and what raises leaves the entry as it was. -/
def PollsProjection (s : WorkerPanel τ) : Prop :=
  (s.readThreadWorkerEvents p loads).2 = some (s.oneShot p loads)
    ∧ (∀ rows, s.memoHit = some rows → rows = s.oneShot p loads)
    ∧ ((s.readThreadWorkerEvents p loads).2 = none →
        (s.readThreadWorkerEvents p loads).1.entry = s.entry)

/-! ### The entry -/

/-- **What holds of an entry**: it was read up to the end of a line, what it was read
over can be rendered, and where all that is in the log can, it is the projection of
what it was read over. -/
structure EntryInv (bytes : List UInt8) (entry : ThreadEventsCacheEntry τ)
    (lines : List (List UInt8)) : Prop where
  ended : ∀ line ∈ lines, lineFeed ∉ line
  offset : entry.offset = (joinRecords lineFeed lines).length
  isPrefix : joinRecords lineFeed lines <+: bytes
  rendered : ∀ data ∈ lines.filterMap (parseNdjsonLine loads), Renderable p data
  clean : (∀ data ∈ eventsOf loads bytes, Renderable p data) →
    appendWorkerEvents p (lines.filterMap (parseNdjsonLine loads)) {}
      = (entry.projection, false)

/-- What holds of a log and its entry. -/
def Inv (s : WorkerPanel τ) : Prop :=
  ∀ entry, s.entry = some entry → ∃ bytes lines, s.file = some bytes
    ∧ EntryInv p loads bytes entry lines

variable {p loads} {bytes : List UInt8} {entry : ThreadEventsCacheEntry τ}
  {lines : List (List UInt8)}

theorem EntryInv.fresh : EntryInv p loads bytes {} [] where
  ended line hline := by cases hline
  offset := rfl
  isPrefix := List.nil_prefix
  rendered data hdata := by cases hdata
  clean _ := rfl

theorem EntryInv.eq_append (h : EntryInv p loads bytes entry lines) :
    bytes = joinRecords lineFeed lines ++ bytes.drop entry.offset := by
  obtain ⟨rest, rfl⟩ := h.isPrefix
  rw [h.offset, List.drop_left]

theorem EntryInv.records_eq (h : EntryInv p loads bytes entry lines) :
    (records lineFeed bytes).1 = lines ++ (records lineFeed (bytes.drop entry.offset)).1 := by
  have hcut := records_of_join h.ended (List.not_mem_nil (a := lineFeed))
  rw [List.append_nil] at hcut
  conv_lhs => rw [h.eq_append]
  rw [records_append, hcut, List.nil_append]

theorem EntryInv.eventsOf_eq (h : EntryInv p loads bytes entry lines) :
    eventsOf loads bytes = lines.filterMap (parseNdjsonLine loads)
      ++ eventsOf loads (bytes.drop entry.offset) := by
  rw [eventsOf, h.records_eq, List.filterMap_append]
  rfl

theorem EntryInv.append (h : EntryInv p loads bytes entry lines) (more : List UInt8) :
    EntryInv p loads (bytes ++ more) entry lines where
  ended := h.ended
  offset := h.offset
  isPrefix := h.isPrefix.trans (List.prefix_append _ _)
  rendered := h.rendered
  clean hall := by
    refine h.clean fun data hdata => hall data ?_
    rw [eventsOf, records_append, List.filterMap_append]
    exact List.mem_append_left _ hdata

theorem EntryInv.advance (h : EntryInv p loads bytes entry lines)
    {projection : WorkerProjection τ}
    (hresult : appendWorkerEvents p (eventsOf loads (bytes.drop entry.offset)) entry.projection
      = (projection, false))
    (hrendered : ∀ data ∈ eventsOf loads (bytes.drop entry.offset), Renderable p data) :
    EntryInv p loads bytes ⟨projection, entry.offset + ((bytes.drop entry.offset).length
      - (records lineFeed (bytes.drop entry.offset)).2.length)⟩
      (lines ++ (records lineFeed (bytes.drop entry.offset)).1) := by
  have hjoin := join_records lineFeed (bytes.drop entry.offset)
  refine ⟨fun line hline => ?_, ?_, ?_, fun data hdata => ?_, fun hall => ?_⟩
  · rcases List.mem_append.mp hline with hline | hline
    · exact h.ended line hline
    · exact (notMem_records lineFeed _).1 line hline
  · rw [joinRecords_append, List.length_append, h.offset]
    have hlength := congrArg List.length hjoin
    rw [List.length_append, h.offset] at hlength
    rw [← hlength, Nat.add_sub_cancel]
  · conv_rhs => rw [h.eq_append, ← hjoin]
    rw [joinRecords_append, ← List.append_assoc]
    exact List.prefix_append _ _
  · rw [List.filterMap_append] at hdata
    rcases List.mem_append.mp hdata with hdata | hdata
    · exact h.rendered data hdata
    · exact hrendered data hdata
  · rw [List.filterMap_append, appendWorkerEvents, Attempt.forEach_append]
    have hclean := h.clean hall
    rw [appendWorkerEvents] at hclean
    rw [Attempt.andThen_of_succeeds (by rw [hclean]), hclean]
    exact hresult

/-! ### One poll -/

theorem namesOk_empty : NamesOk ({} : WorkerProjection τ) := fun n hn => by cases hn

theorem appendWorkerEvents_succeeds {rawEvents : List Json}
    (h : ∀ data ∈ rawEvents, Renderable p data) {projection : WorkerProjection τ}
    (hnames : NamesOk projection) :
    (appendWorkerEvents p rawEvents projection).2 = false
      ∧ NamesOk (appendWorkerEvents p rawEvents projection).1 :=
  Attempt.Keeps.forEach (fun data hdata => appendWorkerEvent_keeps (h data hdata)) projection hnames

theorem renderable_of_succeeds {rawEvents : List Json} {projection : WorkerProjection τ}
    (h : (appendWorkerEvents p rawEvents projection).2 = false) :
    ∀ data ∈ rawEvents, Renderable p data := by
  intro data hdata
  by_contra hbad
  have hfails := Attempt.Fails.forEach_of_mem hdata (appendWorkerEvent_fails hbad) projection
  rw [appendWorkerEvents] at h
  rw [h] at hfails
  cases hfails

theorem filterMap_pieces (window : List UInt8) :
    ((records lineFeed window).1 ++ [[]]).filterMap (parseNdjsonLine loads)
      = eventsOf loads window := by
  rw [List.filterMap_append]
  exact List.append_nil _

theorem eventsOf_eq_nil {window : List UInt8}
    (h : window.length - (records lineFeed window).2.length = 0) : eventsOf loads window = [] := by
  have hlength := congrArg List.length (join_records lineFeed window)
  rw [List.length_append] at hlength
  have hzero : (joinRecords lineFeed (records lineFeed window).1).length = 0 := by omega
  cases hlines : (records lineFeed window).1 with
  | nil =>
    rw [eventsOf, hlines]
    rfl
  | cons line lines =>
    rw [hlines, joinRecords_cons, List.length_append, List.length_append] at hzero
    simp at hzero

theorem Inv.kept {s : WorkerPanel τ} (h : s.Inv p loads) (hfile : s.file = some bytes) :
    ∃ lines, EntryInv p loads bytes
      ((s.entry.filter fun entry => entry.offset ≤ bytes.length).getD {}) lines := by
  cases hentry : s.entry with
  | none => exact ⟨[], EntryInv.fresh⟩
  | some entry =>
    obtain ⟨bytes', lines, hfile', hinv⟩ := h entry hentry
    rw [hfile, Option.some_inj] at hfile'
    subst hfile'
    have hle : entry.offset ≤ bytes.length := by
      rw [hinv.offset]
      exact hinv.isPrefix.length_le
    refine ⟨lines, ?_⟩
    rw [Option.filter_some, if_pos (by simpa using hle)]
    exact hinv

theorem Inv.poll {s : WorkerPanel τ} (h : s.Inv p loads) :
    (s.readThreadWorkerEvents p loads).1.Inv p loads := by
  unfold readThreadWorkerEvents
  split
  · intro entry hentry
    cases hentry
  · next bytes hfile =>
    obtain ⟨lines, hinv⟩ := h.kept hfile
    dsimp only
    generalize hentry : (s.entry.filter fun entry => entry.offset ≤ bytes.length).getD {}
      = entry at hinv ⊢
    split
    · intro kept hkept
      cases hkept
      exact ⟨bytes, lines, hfile, hinv⟩
    · rw [filterMap_pieces]
      split
      · next hfails =>
        intro kept hkept
        split at hkept
        · cases hkept
          refine ⟨bytes, lines, hfile, hinv.ended, hinv.offset, hinv.isPrefix, hinv.rendered,
            fun hall => ?_⟩
          -- it raised: not all that is in the log can be rendered
          have hclean := hinv.clean hall
          rw [hinv.eventsOf_eq] at hall
          have hnames := (appendWorkerEvents_succeeds
            (fun data hdata => hall data (List.mem_append_left _ hdata)) namesOk_empty).2
          rw [hclean] at hnames
          have hsucceeds := (appendWorkerEvents_succeeds
            (fun data hdata => hall data (List.mem_append_right _ hdata)) hnames).1
          rw [hsucceeds] at hfails
          cases hfails
        · exact h kept hkept
      · next hsucceeds =>
        intro kept hkept
        cases hkept
        have hsucceeds := eq_false_of_ne_true hsucceeds
        exact ⟨bytes, _, hfile, hinv.advance (Prod.ext rfl hsucceeds)
          (renderable_of_succeeds hsucceeds)⟩

theorem Inv.step {s t : WorkerPanel τ} {a : WorkerPanelAction} (h : s.Inv p loads)
    (hstep : WorkerPanel.step p loads s a = some t) : t.Inv p loads := by
  cases a with
  | append more =>
    cases hstep
    intro entry hentry
    obtain ⟨bytes, lines, hfile, hinv⟩ := h entry hentry
    refine ⟨bytes ++ more, lines, ?_, hinv.append more⟩
    dsimp only
    rw [hfile]
    rfl
  | poll =>
    cases hstep
    exact h.poll
  | evict =>
    cases hstep
    intro entry hentry
    cases hentry

theorem Inv.poll_eq {s : WorkerPanel τ} (h : s.Inv p loads)
    (hall : ∀ data ∈ s.present loads, Renderable p data) :
    (s.readThreadWorkerEvents p loads).2 = some (s.oneShot p loads) := by
  unfold readThreadWorkerEvents
  unfold oneShot
  unfold present at hall ⊢
  split
  · next hfile =>
    rw [hfile]
    rfl
  · next bytes hfile =>
    rw [hfile, Option.getD_some] at hall ⊢
    obtain ⟨lines, hinv⟩ := h.kept hfile
    dsimp only
    generalize (s.entry.filter fun entry => entry.offset ≤ bytes.length).getD {} = entry at hinv ⊢
    have hclean := hinv.clean hall
    -- the projection of the log is that of what was read, and on it that of the window
    have hwhole : appendWorkerEvents p (eventsOf loads bytes) {}
        = appendWorkerEvents p (eventsOf loads (bytes.drop entry.offset)) entry.projection := by
      rw [hinv.eventsOf_eq, appendWorkerEvents, Attempt.forEach_append]
      rw [appendWorkerEvents] at hclean
      rw [Attempt.andThen_of_succeeds (by rw [hclean]), hclean]
      rfl
    have hsucceeds := (appendWorkerEvents_succeeds hall namesOk_empty).1
    rw [hwhole] at hsucceeds ⊢
    split
    · next hnone =>
      rw [eventsOf_eq_nil hnone]
      rfl
    · rw [filterMap_pieces, if_neg (by rw [hsucceeds]; exact Bool.false_ne_true)]

theorem Inv.renderable_of_poll {s : WorkerPanel τ} (h : s.Inv p loads)
    {rows : List (WorkerEvent τ)} (hrows : (s.readThreadWorkerEvents p loads).2 = some rows) :
    ∀ data ∈ s.present loads, Renderable p data := by
  unfold present
  cases hfile : s.file with
  | none =>
    intro data hdata
    cases hdata
  | some bytes =>
    obtain ⟨lines, hinv⟩ := h.kept hfile
    unfold readThreadWorkerEvents at hrows
    rw [hfile] at hrows
    dsimp only at hrows
    rw [Option.getD_some]
    generalize (s.entry.filter fun entry => entry.offset ≤ bytes.length).getD {} = entry
      at hinv hrows
    rw [hinv.eventsOf_eq]
    refine List.forall_mem_append.mpr ⟨hinv.rendered, ?_⟩
    split at hrows
    · next hnone =>
      rw [eventsOf_eq_nil hnone]
      exact fun data hdata => by cases hdata
    · rw [filterMap_pieces] at hrows
      split at hrows
      · cases hrows
      · next hsucceeds => exact renderable_of_succeeds (eq_false_of_ne_true hsucceeds)

theorem Inv.memoHit_eq {s : WorkerPanel τ} (h : s.Inv p loads)
    (hall : ∀ data ∈ s.present loads, Renderable p data) {rows : List (WorkerEvent τ)}
    (hrows : s.memoHit = some rows) : rows = s.oneShot p loads := by
  unfold memoHit at hrows
  split at hrows
  · next entry bytes hentry hfile =>
    split at hrows
    · next hlength =>
      cases hrows
      obtain ⟨bytes', lines, hfile', hinv⟩ := h entry hentry
      rw [hfile, Option.some_inj] at hfile'
      subst hfile'
      unfold present at hall
      rw [hfile, Option.getD_some] at hall
      have hwindow : eventsOf loads (bytes.drop entry.offset) = [] := by
        rw [← hlength, List.drop_length]
        rfl
      have hclean := hinv.clean hall
      rw [oneShot, present, hfile, Option.getD_some, hinv.eventsOf_eq, hwindow, List.append_nil,
        hclean]
    · cases hrows
  · cases hrows

/-- **A poll is the projection of the log exactly where every event in the log can
be rendered**, after any number of appends, polls and evictions. -/
theorem polls_iff {as : List WorkerPanelAction} {s : WorkerPanel τ}
    (hrun : (system p loads).run {} as = some s) :
    s.PollsProjection p loads ↔ ∀ data ∈ s.present loads, Renderable p data := by
  have hinv : s.Inv p loads := (system p loads).run_invariant
    (fun _ _ _ h hstep => h.step hstep) (fun entry hentry => by cases hentry) as hrun
  constructor
  · intro h
    exact hinv.renderable_of_poll h.1
  · intro hall
    refine ⟨hinv.poll_eq hall, fun rows hrows => hinv.memoHit_eq hall hrows, fun hnone => ?_⟩
    rw [hinv.poll_eq hall] at hnone
    cases hnone

def asciiBytes (text : String) : List UInt8 := text.toList.map fun c => UInt8.ofNat c.toNat

/-- A user event whose content is a text. -/
def userLine : List UInt8 :=
  asciiBytes "\x7b\"type\":\"user\",\"message\":\x7b\"content\":\"hi\"\x7d\x7d"

def emptyLine : List UInt8 := asciiBytes "\x7b\x7d"

/-- What reads these two lines. -/
def loadsTwo (line : List UInt8) : Option Json :=
  if line = userLine then
    some (.obj [("type", .str "user"), ("message", .obj [("content", .str "hi")])])
  else if line = emptyLine then some (.obj [])
  else none

/-- What reads integers and flags; there are no times. -/
def parsers : FieldParsers ℕ := ⟨Json.asInt, fun
  | .bool b => some b
  | _ => none, fun _ => none, rfl⟩

/-- Two events, the second cut by a poll. -/
theorem polls_iff_two : ∃ s, (system parsers loadsTwo).run {} [.append (emptyLine ++ [10]), .poll,
      .append emptyLine, .poll] = some s
    ∧ s.PollsProjection parsers loadsTwo := by
  refine ⟨_, rfl, (@polls_iff _ _ _ [.append (emptyLine ++ [10]), .poll,
      .append emptyLine, .poll] _ rfl).mpr fun data hdata => ?_⟩
  have hpresent : ∀ data ∈ eventsOf loadsTwo (emptyLine ++ [10] ++ emptyLine), data = .obj [] := by
    intro data hdata
    have h : eventsOf loadsTwo (emptyLine ++ [10] ++ emptyLine) = [.obj []] := by rfl
    rw [h] at hdata
    exact List.mem_singleton.mp hdata
  rw [hpresent data hdata]
  exact ⟨[], rfl, fun message hmessage => by cases hmessage⟩

/-- **Rows are duplicated.** A user event whose content is a text makes every poll
raise, and every one of them adds the rows in front of it to what is kept. -/
theorem rows_duplicated : ∃ s, (system parsers loadsTwo).run {} [.append (emptyLine ++ [10]), .poll,
      .append (emptyLine ++ [10] ++ userLine ++ [10]), .poll] = some s
    ∧ (s.entry.map fun entry => entry.projection.rows.length) = some 2
    ∧ (s.readThreadWorkerEvents parsers loadsTwo).2 = none
    ∧ ((s.readThreadWorkerEvents parsers loadsTwo).1.entry.map
        fun entry => entry.projection.rows.length) = some 3
    ∧ ¬s.PollsProjection parsers loadsTwo := by
  have hrun : ((system parsers loadsTwo).run {} [.append (emptyLine ++ [10]), .poll,
        .append (emptyLine ++ [10] ++ userLine ++ [10]), .poll]).map (fun s =>
      (s.entry.map fun entry => entry.projection.rows.length,
        (s.readThreadWorkerEvents parsers loadsTwo).2.isNone,
        (s.readThreadWorkerEvents parsers loadsTwo).1.entry.map
          fun entry => entry.projection.rows.length)) = some (some 2, true, some 3) := by
    decide +kernel
  obtain ⟨s, hrun, hs⟩ := Option.map_eq_some_iff.mp hrun
  rw [Prod.mk.injEq, Prod.mk.injEq] at hs
  have hnone := Option.isNone_iff_eq_none.mp hs.2.1
  refine ⟨s, hrun, hs.1, hnone, hs.2.2, fun h => ?_⟩
  rw [h.1] at hnone
  cases hnone

end WorkerPanel
