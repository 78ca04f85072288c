import CharlieBot.DraftStep

/-!
# Which call a tool's output is shown under

A tool call opens a row of the draft, and its result comes later, in an
event that names the call by its id. The aggregator does not read the id:
it stores the output on the newest row of the draft, and drops it where
the draft has none. Of calls made one after the other, each answered
before the next, that is the row of the call. Of two calls made at once
the first result goes to the second call's row, and the second result over
it; and where text that follows a call has ended the draft, its row is
shown for good without an output.

Beside what the aggregator does stands what a chat should show: an entry
for each call, and each result with the entry of the call it names
(`entriesOf`). **A fold whose results come in order shows these entries**
(`outputs_shown`), where a result is in order when the draft's newest row
is the one of its call, and has no output yet – or when its call has no
entry, being a plan, and the draft no row.
-/

open MessageAggregator

/-! ## Calls and results of a stream -/

/-- **A tool call**, and what it was answered. -/
structure ToolEntry where
  id : Option String
  name : Json
  input : Json
  /-- The outputs, and whether they are errors. -/
  answers : List (Json × Json) := []

/-- **A tool result.** -/
structure ToolAnswer where
  /-- The id of the call it answers. -/
  id : Option String
  output : Json
  isError : Json

def outputRow (row : Dict) (output isError : Json) : Dict :=
  toolPreview ((Dict.set row "output" output).set "is_error" (.bool isError.truthy))

/-- The row of a call that has not been answered. -/
def openRow (name input : Json) : Dict :=
  toolPreview [("name", name), ("input", input), ("output", .str ""), ("is_error", .bool false)]

/-- **The row an entry is shown as**: the call, with its last answer. -/
def ToolEntry.row (e : ToolEntry) : Dict :=
  match e.answers.getLast? with
  | none => openRow e.name e.input
  | some answer => outputRow (openRow e.name e.input) answer.1 answer.2

/-- The call a block makes, unless it submits a plan. -/
def callOfBlock (block : Json) : Option ToolEntry :=
  match Draft.toolUse block with
  | some (b, false) => some
    { id := (Dict.get b "id").asText
      name := b.getD "name" (.str "")
      input := b.getD "input" (.obj []) }
  | _ => none

def resultOfBlock : Json → Option ToolAnswer
  | .obj b =>
    if (Dict.get b "type").isText "tool_result" then some
      { id := (Dict.get b "tool_use_id").asText
        output := .str ((extractToolResultText b).getD "")
        isError := Dict.getD b "is_error" (.bool false) }
    else none
  | _ => none

def assistantBlocks (ev : Event) : List Json :=
  (((ev.get "message").or (.obj [])).asDict.bind fun msg =>
    ((msg.get "content").or (.arr [])).iter).getD []

/-- The blocks of a user event that only carries results. -/
def resultBlocks (ev : Event) : List Json :=
  (((ev.get "message").or (.obj [])).asDict.bind fun msg =>
    (msg.getD "content" (.arr [])).iter).getD []

/-- **The calls an event makes.** -/
def callsOf (ev : Event) : List ToolEntry :=
  if ev.hasType ET.user then []
  else if ev.hasType ET.assistant then (assistantBlocks ev).filterMap callOfBlock
  else if ev.hasType ET.toolUse then
    [{ id := (ev.get "id").asText
       name := ev.getD "name" (.str "")
       input := ev.getD "input" (.obj []) }]
  else []

/-- **The results an event brings.** -/
def resultsOf (ev : Event) : List ToolAnswer :=
  if ev.hasType ET.user then
    if ev.has "message" && !ev.has "content" then (resultBlocks ev).filterMap resultOfBlock
    else []
  else if ev.hasType ET.assistant then []
  else if ev.hasType ET.toolUse then []
  else if ev.hasType ET.toolResult then
    [{ id := (ev.get "tool_use_id").asText
       output := ev.getD "content" (.str "")
       isError := ev.getD "is_error" (.bool false) }]
  else []

/-- **A result goes to the entry of its call**: the last one that has its
id. -/
def answered (r : ToolAnswer) : List ToolEntry → List ToolEntry
  | [] => []
  | e :: es =>
    if es.any fun later => later.id == r.id then e :: answered r es
    else if e.id = r.id then { e with answers := e.answers ++ [(r.output, r.isError)] } :: es
    else e :: es

/-- The entries behind an event: its results answered, its calls behind
the others. -/
def entriesStep (es : List ToolEntry) (ev : Event) : List ToolEntry :=
  (resultsOf ev).foldl (fun es r => answered r es) es ++ callsOf ev

/-- **The entries a chat should show** of a stream. -/
def entriesOf (events : List Event) : List ToolEntry := events.foldl entriesStep []

/-! ## What is shown -/

def messageTools (msg : Dict) : List Dict :=
  match msg.get "tools" with
  | .arr rows => rows.filterMap Json.asDict
  | _ => []

/-- **The tool rows that are shown**: those of the messages, and behind
them those of the draft. -/
def shownTools (msgs : List Dict) (d : Draft) : List Dict :=
  msgs.flatMap messageTools ++ d.toolsBuf

/-- A row stored on the newest one. -/
def attachRow (rows : List Dict) (r : ToolAnswer) : List Dict :=
  match rows.getLast? with
  | none => rows
  | some row => rows.dropLast ++ [outputRow row r.output r.isError]

theorem shownTools_append (ms ms' : List Dict) (d : Draft) :
    shownTools (ms ++ ms') d = ms.flatMap messageTools ++ shownTools ms' d := by
  unfold shownTools
  rw [List.flatMap_append, List.append_assoc]

theorem shownTools_nil (d : Draft) : shownTools [] d = d.toolsBuf := rfl

/-! ### Messages without tools -/

/-- A handler whose messages have no tools. -/
def Untooled (handler : Event → Option (Option Dict)) : Prop :=
  ∀ ev msg, handler ev = some (some msg) → msg.get "tools" = .null

theorem untooled_always {f : Event → Dict} (h : ∀ ev, (f ev).get "tools" = .null) :
    Untooled fun ev => some (some (f ev)) := by
  intro ev msg hm
  cases hm
  exact h ev

theorem untooled_map {α : Type} {f : Event → Option α} {g : Event → α → Dict}
    (h : ∀ ev x, (g ev x).get "tools" = .null) :
    Untooled fun ev => (f ev).map fun x => some (g ev x) := by
  intro ev msg hm
  obtain ⟨x, -, hx⟩ := Option.map_eq_some_iff.mp hm
  cases hx
  exact h ev x

theorem untooled_masterDoneMsg : Untooled masterDoneMsg := by
  intro ev msg h
  unfold masterDoneMsg at h
  split at h
  · cases h
  · cases h
    rfl

theorem untooled_systemMsg : Untooled systemMsg := by
  intro ev msg h
  unfold systemMsg at h
  split at h
  · cases h
    rfl
  · cases h

theorem untooled_workerSummaryMsg : Untooled workerSummaryMsg :=
  untooled_always fun ev => by split <;> rfl

theorem untooled_backendOverlayInactiveMsg : Untooled backendOverlayInactiveMsg := by
  intro ev msg h
  unfold backendOverlayInactiveMsg at h
  dsimp only at h
  split at h <;>
  · cases h
    rfl

/-- **No message of the dispatch table has tools.** -/
theorem untooled_of_mem {t : String} {handler : Event → Option (Option Dict)}
    (h : (t, handler) ∈ simpleHandlers) : Untooled handler := by
  simp only [simpleHandlers, List.mem_cons, List.not_mem_nil, or_false, Prod.mk.injEq] at h
  rcases h with ⟨-, rfl⟩ | ⟨-, rfl⟩ | ⟨-, rfl⟩ | ⟨-, rfl⟩ | ⟨-, rfl⟩ | ⟨-, rfl⟩ | ⟨-, rfl⟩
    | ⟨-, rfl⟩ | ⟨-, rfl⟩ | ⟨-, rfl⟩ | ⟨-, rfl⟩ | ⟨-, rfl⟩ | ⟨-, rfl⟩ | ⟨-, rfl⟩ | ⟨-, rfl⟩
    | ⟨-, rfl⟩ | ⟨-, rfl⟩ | ⟨-, rfl⟩ | ⟨-, rfl⟩ | ⟨-, rfl⟩
  · exact untooled_masterDoneMsg
  · exact untooled_always fun _ => rfl
  · exact untooled_always fun _ => rfl
  · exact untooled_always fun _ => rfl
  · exact untooled_workerSummaryMsg
  · exact untooled_always fun _ => rfl
  · exact untooled_map fun _ _ => rfl
  · exact untooled_always fun _ => rfl
  · exact untooled_always fun _ => rfl
  · exact untooled_always fun _ => rfl
  · exact untooled_systemMsg
  · exact untooled_always fun _ => rfl
  · exact untooled_always fun _ => rfl
  · exact untooled_always fun _ => rfl
  · exact untooled_always fun _ => rfl
  · exact untooled_always fun _ => rfl
  · exact untooled_backendOverlayInactiveMsg
  · exact untooled_backendOverlayInactiveMsg
  · exact untooled_map fun _ _ => rfl
  · exact untooled_always fun _ => rfl

theorem messageTools_completed {t : String} {handler : Event → Option (Option Dict)}
    (hmem : (t, handler) ∈ simpleHandlers) {ev : Event} {result : Dict}
    (h : handler ev = some (some result)) (idx : ℕ) :
    messageTools (Draft.completed result ev idx) = [] := by
  unfold messageTools Draft.completed
  rw [Dict.get_set_of_ne _ _ (by decide), Dict.get_set_of_ne _ _ (by decide),
    Dict.get_setDefault_of_ne _ _ (by decide), untooled_of_mem hmem ev result h]

/-- **A draft's message has the draft's rows.** -/
theorem messageTools_msg (d : Draft) : messageTools d.msg = d.toolsBuf := by
  have hrows : ∀ rows : List Dict, (rows.map Json.obj).filterMap Json.asDict = rows := by
    intro rows
    rw [List.filterMap_map]
    exact List.filterMap_some
  unfold messageTools Draft.msg
  cases htools : d.toolsBuf with
  | nil => cases d.thinkingBuf.isEmpty <;> rfl
  | cons row rows => exact hrows (row :: rows)

namespace Draft

/-! ### Steps that answer nothing -/

theorem shownTools_flush (d : Draft) : shownTools d.flush.2 d.flush.1 = d.toolsBuf := by
  cases h : d.hasDraft with
  | true =>
    rw [flush_of_hasDraft h]
    show messageTools d.msg ++ [] ++ [] = _
    rw [List.append_nil, List.append_nil, messageTools_msg]
  | false =>
    rw [flush_of_not_hasDraft h]
    rfl

theorem shownTools_flush_append (d : Draft) {msg : Dict} (h : messageTools msg = []) :
    shownTools (d.flush.2 ++ [msg]) d.flush.1 = d.toolsBuf := by
  have hflush := d.shownTools_flush
  unfold shownTools at hflush ⊢
  rw [List.flatMap_append, List.append_assoc]
  show _ ++ ((messageTools msg ++ []) ++ _) = _
  rw [h, List.append_nil, List.nil_append, hflush]

theorem shownTools_planStep {ev : Event} {idx : ℕ} {d d' : Draft} {block : Json}
    {ms : List Dict} (h : planStep ev idx d block = some (d', ms)) :
    shownTools ms d' = d.toolsBuf := by
  unfold planStep at h
  split at h
  · obtain ⟨input, -, h⟩ := Option.map_eq_some_iff.mp h
    dsimp only at h
    split at h
    · cases h
      exact shownTools_flush_append d rfl
    · split at h <;>
      · cases h
        rfl
  · cases h
    rfl

theorem shownTools_planMachine {ev : Event} {idx : ℕ} {d d' : Draft} {blocks : List Json}
    {ms : List Dict} (h : (planMachine ev idx).run d blocks = some (d', ms)) :
    shownTools ms d' = d.toolsBuf :=
  Machine.run_compose (P := fun s t out => shownTools out t = s.toolsBuf) (fun _ => rfl)
    (fun s t u out₁ out₂ h₁ h₂ => by
      rw [shownTools_append, h₂]
      exact h₁)
    (fun _ _ _ _ _ hs => shownTools_planStep hs) h

theorem toolsBuf_bufferBlock (d : Draft) (block : Json) :
    (d.bufferBlock block).toolsBuf
      = d.toolsBuf ++ ((callOfBlock block).map ToolEntry.row).toList := by
  unfold bufferBlock callOfBlock
  rcases toolUse block with _ | ⟨b, _ | _⟩
  · exact (List.append_nil _).symm
  · rfl
  · exact (List.append_nil _).symm

/-- **The calls of an assistant event open rows.** -/
theorem toolsBuf_foldl_bufferBlock (blocks : List Json) (d : Draft) :
    (blocks.foldl bufferBlock d).toolsBuf
      = d.toolsBuf ++ (blocks.filterMap callOfBlock).map ToolEntry.row := by
  induction blocks generalizing d with
  | nil => exact (List.append_nil _).symm
  | cons block blocks ih =>
    rw [List.foldl_cons, ih, toolsBuf_bufferBlock, List.append_assoc, List.filterMap_cons]
    cases callOfBlock block <;> rfl

theorem toolsBuf_withThinking (d : Draft) (text : String) :
    (d.withThinking text).toolsBuf = d.toolsBuf := by
  unfold withThinking
  split <;> rfl

theorem shownTools_withText (d : Draft) (ev : Event) (text : String) :
    shownTools (d.withText ev text).2 (d.withText ev text).1 = d.toolsBuf := by
  unfold withText
  split
  · exact d.shownTools_flush
  · rfl

theorem toolsBuf_touched (d : Draft) (evId : Json) : (d.touched evId).toolsBuf = d.toolsBuf := by
  unfold touched
  split <;> rfl

theorem toolsBuf_stamped (d : Draft) (ev : Event) : (d.stamped ev).toolsBuf = d.toolsBuf := by
  unfold stamped
  split <;> rfl

theorem shownTools_feedAssistant {d d' : Draft} {ev : Event} {idx : ℕ} {ms : List Dict}
    {s : Bool} (h : d.feedAssistant ev idx = some (d', ms, s)) :
    shownTools ms d'
      = d.toolsBuf ++ ((assistantBlocks ev).filterMap callOfBlock).map ToolEntry.row := by
  unfold feedAssistant at h
  obtain ⟨msg, hmsg, h⟩ := Option.bind_eq_some_iff.mp h
  obtain ⟨blocks, hblocks, h⟩ := Option.bind_eq_some_iff.mp h
  obtain ⟨⟨planned, plans⟩, hplan, h⟩ := Option.bind_eq_some_iff.mp h
  obtain ⟨thinking, -, h⟩ := Option.bind_eq_some_iff.mp h
  obtain ⟨text, -, h⟩ := Option.bind_eq_some_iff.mp h
  cases h
  have hread : assistantBlocks ev = blocks := by
    unfold assistantBlocks
    rw [hmsg, Option.bind_some, hblocks]
    rfl
  have hplanned := shownTools_planMachine hplan
  have htext := shownTools_withText ((blocks.foldl bufferBlock planned).withThinking thinking) ev text
  rw [toolsBuf_withThinking, toolsBuf_foldl_bufferBlock] at htext
  rw [hread, shownTools_append]
  unfold shownTools at hplanned htext ⊢
  rw [toolsBuf_touched, htext, ← List.append_assoc, hplanned]
  rfl

/-! ### Results -/

theorem toolsBuf_attachToolOutput (d : Draft) (r : ToolAnswer) :
    (d.attachToolOutput r.output r.isError).toolsBuf = attachRow d.toolsBuf r := by
  unfold attachToolOutput attachRow
  cases d.toolsBuf.getLast? <;> rfl

theorem toolsBuf_attachBlock {d d' : Draft} {block : Json} (h : attachBlock d block = some d') :
    d'.toolsBuf = (resultOfBlock block).toList.foldl attachRow d.toolsBuf := by
  cases block with
  | obj b =>
    change (if (Dict.get b "type").isText "tool_result" && !d.toolsBuf.isEmpty then
      (extractToolResultText b).map fun text =>
        d.attachToolOutput (.str text) (Dict.getD b "is_error" (.bool false))
      else some d) = some d' at h
    show d'.toolsBuf = (if (Dict.get b "type").isText "tool_result" then some _ else none :
      Option ToolAnswer).toList.foldl attachRow d.toolsBuf
    by_cases hresult : (Dict.get b "type").isText "tool_result" = true
    · rw [hresult, Bool.true_and] at h
      rw [if_pos hresult]
      cases hnil : d.toolsBuf with
      | nil =>
        rw [hnil, List.isEmpty_nil, Bool.not_true, if_neg Bool.false_ne_true] at h
        cases h
        exact hnil
      | cons row rows =>
        rw [hnil, List.isEmpty_cons, Bool.not_false, if_pos rfl] at h
        obtain ⟨text, htext, rfl⟩ := Option.map_eq_some_iff.mp h
        rw [htext, ← hnil]
        exact toolsBuf_attachToolOutput d ⟨_, .str text, _⟩
    · rw [if_neg hresult]
      rw [Bool.eq_false_iff.mpr hresult, Bool.false_and, if_neg Bool.false_ne_true] at h
      cases h
      rfl
  | _ =>
    cases h
    rfl

theorem toolsBuf_foldlM_attachBlock {blocks : List Json} {d d' : Draft}
    (h : blocks.foldlM attachBlock d = some d') :
    d'.toolsBuf = (blocks.filterMap resultOfBlock).foldl attachRow d.toolsBuf := by
  induction blocks generalizing d with
  | nil =>
    cases h
    rfl
  | cons block blocks ih =>
    rw [List.foldlM_cons] at h
    obtain ⟨d₁, h₁, h⟩ := Option.bind_eq_some_iff.mp h
    rw [ih h, toolsBuf_attachBlock h₁, List.filterMap_cons]
    cases resultOfBlock block <;> rfl

/-- **What a step shows**: the rows of before, the newest of them with the
event's results, and a row for each call behind them. -/
theorem shownTools_feedAt {d d' : Draft} {ev : Event} {idx : ℕ} {ms : List Dict} {s : Bool}
    (h : d.feedAt ev idx = some (d', ms, s)) :
    shownTools ms d'
      = (resultsOf ev).foldl attachRow d.toolsBuf ++ (callsOf ev).map ToolEntry.row := by
  have hkept : d.toolsBuf = [].foldl attachRow d.toolsBuf ++ ([] : List ToolEntry).map
      ToolEntry.row := (List.append_nil _).symm
  unfold feedAt at h
  unfold resultsOf callsOf
  split at h
  · next huser =>
    rw [if_pos huser, if_pos huser]
    unfold feedUser at h
    split at h
    · next hresults =>
      rw [if_pos hresults]
      unfold feedToolResults at h
      obtain ⟨msg, hmsg, h⟩ := Option.bind_eq_some_iff.mp h
      obtain ⟨blocks, hblocks, h⟩ := Option.bind_eq_some_iff.mp h
      obtain ⟨d₁, hd₁, h⟩ := Option.bind_eq_some_iff.mp h
      cases h
      have hread : resultBlocks ev = blocks := by
        unfold resultBlocks
        rw [hmsg, Option.bind_some, hblocks]
        rfl
      rw [hread, shownTools_nil, toolsBuf_foldlM_attachBlock hd₁]
      exact (List.append_nil _).symm
    · next hresults =>
      rw [if_neg hresults]
      obtain ⟨normalized, -, h⟩ := Option.map_eq_some_iff.mp h
      cases h
      exact (shownTools_flush_append d rfl).trans hkept
  next huser =>
  rw [if_neg huser, if_neg huser]
  split at h
  · next hassistant =>
    rw [if_pos hassistant, if_pos hassistant, shownTools_feedAssistant h]
    rfl
  next hassistant =>
  rw [if_neg hassistant, if_neg hassistant]
  split at h
  · next huse =>
    rw [if_pos huse, if_pos huse]
    cases h
    rw [shownTools_nil, toolsBuf_stamped]
    rfl
  next huse =>
  rw [if_neg huse, if_neg huse]
  split at h
  · next hresult =>
    rw [if_pos hresult]
    unfold feedToolResult at h
    split at h
    · next hempty =>
      cases h
      rw [shownTools_nil, List.isEmpty_iff.mp hempty]
      rfl
    · cases h
      exact (toolsBuf_attachToolOutput d ⟨_, _, _⟩).trans (List.append_nil _).symm
  next hresult =>
  rw [if_neg hresult]
  split at h
  · cases h
    rw [shownTools_nil, toolsBuf_touched, toolsBuf_stamped]
    exact hkept
  · unfold feedSimple at h
    obtain ⟨handler?, hhandler, h⟩ := Option.bind_eq_some_iff.mp h
    cases handler? with
    | none =>
      cases h
      exact hkept
    | some handler =>
      obtain ⟨t, -, hmem⟩ := mem_of_handlerOf hhandler
      obtain ⟨result?, hresult, h⟩ := Option.map_eq_some_iff.mp h
      cases result? with
      | none =>
        simp only [rendered] at h
        split at h <;> cases h
        · exact hkept
        · exact d.shownTools_flush.trans hkept
      | some result =>
        cases h
        exact (shownTools_flush_append d (messageTools_completed hmem hresult idx)).trans hkept

end Draft

/-! ## Results that come in order -/

/-- **A result in order**: of a draft that has rows, the newest entry is
the one of its call and has no answer yet; of a draft without, no entry is
the one of its call. -/
def inOrder (buffered : Bool) (es : List ToolEntry) (r : ToolAnswer) : Prop :=
  if buffered then ∃ e, es.getLast? = some e ∧ e.id = r.id ∧ e.answers = []
  else ∀ e ∈ es, e.id ≠ r.id

/-- Results in order, one behind the other. -/
def allInOrder (buffered : Bool) : List ToolEntry → List ToolAnswer → Prop
  | _, [] => True
  | es, r :: rs => inOrder buffered es r ∧ allInOrder buffered (answered r es) rs

/-- **A stream whose results come in order**, fed to a draft behind
entries. -/
def ResultsInOrder : Draft → List ToolEntry → List (ℕ × Event) → Prop
  | _, _, [] => True
  | d, es, e :: rest =>
    allInOrder (!d.toolsBuf.isEmpty) es (resultsOf e.2) ∧
      ∀ d' ms s, d.feedAt e.2 e.1 = some (d', ms, s) →
        ResultsInOrder d' (entriesStep es e.2) rest

/-- No output was stored over another. -/
def OneAnswer (es : List ToolEntry) : Prop := ∀ e ∈ es, e.answers.length ≤ 1

theorem answered_append {r : ToolAnswer} (es : List ToolEntry) {e : ToolEntry}
    (h : e.id = r.id) :
    answered r (es ++ [e])
      = es ++ [{ e with answers := e.answers ++ [(r.output, r.isError)] }] := by
  induction es with
  | nil =>
    show (if ([] : List ToolEntry).any _ then _ else if e.id = r.id then _ else _) = _
    rw [List.any_nil, if_neg Bool.false_ne_true, if_pos h]
    rfl
  | cons f es ih =>
    have hlater : ((es ++ [e]).any fun later => later.id == r.id) = true := by
      rw [List.any_append, List.any_cons, h, beq_self_eq_true]
      simp
    rw [List.cons_append, answered, hlater, if_pos rfl, ih]
    rfl

theorem answered_of_ne {r : ToolAnswer} {es : List ToolEntry} (h : ∀ e ∈ es, e.id ≠ r.id) :
    answered r es = es := by
  induction es with
  | nil => rfl
  | cons e es ih =>
    have hlater : (es.any fun later => later.id == r.id) = false := by
      rw [List.any_eq_false]
      exact fun later hmem heq => h later (List.mem_cons_of_mem _ hmem) (eq_of_beq heq)
    rw [answered, hlater, if_neg Bool.false_ne_true, if_neg (h e List.mem_cons_self)]

theorem answers_callsOf {ev : Event} {e : ToolEntry} (h : e ∈ callsOf ev) : e.answers = [] := by
  unfold callsOf at h
  split at h
  · cases h
  split at h
  · obtain ⟨block, -, hblock⟩ := List.mem_filterMap.mp h
    unfold callOfBlock at hblock
    split at hblock
    · cases hblock
      rfl
    · cases hblock
  split at h
  · rw [List.mem_singleton.mp h]
  · cases h

/-- **What is shown are the entries**: the rows shown before, and behind
them the draft's. -/
structure Shows (before rows : List Dict) (es : List ToolEntry) : Prop where
  rows_eq : before ++ rows = es.map ToolEntry.row
  /-- No output was stored over another. -/
  oneAnswer : OneAnswer es

/-- **One result in order** keeps the rows the entries'. -/
theorem Shows.answer {before rows : List Dict} {es : List ToolEntry} {r : ToolAnswer}
    (h : Shows before rows es) (hr : inOrder (!rows.isEmpty) es r) :
    Shows before (attachRow rows r) (answered r es)
      ∧ (attachRow rows r).isEmpty = rows.isEmpty := by
  unfold inOrder at hr
  rcases List.eq_nil_or_concat rows with rfl | ⟨rows, row, rfl⟩
  · rw [List.isEmpty_nil, Bool.not_true, if_neg Bool.false_ne_true] at hr
    rw [answered_of_ne hr]
    exact ⟨h, rfl⟩
  · have hne : (rows ++ [row]).isEmpty = false := by simp
    rw [List.concat_eq_append] at h hr ⊢
    rw [hne, Bool.not_false, if_pos rfl] at hr
    obtain ⟨e, hlast, hid, hnone⟩ := hr
    obtain ⟨es, rfl⟩ : ∃ es₀, es = es₀ ++ [e] :=
      ⟨es.dropLast, (List.dropLast_append_getLast? e hlast).symm⟩
    have heq := h.rows_eq
    rw [← List.append_assoc, List.map_append, List.map_singleton] at heq
    obtain ⟨hrows, hrow⟩ := List.append_inj' heq rfl
    have hrow := (List.cons.inj hrow).1
    -- the newest entry is answered by this result alone
    have hopen : e.row = openRow e.name e.input := by
      unfold ToolEntry.row
      rw [hnone]
      rfl
    have hattach : attachRow (rows ++ [row]) r = rows ++ [outputRow row r.output r.isError] := by
      unfold attachRow
      rw [List.getLast?_concat, List.dropLast_concat]
    rw [hattach, answered_append es hid, hnone, hrow, hopen]
    refine ⟨⟨?_, ?_⟩, ?_⟩
    · rw [← List.append_assoc, hrows, List.map_append]
      rfl
    · intro f hf
      rcases List.mem_append.mp hf with hf | hf
      · exact h.oneAnswer f (List.mem_append_left _ hf)
      · rw [List.mem_singleton.mp hf]
        exact Nat.le_refl 1
    · cases rows <;> rfl

theorem Shows.answers {before rows : List Dict} {es : List ToolEntry} {rs : List ToolAnswer}
    (h : Shows before rows es) (hrs : allInOrder (!rows.isEmpty) es rs) :
    Shows before (rs.foldl attachRow rows) (rs.foldl (fun es r => answered r es) es) := by
  induction rs generalizing rows es with
  | nil => exact h
  | cons r rs ih =>
    obtain ⟨hr, hrs⟩ := hrs
    obtain ⟨hshows, hempty⟩ := h.answer hr
    rw [← hempty] at hrs
    exact ih hshows hrs

/-- **A step whose results are in order** shows the entries behind it. -/
theorem Shows.feedAt {before : List Dict} {d d' : Draft} {es : List ToolEntry} {ev : Event}
    {idx : ℕ} {ms : List Dict} {s : Bool} (h : Shows before d.toolsBuf es)
    (hrs : allInOrder (!d.toolsBuf.isEmpty) es (resultsOf ev))
    (hfeed : d.feedAt ev idx = some (d', ms, s)) :
    Shows (before ++ ms.flatMap messageTools) d'.toolsBuf (entriesStep es ev) := by
  have hanswers := h.answers hrs
  have hshown := Draft.shownTools_feedAt hfeed
  unfold shownTools at hshown
  unfold entriesStep
  refine ⟨?_, fun e he => ?_⟩
  · rw [List.append_assoc, hshown, ← List.append_assoc, hanswers.rows_eq, List.map_append]
  · rcases List.mem_append.mp he with he | he
    · exact hanswers.oneAnswer e he
    · rw [show e.answers = [] from answers_callsOf he]
      exact Nat.zero_le 1

/-- **A run whose results come in order** shows the entries. -/
theorem Shows.run {before : List Dict} {d d' : Draft} {es : List ToolEntry}
    {events : List (ℕ × Event)} {ms : List Dict} (h : Shows before d.toolsBuf es)
    (hin : ResultsInOrder d es events) (hrun : Draft.machine.run d events = some (d', ms)) :
    Shows (before ++ ms.flatMap messageTools) d'.toolsBuf
      ((events.map Prod.snd).foldl entriesStep es) := by
  induction events generalizing before d es ms with
  | nil =>
    cases hrun
    rw [List.flatMap_nil, List.append_nil]
    exact h
  | cons e events ih =>
    obtain ⟨hrs, hrest⟩ := hin
    rw [Machine.run_cons] at hrun
    obtain ⟨⟨d₁, ms₁⟩, hstep, hbehind⟩ := Option.bind_eq_some_iff.mp hrun
    obtain ⟨⟨d₁', ms₁', s⟩, hfeed, heq⟩ := Option.map_eq_some_iff.mp hstep
    cases heq
    obtain ⟨⟨d₂, ms₂⟩, hmore, heq⟩ := Option.map_eq_some_iff.mp hbehind
    cases heq
    have hnext := ih (h.feedAt hrs hfeed) (hrest _ _ _ hfeed) hmore
    rw [List.append_assoc, ← List.flatMap_append] at hnext
    exact hnext

/-! ## The aggregator shows the entries -/

/-- An aggregator that was fed nothing. -/
def freshAggregator (offset : ℕ) (emit : Bool) : MessageAggregator :=
  { idxOffset := offset, emitStreamDeltas := emit }

theorem shows_fresh : Shows [] ({} : Draft).toolsBuf [] :=
  ⟨rfl, fun _ he => absurd he List.not_mem_nil⟩

/-- **A chat shows the entries of its stream** wherever the results come in
order: each result is shown with the call it names and no other, and none
is stored over another. That holds of an aggregator fed in the order of
the history, each event under an index of its own, and of one fed live,
with snapshots of the draft or without. -/
theorem outputs_shown (offset : ℕ) (emit : Bool) :
    (∀ (events : List (ℕ × Event)) (agg : MessageAggregator) (deltas : List Delta),
      (freshAggregator offset emit).feedIndexed events = some (agg, deltas) →
      ResultsInOrder {} [] (attributed offset events) →
      shownTools (committedMessages deltas) agg.draft
          = (entriesOf (events.map Prod.snd)).map ToolEntry.row
        ∧ OneAnswer (entriesOf (events.map Prod.snd)))
    ∧ ∀ (events : List Event) (agg : MessageAggregator) (deltas : List Delta),
      (freshAggregator offset emit).feedAll events = some (agg, deltas) →
      ResultsInOrder {} [] (numbered offset events) →
      shownTools (committedMessages deltas) agg.draft = (entriesOf events).map ToolEntry.row
        ∧ OneAnswer (entriesOf events) := by
  constructor
  · intro events agg deltas h hin
    have hdraft := feedIndexed_draft (freshAggregator offset emit) events
    rw [h, Option.map_some] at hdraft
    have hshows := shows_fresh.run hin hdraft.symm
    have hevents : (attributed offset events).map Prod.snd = events.map Prod.snd := by
      unfold attributed
      rw [List.map_map]
      rfl
    rw [hevents] at hshows
    exact ⟨hshows.rows_eq, hshows.oneAnswer⟩
  · intro events agg deltas h hin
    have hdraft := feedAll_draft (freshAggregator offset emit) events
    rw [h, Option.map_some] at hdraft
    have hshows := shows_fresh.run hin hdraft.symm
    have hevents : (numbered offset events).map Prod.snd = events := by
      unfold numbered
      rw [List.map_map]
      exact List.zipIdx_map_fst offset events
    rw [hevents] at hshows
    exact ⟨hshows.rows_eq, hshows.oneAnswer⟩

def callEvent (id : String) : Event :=
  [("type", .str ET.toolUse), ("id", .str id), ("name", .str "Bash")]

def resultEvent (id output : String) : Event :=
  [("type", .str ET.toolResult), ("tool_use_id", .str id), ("content", .str output)]

/-- Two calls, each answered before the next. -/
def sequentialCalls : List Event :=
  [callEvent "a", resultEvent "a" "first", callEvent "b", resultEvent "b" "second"]

theorem outputs_shown_sequential : ∃ agg deltas,
    (freshAggregator 0 false).feedAll sequentialCalls = some (agg, deltas)
      ∧ shownTools (committedMessages deltas) agg.draft
        = (entriesOf sequentialCalls).map ToolEntry.row
      ∧ (entriesOf sequentialCalls).map (fun e => (e.row.get "output").toText)
        = ["first", "second"] := by
  refine ⟨_, _, rfl, ((outputs_shown 0 false).2 sequentialCalls _ _ rfl ?_).1, rfl⟩
  refine ⟨trivial, fun d' ms s h => ?_⟩
  cases h
  refine ⟨⟨⟨_, rfl, rfl, rfl⟩, trivial⟩, fun d' ms s h => ?_⟩
  cases h
  refine ⟨trivial, fun d' ms s h => ?_⟩
  cases h
  refine ⟨⟨⟨_, rfl, rfl, rfl⟩, trivial⟩, fun d' ms s h => ?_⟩
  trivial

/-- Two calls made at once, and their results. -/
def parallelCalls : List Event :=
  [callEvent "a", callEvent "b", resultEvent "a" "first", resultEvent "b" "second"]

/-- **Parallel calls lose an output.** The first result is stored on the
second call's row, and the second over it; the first call's row stays
empty. -/
theorem output_lost : ∃ agg deltas,
    (freshAggregator 0 false).feedAll parallelCalls = some (agg, deltas)
      ∧ (shownTools (committedMessages deltas) agg.draft).map
          (fun row => (Dict.get row "output").toText) = ["", "second"]
      ∧ (entriesOf parallelCalls).map (fun e => (e.row.get "output").toText)
        = ["first", "second"] :=
  ⟨_, _, rfl, rfl, rfl⟩
