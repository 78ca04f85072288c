import CharlieBot.Lib.Transition
import CharlieBot.MessageAggregator

/-!
# A chat while it is written

Of a chat that is in use two things are kept in memory: the list of its
events, as the file was parsed, and the aggregator that turns events into
messages. Both are made on first use and kept up by every append. An append
is not one step: the aggregator is made or looked up, the line is written by a
worker thread, and only when that is through are the list and the aggregator
told. Readers parse the file in threads of their own, and at any time the
whole of it is dropped (`_drop_session_runtime_state`).

The list is an object that others hold on to: an initialisation feeds from the
list it was given, and sees what is appended to it.
-/

/-! ## The stamp -/

/-- An event as it is written: without the index it is stamped with in memory. -/
def Event.unstamped (event : Event) : Event := event.filter (·.1 != "event_index")

namespace Event

theorem lookup_unstamped (event : Event) {k : String} (hk : k ≠ "event_index") :
    List.lookup k event.unstamped = List.lookup k event := by
  induction event with
  | nil => rfl
  | cons field fields ih =>
    obtain ⟨name, value⟩ := field
    rw [unstamped, List.filter_cons]
    by_cases hname : name = "event_index"
    · rw [if_neg (by simp [hname]), List.lookup_cons, hname, beq_false_of_ne hk]
      exact ih
    · rw [if_pos (by simpa using hname), List.lookup_cons, List.lookup_cons]
      split
      · rfl
      · exact ih

@[simp] theorem get_unstamped (event : Event) {k : String} (hk : k ≠ "event_index") :
    Dict.get event.unstamped k = Dict.get event k := by
  rw [Dict.get, Dict.get, Dict.getD, Dict.getD, lookup_unstamped event hk]

@[simp] theorem getD_unstamped (event : Event) {k : String} (hk : k ≠ "event_index") (d : Json) :
    Dict.getD event.unstamped k d = Dict.getD event k d := by
  rw [Dict.getD, Dict.getD, lookup_unstamped event hk]

@[simp] theorem has_unstamped (event : Event) {k : String} (hk : k ≠ "event_index") :
    Dict.has event.unstamped k = Dict.has event k := by
  rw [Dict.has, Dict.has, lookup_unstamped event hk]

@[simp] theorem hasType_unstamped (event : Event) (t : String) :
    event.unstamped.hasType t = event.hasType t := by
  rw [hasType, hasType, get_unstamped event (by decide)]

end Event

section Unstamped

variable (event : Event) (idx : ℕ)

@[simp] theorem eventId_unstamped : eventId event.unstamped idx = eventId event idx := by
  simp (disch := decide) only [eventId, Event.get_unstamped]

theorem normalizeUserMessageEvent_unstamped :
    MessageEvents.normalizeUserMessageEvent event.unstamped
      = MessageEvents.normalizeUserMessageEvent event := by
  simp (disch := decide) only [MessageEvents.normalizeUserMessageEvent, Event.get_unstamped,
    Event.getD_unstamped]

theorem handler_unstamped {name : String} {handler : Event → Option (Option Dict)}
    (h : (name, handler) ∈ simpleHandlers) : handler event.unstamped = handler event := by
  simp only [simpleHandlers, List.mem_cons, Prod.mk.injEq, List.not_mem_nil, or_false] at h
  rcases h with ⟨-, rfl⟩ | ⟨-, rfl⟩ | ⟨-, rfl⟩ | ⟨-, rfl⟩ | ⟨-, rfl⟩ | ⟨-, rfl⟩ | ⟨-, rfl⟩
    | ⟨-, rfl⟩ | ⟨-, rfl⟩ | ⟨-, rfl⟩ | ⟨-, rfl⟩ | ⟨-, rfl⟩ | ⟨-, rfl⟩ | ⟨-, rfl⟩ | ⟨-, rfl⟩
    | ⟨-, rfl⟩ | ⟨-, rfl⟩ | ⟨-, rfl⟩ | ⟨-, rfl⟩ | ⟨-, rfl⟩
  all_goals
    simp (disch := decide) only [masterDoneMsg, assistantErrorMsg, errorMsg, taskDelegatedMsg,
      workerSummaryMsg, handlerResultMsg, contextCompactedMsg, contextCompactedText,
      compactingModelNote, contextCompactFailedMsg, resumeContextDroppedMsg,
      claudeAccountLoginRequiredMsg, systemMsg, cloneStartMsg, scheduledTriggerMsg,
      agentMessageMsg, slackReplyMsg, backendSwitchedMsg, backendOverlayInactiveMsg,
      modelFallbackNoticeMsg, scheduledRunSkippedMsg, Event.get_unstamped,
      Event.getD_unstamped]

end Unstamped

namespace Draft

variable (d : Draft) (event : Event) (idx : ℕ)

theorem feedUser_unstamped : d.feedUser event.unstamped idx = d.feedUser event idx := by
  simp (disch := decide) only [feedUser, feedToolResults, userMsg, Event.get_unstamped,
    Event.getD_unstamped, Event.has_unstamped, normalizeUserMessageEvent_unstamped,
    eventId_unstamped]

theorem planMachine_unstamped : planMachine event.unstamped idx = planMachine event idx := by
  have hstep : planStep event.unstamped idx = planStep event idx := by
    funext d block
    simp (disch := decide) only [planStep, planMsg, Event.get_unstamped, eventId_unstamped]
  rw [planMachine, planMachine, hstep]

theorem feedAssistant_unstamped :
    d.feedAssistant event.unstamped idx = d.feedAssistant event idx := by
  simp (disch := decide) only [feedAssistant, opened, withText, planMachine_unstamped,
    Event.get_unstamped, eventId_unstamped]

theorem feedSimple_unstamped : d.feedSimple event.unstamped idx = d.feedSimple event idx := by
  have hrendered : d.rendered event.unstamped idx = d.rendered event idx := by
    funext result
    cases result with
    | none => rw [rendered, rendered, Event.hasType_unstamped]
    | some result =>
      simp (disch := decide) only [rendered, completed, Event.get_unstamped, eventId_unstamped]
  rw [feedSimple, feedSimple, Event.get_unstamped event (by decide), hrendered]
  refine Option.bind_congr fun handler hhandler => ?_
  cases handler with
  | none => rfl
  | some handler =>
    have hmem : ∃ name, (name, handler) ∈ simpleHandlers := by
      cases htype : Dict.get event "type" with
      | str t =>
        rw [htype, handlerOf, Option.some_inj] at hhandler
        obtain ⟨before, behind, hsplit, -⟩ := List.lookup_eq_some_iff.mp hhandler
        exact ⟨t, by rw [hsplit]; simp⟩
      | _ =>
        rw [htype] at hhandler
        cases hhandler
    obtain ⟨name, hmem⟩ := hmem
    show Option.map _ (handler event.unstamped) = Option.map _ (handler event)
    rw [handler_unstamped event hmem]

theorem feedAt_unstamped : d.feedAt event.unstamped idx = d.feedAt event idx := by
  simp (disch := decide) only [feedAt, Event.hasType_unstamped, feedUser_unstamped,
    feedAssistant_unstamped, feedSimple_unstamped, feedToolUse, feedToolResult, feedThinking,
    stamped, Event.get_unstamped, Event.getD_unstamped, eventId_unstamped]

end Draft

/-- **The messages of an event do not depend on its stamp.** -/
theorem MessageAggregator.feed_unstamped (agg : MessageAggregator) (event : Event) :
    agg.feed event.unstamped = agg.feed event := by
  rw [feed, feed, feedAt, feedAt, Draft.feedAt_unstamped]

/-! ## Calls in progress -/

/-- Where a load of the events is (`load_chat_events_sync`), in its thread. -/
inductive LoadPhase where
  | checking
  | hit
  /-- There was none; the file is parsed. -/
  | parsing
  /-- The file was parsed; the entry is written. -/
  | parsed (events : List Event)

/-- Where a call of `persist_and_broadcast` is. -/
inductive CallPhase where
  /-- It read the epoch, and waits for the lock of the initialisation. -/
  | waiting (epoch : ℕ)
  /-- The events are loaded, in a thread. -/
  | loading (epoch : ℕ) (load : LoadPhase)
  /-- The thread is through, with a list. -/
  | loaded (epoch list : ℕ)
  /-- A slice was fed, and others were let on. -/
  | boundary (epoch list start : ℕ) (fed : List Event)
  /-- The aggregator is there; the session's metadata is read. -/
  | fetching (agg : ℕ)
  /-- The line is to be written, in a thread. -/
  | saving (agg archiveOffset : ℕ)
  /-- It is written; the call is not yet resumed. -/
  | landed (agg archiveOffset line : ℕ)

/-- A call of `persist_and_broadcast`. -/
structure PersistCall where
  event : Event
  phase : CallPhase

/-- **An aggregator**, by what it was fed. -/
structure LiveAggregator where
  epoch : ℕ
  fed : List Event

/-- Its state; the events of its file count from the archive's end. Whether
snapshots are emitted does not change it. -/
def aggregatorState (archiveOffset : ℕ) (fed : List Event) : Option MessageAggregator :=
  (MessageAggregator.feedAll { idxOffset := archiveOffset } fed).map (·.1)

def aggregatorInitSliceEvents : ℕ := 256

/-- **A session's chat**: its file, and what the server keeps of it. -/
structure LiveChat where
  /-- The events that were moved to the archive. -/
  archiveOffset : ℕ := 0
  /-- The lines of the file, blank and malformed ones as nothing. -/
  file : List (Option Event) := []
  /-- The lists that were ever made. -/
  lists : ℕ → List Event := fun _ => []
  nextList : ℕ := 0
  /-- The entry of `_events_cache`. -/
  cache : Option ℕ := none
  /-- The aggregators that were ever made. -/
  aggs : ℕ → LiveAggregator := fun _ => ⟨0, []⟩
  nextAgg : ℕ := 0
  /-- The entry of `_aggregators`. -/
  aggregator : Option ℕ := none
  /-- `_aggregator_epoch`. -/
  epoch : ℕ := 0
  /-- `_aggregator_init_locks`: every drop makes room for a new lock, so there is
  one for every epoch. -/
  locks : ℕ → Option ℕ := fun _ => none
  calls : ℕ → Option PersistCall := fun _ => none
  readers : ℕ → Option LoadPhase := fun _ => none
  /-- The calls whose line is written and which are not resumed, in the order of
  the lines. -/
  landed : List (ℕ × Event) := []
  /-- Every index that was broadcast, beside the event's global position. -/
  broadcasts : List (ℕ × ℕ) := []
  /-- The calls that raised because there was no entry. -/
  keyErrors : List ℕ := []

inductive LiveChatAction where
  /-- `persist_and_broadcast`, up to the aggregator or the lock. -/
  | persist (c : ℕ) (event : Event)
  | acquire (c : ℕ)
  /-- A step of the load of an initialisation. -/
  | loadCall (c : ℕ)
  /-- The initialisation goes on behind its load. -/
  | startInit (c : ℕ)
  /-- It goes on behind a slice. -/
  | resumeInit (c : ℕ)
  | fetched (c : ℕ) (id timestamp : String)
  /-- The line is in the file. -/
  | land (c : ℕ)
  /-- The call is resumed behind its write. -/
  | resume (c : ℕ)
  /-- What a call waits for fails. -/
  | fail (c : ℕ)
  /-- `get_message_projection`, or any other reader of the events. -/
  | read (r : ℕ)
  | loadReader (r : ℕ)
  /-- `_drop_session_runtime_state`. -/
  | drop

namespace LiveChat

/-- `parse_ndjson_file`. -/
def parse (s : LiveChat) : List Event := s.file.filterMap id

def setCall (s : LiveChat) (c : ℕ) (call : Option PersistCall) : LiveChat :=
  { s with calls := Function.update s.calls c call }

def goto (s : LiveChat) (c : ℕ) (call : PersistCall) (phase : CallPhase) : LiveChat :=
  s.setCall c (some { call with phase := phase })

def setLock (s : LiveChat) (epoch : ℕ) (holder : Option ℕ) : LiveChat :=
  { s with locks := Function.update s.locks epoch holder }

def setReader (s : LiveChat) (r : ℕ) (load : Option LoadPhase) : LiveChat :=
  { s with readers := Function.update s.readers r load }

/-- A list is made, and is the entry. -/
def storeList (s : LiveChat) (events : List Event) : LiveChat :=
  { s with
    lists := Function.update s.lists s.nextList events
    nextList := s.nextList + 1
    cache := some s.nextList }

/-- What one step of a load comes to. -/
inductive LoadResult where
  | next (load : LoadPhase)
  | done (list : ℕ)
  /-- The entry is gone. -/
  | keyError

/-- One step of `load_chat_events_sync`. -/
def loadStep (s : LiveChat) : LoadPhase → LiveChat × LoadResult
  | .checking => (s, .next (if s.cache.isSome then .hit else .parsing))
  | .hit =>
    match s.cache with
    | some list => (s, .done list)
    | none => (s, .keyError)
  | .parsing => (s, .next (.parsed s.parse))
  | .parsed events => (s.storeList events, .done s.nextList)

/-- The aggregator is registered, and the lock given back. -/
def publish (s : LiveChat) (c : ℕ) (call : PersistCall) (epoch : ℕ) (fed : List Event) :
    LiveChat :=
  ({ s with
      aggs := Function.update s.aggs s.nextAgg ⟨epoch, fed⟩
      nextAgg := s.nextAgg + 1
      aggregator := some s.nextAgg }.goto c call (.fetching s.nextAgg)).setLock epoch none

/-- The next slice is fed, or there is none. -/
def feedOn (s : LiveChat) (c : ℕ) (call : PersistCall) (epoch list start : ℕ)
    (fed : List Event) : LiveChat :=
  if start < (s.lists list).length then
    let stop := min (start + aggregatorInitSliceEvents) (s.lists list).length
    let fed := fed ++ ((s.lists list).take stop).drop start
    if (aggregatorState s.archiveOffset fed).isSome then
      s.goto c call (.boundary epoch list stop fed)
    -- an event that cannot be rendered ends the call
    else (s.setCall c none).setLock epoch none
  else s.publish c call epoch fed

def step (s : LiveChat) : LiveChatAction → Option LiveChat
  | .persist c event =>
    match s.calls c with
    | some _ => none
    | none =>
      match s.aggregator with
      | some agg => some (s.setCall c (some ⟨event, .fetching agg⟩))
      | none => some (s.setCall c (some ⟨event, .waiting s.epoch⟩))
  | .acquire c =>
    match s.calls c with
    | some call =>
      match call.phase with
      | .waiting epoch =>
        match s.locks epoch with
        | some _ => none
        | none =>
          match s.aggregator with
          | some agg => some (s.goto c call (.fetching agg))
          | none => some ((s.goto c call (.loading epoch .checking)).setLock epoch (some c))
      | _ => none
    | none => none
  | .loadCall c =>
    match s.calls c with
    | some call =>
      match call.phase with
      | .loading epoch load =>
        match s.loadStep load with
        | (s, .next load) => some (s.goto c call (.loading epoch load))
        | (s, .done list) => some (s.goto c call (.loaded epoch list))
        | (s, .keyError) =>
          some { (s.setCall c none).setLock epoch none with keyErrors := c :: s.keyErrors }
      | _ => none
    | none => none
  | .startInit c =>
    match s.calls c with
    | some call =>
      match call.phase with
      -- the first slice is fed before the epoch is looked at
      | .loaded epoch list => some (s.feedOn c call epoch list 0 [])
      | _ => none
    | none => none
  | .resumeInit c =>
    match s.calls c with
    | some call =>
      match call.phase with
      | .boundary epoch list start fed =>
        if s.epoch = epoch then some (s.feedOn c call epoch list start fed)
        else
          some (({ s with cache := none }.goto c call (.waiting s.epoch)).setLock epoch none)
      | _ => none
    | none => none
  | .fetched c id timestamp =>
    match s.calls c with
    | some call =>
      match call.phase with
      | .fetching agg =>
        let event := (Dict.setDefault call.event "id" (.str id)).setDefault "timestamp"
          (.str timestamp)
        some (s.setCall c (some ⟨event, .saving agg s.archiveOffset⟩))
      | _ => none
    | none => none
  | .land c =>
    match s.calls c with
    | some call =>
      match call.phase with
      | .saving agg archiveOffset =>
        some { s.goto c call (.landed agg archiveOffset s.file.length) with
          file := s.file ++ [some call.event]
          landed := s.landed ++ [(c, call.event)] }
      | _ => none
    | none => none
  | .resume c =>
    match s.calls c with
    | some call =>
      match call.phase with
      | .landed agg archiveOffset line =>
        let t := { s.setCall c none with landed := s.landed.eraseP (·.1 == c) }
        match s.cache with
        | none => some { t with keyErrors := c :: s.keyErrors }
        | some list =>
          let index := archiveOffset + (s.lists list ++ [call.event]).length - 1
          let event := Dict.set call.event "event_index" (.int index)
          some { t with
            lists := Function.update s.lists list (s.lists list ++ [event])
            aggs := Function.update s.aggs agg
              { s.aggs agg with fed := (s.aggs agg).fed ++ [event] }
            broadcasts := s.broadcasts ++ [(index, s.archiveOffset + line)] }
      | _ => none
    | none => none
  | .fail c =>
    match s.calls c with
    | some call =>
      match call.phase with
      | .loading epoch _ => some ((s.setCall c none).setLock epoch none)
      | .fetching _ => some (s.setCall c none)
      | .saving _ _ => some (s.setCall c none)
      | _ => none
    | none => none
  | .read r =>
    match s.readers r with
    | some _ => none
    | none => some (s.setReader r (some .checking))
  | .loadReader r =>
    match s.readers r with
    | some load =>
      match s.loadStep load with
      | (s, .next load) => some (s.setReader r (some load))
      | (s, _) => some (s.setReader r none)
    | none => none
  | .drop => some { s with cache := none, aggregator := none, epoch := s.epoch + 1 }

def system : TransitionSystem LiveChat LiveChatAction := ⟨step⟩

/-- A session as it is when the server starts. -/
def start (archiveOffset : ℕ) (file : List (Option Event)) : LiveChat :=
  { archiveOffset := archiveOffset, file := file }

end LiveChat
