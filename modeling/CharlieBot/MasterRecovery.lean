import CharlieBot.Lib.Transition
import CharlieBot.MessageEvents
import CharlieBot.Runs

/-!
# Master turns across a restart

A user message is saved to the chat log, queued, and answered by a turn that
ends with a `master_done` event in the log. What the queue holds is lost
when the server stops; the process of a turn is not, and while one is under
way the session's metadata record it. After a restart two passes see to what
was under way: the identity pass looks at the recorded turn and follows it,
leaves it, or clears it, and the replay pass redelivers the messages behind
the last `master_done` that nobody owns.

The module proves that **every message behind the last `master_done` is
owned or replayed, and never both, and that no answered message is
replayed** (`replayed_iff_not_owned`), whatever happened before and between
the passes. A message that was saved before the `master_done` of the turn it
waited behind is not behind the last one, and is lost with the queue
(`queued_event_lost`); where no turn ends while another message waits, no
message is (`unanswered_owned_or_replayed`).
-/

/-! ## Messages and answers in the log -/

/-- A real user message: a user event with a text. -/
def isUserMessage (ev : Event) : Bool :=
  ev.hasType ET.user && (ev.get "content").asText.isSome

def userId (ev : Event) : Option String :=
  if isUserMessage ev then (ev.get "id").asText else none

/-- The message a `master_done` event answers. -/
def answeredId (ev : Event) : Option String :=
  if MessageEvents.isMasterDone ev then (ev.get ET.inputEventId).asText else none

theorem isMasterDone_of_isUserMessage {ev : Event} (h : isUserMessage ev = true) :
    MessageEvents.isMasterDone ev = false := by
  unfold isUserMessage at h
  rw [Bool.and_eq_true] at h
  by_contra hdone
  rw [Bool.not_eq_false] at hdone
  exact absurd (Event.hasType_unique h.1 hdone) (by decide)

/-- A message of the log is answered. -/
def Answered (chatEvents : List Event) (id : String) : Prop :=
  ∃ done ∈ chatEvents, answeredId done = some id

/-- A message of the log is there. -/
def Saved (chatEvents : List Event) (id : String) : Prop :=
  ∃ ev ∈ chatEvents, userId ev = some id

/-- **No turn ended since the event was saved.** -/
def NoDoneAfter (chatEvents : List Event) (ev : Event) : Prop :=
  ∃ before behind, chatEvents = before ++ ev :: behind
    ∧ ∀ d ∈ behind, MessageEvents.isMasterDone d = false

/-- The index behind the last `master_done`. -/
def behindLastDone (chatEvents : List Event) : ℕ :=
  chatEvents.zipIdx.foldl
    (fun start e => if MessageEvents.isMasterDone e.1 then e.2 + 1 else start) 0

/-- `ev.get("id") in ids`. -/
def idIn (ids : List String) (ev : Event) : Bool :=
  match (ev.get "id").asText with
  | some id => ids.contains id
  | none => false

/-- **The messages to redeliver**: the real user messages behind the last
`master_done`, less the ones to exclude. -/
def unansweredUserEvents (chatEvents : List Event) (excludeIds : List String) : List Event :=
  (chatEvents.drop (behindLastDone chatEvents)).filter fun ev =>
    isUserMessage ev && !idIn excludeIds ev

theorem behindLastDone_concat (chatEvents : List Event) (ev : Event) :
    behindLastDone (chatEvents ++ [ev])
      = if MessageEvents.isMasterDone ev then chatEvents.length + 1
        else behindLastDone chatEvents := by
  unfold behindLastDone
  rw [List.zipIdx_append, List.foldl_append, Nat.zero_add]
  rfl

theorem behindLastDone_le (chatEvents : List Event) :
    behindLastDone chatEvents ≤ chatEvents.length := by
  induction chatEvents using List.reverseRecOn with
  | nil => exact Nat.le_refl 0
  | append_singleton evs ev ih =>
    rw [behindLastDone_concat, List.length_append]
    split
    · exact Nat.le_refl _
    · exact Nat.le_succ_of_le ih

theorem noDoneAfter_concat {chatEvents : List Event} {ev last : Event}
    (hlast : MessageEvents.isMasterDone last = false) :
    NoDoneAfter (chatEvents ++ [last]) ev ↔ NoDoneAfter chatEvents ev ∨ ev = last := by
  constructor
  · rintro ⟨before, behind, h, hbehind⟩
    obtain rfl | ⟨behind, x, rfl⟩ := List.eq_nil_or_concat' behind
    · exact .inr (List.cons.inj (List.append_inj' h rfl).2).1.symm
    · rw [← List.cons_append, ← List.append_assoc] at h
      exact .inl ⟨before, behind, (List.append_inj' h rfl).1, fun d hd =>
        hbehind d (List.mem_append_left _ hd)⟩
  · rintro (⟨before, behind, rfl, hbehind⟩ | rfl)
    · refine ⟨before, behind ++ [last], by simp, fun d hd => ?_⟩
      rcases List.mem_append.mp hd with hd | hd
      · exact hbehind d hd
      · rw [List.mem_singleton.mp hd]
        exact hlast
    · exact ⟨chatEvents, [], rfl, fun d hd => absurd hd List.not_mem_nil⟩

theorem not_noDoneAfter_concat {chatEvents : List Event} {ev last : Event}
    (hlast : MessageEvents.isMasterDone last = true)
    (hev : MessageEvents.isMasterDone ev = false) : ¬ NoDoneAfter (chatEvents ++ [last]) ev := by
  rintro ⟨before, behind, h, hbehind⟩
  obtain rfl | ⟨behind, x, rfl⟩ := List.eq_nil_or_concat' behind
  · have heq : last = ev := (List.cons.inj (List.append_inj' h rfl).2).1
    rw [heq, hev] at hlast
    exact Bool.noConfusion hlast
  · rw [← List.cons_append, ← List.append_assoc] at h
    have heq : last = x := (List.cons.inj (List.append_inj' h rfl).2).1
    have hx := hbehind x (List.mem_append_right _ (List.mem_singleton_self x))
    rw [← heq, hlast] at hx
    exact Bool.noConfusion hx

/-- **Behind the last `master_done`** is what no turn ended since. -/
theorem mem_drop_behindLastDone {chatEvents : List Event} {ev : Event}
    (hev : MessageEvents.isMasterDone ev = false) :
    ev ∈ chatEvents.drop (behindLastDone chatEvents) ↔ NoDoneAfter chatEvents ev := by
  induction chatEvents using List.reverseRecOn with
  | nil =>
    refine ⟨fun h => absurd h List.not_mem_nil, fun ⟨before, behind, h, _⟩ => ?_⟩
    exact absurd h.symm (List.append_ne_nil_of_right_ne_nil _ (List.cons_ne_nil _ _))
  | append_singleton evs last ih =>
    rw [behindLastDone_concat]
    by_cases hlast : MessageEvents.isMasterDone last = true
    · rw [if_pos hlast, List.drop_of_length_le (by rw [List.length_append]; rfl)]
      exact ⟨fun h => absurd h List.not_mem_nil, fun h =>
        absurd h (not_noDoneAfter_concat hlast hev)⟩
    · rw [if_neg hlast, List.drop_append_of_le_length (behindLastDone_le evs),
        List.mem_append, ih, List.mem_singleton,
        noDoneAfter_concat (Bool.not_eq_true _ ▸ hlast)]

/-! ## The identity pass -/

/-- **The record of a turn under way**, in the session's metadata. -/
structure MasterRunRecord where
  /-- The process id. -/
  pid : Option ℕ
  /-- When the process started, as the host tells it. -/
  pidStart : Option String
  startedAt : ℤ
  /-- The message the turn answers. -/
  userEventId : Option String

/-- A message id that says something. -/
def truthyId (id : Option String) : Option String := id.filter fun s => s != ""

/-- What the identity pass finds about a recorded turn. -/
structure RunFacts where
  /-- The type of the session's backend, if its option is there. -/
  option : Option BackendType
  host : Runs.Host
  /-- The turn's raw log. -/
  raw : Option Runs.RawLog
  now : ℤ

/-- What the identity pass does with a recorded turn. -/
inductive Verdict where
  /-- This process started it: it is spared. -/
  | spared
  /-- It is alive but cannot be followed: it is reported and left. -/
  | leftRunning
  | followed
  | cleared
  deriving DecidableEq

/-- **The identity judgment** on a recorded turn. -/
def judgeRecord (bootTime : ℤ) (facts : RunFacts) (record : MasterRunRecord) : Verdict :=
  if bootTime ≤ record.startedAt then .spared
  else match facts.option with
    | none =>
      if Runs.isRunAlive facts.host record.pid record.pidStart (some record.startedAt) then
        .leftRunning
      else .cleared
    | some backendType =>
      let resolution := Runs.resolveRun facts.raw record.pid record.pidStart
        (some record.startedAt) backendType facts.host facts.now
      if resolution.outcome = .running ∧ (resolution.reason = Runs.uncoveredAliveReason
          ∨ resolution.reason = Runs.rawMissingAliveReason) then .leftRunning
      else if resolution.outcome = .completed ∨ resolution.outcome = .running
          ∨ resolution.outcome = .stalled
          ∨ (resolution.outcome = .died ∧ resolution.reason = Runs.diedWithoutResultReason
            ∧ truthyId record.userEventId = none) then .followed
      else .cleared

/-! ## A session's turns as a system -/

/-- A piece of work for the session's consumer. -/
structure WorkItem where
  /-- The message it answers. -/
  userEventId : Option String
  /-- The recorded turn it follows, if it follows one. -/
  resumeRecord : Option MasterRunRecord := none

inductive Turn where
  | idle
  | running (item : WorkItem)
  /-- Its `master_done` is saved, its record not yet cleared. -/
  | done (item : WorkItem)

def Turn.item : Turn → Option WorkItem
  | .idle => none
  | .running item => some item
  | .done item => some item

/-- **A session and its master turns.** -/
structure MasterState where
  chatEvents : List Event := []
  /-- The record of a turn under way, in the metadata. -/
  masterRun : Option MasterRunRecord := none
  /-- When the process was started. -/
  bootTime : ℤ := 0
  /-- The latest time seen. -/
  clock : ℤ := 0
  /-- Calls of `run_message` that have not reached the queue. -/
  calls : List WorkItem := []
  queue : List WorkItem := []
  turn : Turn := .idle
  /-- The messages the identity pass excludes, once it has run. -/
  excluded : Option (List String) := none
  /-- The messages whose recorded turn it follows. -/
  followed : List String := []
  /-- The messages whose recorded turn it left running. -/
  leftRunning : List String := []
  /-- The messages whose recorded turn it found to be this process's own. -/
  spared : List String := []
  /-- Whether the replay pass has run. -/
  hasReplayed : Bool := false
  /-- The messages it redelivered. -/
  replayed : List Event := []

/-- What happens next. -/
inductive MasterAction where
  /-- A user message is saved; the call that saved it goes on to the queue. -/
  | saveUserEvent (ev : Event)
  | saveEvent (ev : Event)
  /-- A call of `run_message` without a message. -/
  | wake
  /-- A call reaches the queue. -/
  | enqueue (k : ℕ)
  /-- The consumer takes the next item. -/
  | startTurn
  /-- The turn's process is spawned and recorded. -/
  | spawn (pid : Option ℕ) (pidStart : Option String) (startedAt : ℤ)
  /-- The turn's `master_done` is saved. -/
  | finishTurn (exitCode : ℤ)
  /-- The record of the finished turn is cleared. -/
  | clearRecord
  | failTurn
  /-- A recorded turn of no consumer is cancelled. -/
  | cancelMaster
  /-- The process stops, and starts again. -/
  | crash (bootTime : ℤ)
  | reconcileMasterIdentity (facts : RunFacts)
  /-- The replay pass; the backend takes messages, or is a terminal. -/
  | replayUnanswered (backendType : Option BackendType)

/-- A turn's `master_done` event. -/
def masterDoneEvent (item : WorkItem) (exitCode : ℤ) (stillThinking : Bool) : Event :=
  let base : Event := [("type", .str ET.masterDone), ("exit_code", .int exitCode),
    (ET.stillThinking, .bool stillThinking)]
  match truthyId item.userEventId with
  | some id => base ++ [(ET.inputEventId, .str id)]
  | none => base

/-- The messages this process owns: running or queued. -/
def MasterState.queuedUserEventIds (s : MasterState) : List String :=
  (s.turn.item.toList ++ s.queue).filterMap fun item => truthyId item.userEventId

/-- **Queues a recorded turn to be followed.** -/
def MasterState.enqueueMasterResume (s : MasterState) (record : MasterRunRecord) :
    MasterState :=
  { s with
    queue := s.queue ++ [{ userEventId := record.userEventId, resumeRecord := some record }]
    followed := (truthyId record.userEventId).toList }

/-- **The identity pass** on the session. -/
def MasterState.reconcileMasterIdentity (s : MasterState) (facts : RunFacts) : MasterState :=
  match s.masterRun with
  | none => { s with excluded := some [] }
  | some record =>
    let own := (truthyId record.userEventId).toList
    match judgeRecord s.bootTime facts record with
    | .spared => { s with spared := own, excluded := some own }
    | .leftRunning => { s with leftRunning := own, excluded := some own }
    | .followed => { s.enqueueMasterResume record with excluded := some own }
    | .cleared => { s with masterRun := none, excluded := some [] }

/-- The call a redelivered message makes: one with no text is unusable, and
a terminal takes none. -/
def replayUserMessage (backendType : Option BackendType) (ev : Event) : Option WorkItem :=
  if backendType = some .tuiCli then none
  else match (ev.get "content").asText with
    | some content =>
      if content.isEmpty then none else some { userEventId := (ev.get "id").asText }
    | none => none

/-- **The replay pass** on the session. -/
def MasterState.replayUnanswered (s : MasterState) (excluded : List String)
    (backendType : Option BackendType) : MasterState :=
  let unanswered := unansweredUserEvents s.chatEvents (excluded ++ s.queuedUserEventIds)
  { s with
    hasReplayed := true
    replayed := unanswered.filter fun ev => (replayUserMessage backendType ev).isSome
    calls := s.calls ++ unanswered.filterMap (replayUserMessage backendType) }

namespace MasterState

/-- **One step of the session.** -/
def step (s : MasterState) : MasterAction → Option MasterState
  | .saveUserEvent ev =>
    match userId ev with
    | some id =>
      -- a new id is none of the log's
      if id = "" ∨ s.chatEvents.any (fun e => (e.get "id").asText == some id) then none
      else some { s with
        chatEvents := s.chatEvents ++ [ev]
        calls := s.calls ++ [{ userEventId := some id }] }
    | none => none
  | .saveEvent ev =>
    if isUserMessage ev || MessageEvents.isMasterDone ev then none
    else some { s with chatEvents := s.chatEvents ++ [ev] }
  | .wake => some { s with calls := s.calls ++ [{ userEventId := none }] }
  | .enqueue k =>
    match s.calls[k]? with
    | some item => some { s with calls := s.calls.eraseIdx k, queue := s.queue ++ [item] }
    | none => none
  | .startTurn =>
    match s.turn, s.queue with
    | .idle, item :: rest => some { s with turn := .running item, queue := rest }
    | _, _ => none
  | .spawn pid pidStart startedAt =>
    match s.turn with
    | .running item =>
      if item.resumeRecord.isSome ∨ startedAt < s.clock then none
      else
        let record : MasterRunRecord :=
          { pid, pidStart, startedAt, userEventId := item.userEventId }
        some { s with masterRun := some record, clock := startedAt }
    | _ => none
  | .finishTurn exitCode =>
    match s.turn with
    | .running item =>
      let event := masterDoneEvent item exitCode (!s.queue.isEmpty)
      some { s with chatEvents := s.chatEvents ++ [event], turn := .done item }
    | _ => none
  | .clearRecord =>
    match s.turn with
    | .done _ => some { s with masterRun := none, turn := .idle }
    | _ => none
  | .failTurn =>
    match s.turn with
    | .idle => none
    | _ => some { s with turn := .idle }
  | .cancelMaster =>
    match s.turn with
    | .idle => some { s with masterRun := none }
    | _ => none
  | .crash bootTime =>
    if s.clock < bootTime then
      some { chatEvents := s.chatEvents, masterRun := s.masterRun, bootTime, clock := bootTime }
    else none
  | .reconcileMasterIdentity facts =>
    match s.excluded with
    | none => some (s.reconcileMasterIdentity facts)
    | some _ => none
  | .replayUnanswered backendType =>
    match s.excluded, s.hasReplayed with
    | some excluded, false => some (s.replayUnanswered excluded backendType)
    | _, _ => none

/-- A session's turns as a transition system. -/
def system : TransitionSystem MasterState MasterAction := ⟨step⟩

/-! ## What holds of the log and of what is under way -/

def items (s : MasterState) : List WorkItem := s.calls ++ s.queue ++ s.turn.item.toList

/-- A message is saved once, and before its answer. -/
def Precedes (a b : Event) : Prop :=
  ∀ id, userId a = some id ∨ answeredId a = some id → userId b ≠ some id

/-- **What holds at any time.** -/
structure Inv (s : MasterState) : Prop where
  /-- Every message is saved once, and before its answers. -/
  ordered : s.chatEvents.Pairwise Precedes
  answered : ∀ id, Answered s.chatEvents id → Saved s.chatEvents id
  /-- What this process works on is saved. -/
  items : ∀ item ∈ s.items, ∀ id, item.userEventId = some id → Saved s.chatEvents id
  /-- What the recorded turn answers is saved. -/
  record : ∀ record, s.masterRun = some record →
    ∀ id, record.userEventId = some id → Saved s.chatEvents id
  /-- The identity pass excludes what it follows, leaves or spares. -/
  excluded : ∀ ids, s.excluded = some ids →
    ∀ id, id ∈ ids ↔ id ∈ s.followed ∨ id ∈ s.leftRunning ∨ id ∈ s.spared
  /-- Before it there is nothing of the kind. -/
  unjudged : s.excluded = none → s.followed = [] ∧ s.leftRunning = [] ∧ s.spared = []

theorem mem_items {s : MasterState} {item : WorkItem} :
    item ∈ s.items ↔ item ∈ s.calls ∨ item ∈ s.queue ∨ s.turn.item = some item := by
  unfold MasterState.items
  rw [List.mem_append, List.mem_append, Option.mem_toList, or_assoc]

theorem saved_append {chatEvents : List Event} {id : String} (h : Saved chatEvents id)
    (events : List Event) : Saved (chatEvents ++ events) id := by
  obtain ⟨ev, hev, hid⟩ := h
  exact ⟨ev, List.mem_append_left _ hev, hid⟩

theorem userId_eq_some {ev : Event} {id : String} (h : userId ev = some id) :
    isUserMessage ev = true ∧ (ev.get "id").asText = some id := by
  unfold userId at h
  split at h
  · next hmsg => exact ⟨hmsg, h⟩
  · cases h

theorem answeredId_eq_none {ev : Event} (h : MessageEvents.isMasterDone ev = false) :
    answeredId ev = none := by
  unfold answeredId
  rw [h]
  rfl

theorem truthyId_eq_some {id : Option String} {s : String} (h : truthyId id = some s) :
    id = some s := (Option.filter_eq_some_iff.mp h).1

/-- **A turn's `master_done` names the message it answers.** -/
theorem answeredId_masterDoneEvent (item : WorkItem) (exitCode : ℤ) (stillThinking : Bool) :
    answeredId (masterDoneEvent item exitCode stillThinking)
      = truthyId item.userEventId := by
  unfold masterDoneEvent
  cases truthyId item.userEventId <;> rfl

theorem isMasterDone_masterDoneEvent (item : WorkItem) (exitCode : ℤ) (stillThinking : Bool) :
    MessageEvents.isMasterDone (masterDoneEvent item exitCode stillThinking) = true := by
  unfold masterDoneEvent
  cases truthyId item.userEventId <;> rfl

theorem userId_of_isMasterDone {ev : Event} (h : MessageEvents.isMasterDone ev = true) :
    userId ev = none := by
  by_contra hsome
  obtain ⟨id, hid⟩ := Option.ne_none_iff_exists'.mp hsome
  rw [isMasterDone_of_isUserMessage (userId_eq_some hid).1] at h
  exact Bool.noConfusion h

variable {s s' : MasterState}

/-- **A saved event keeps what holds**, if it is none of a message that is
there, and answers only one that is. -/
theorem Inv.saved (h : s.Inv) {ev : Event}
    (hnew : ∀ id, userId ev = some id → ¬ Saved s.chatEvents id)
    (hanswer : ∀ id, answeredId ev = some id → Saved s.chatEvents id) :
    (s.chatEvents ++ [ev]).Pairwise Precedes
      ∧ ∀ id, Answered (s.chatEvents ++ [ev]) id → Saved (s.chatEvents ++ [ev]) id := by
  constructor
  · rw [List.pairwise_append]
    refine ⟨h.ordered, List.pairwise_singleton _ _, fun a ha b hb id hid heq => ?_⟩
    rw [List.mem_singleton.mp hb] at heq
    rcases hid with hid | hid
    · exact hnew id heq ⟨a, ha, hid⟩
    · exact hnew id heq (h.answered id ⟨a, ha, hid⟩)
  · rintro id ⟨done, hdone, hid⟩
    rcases List.mem_append.mp hdone with hdone | hdone
    · exact saved_append (h.answered id ⟨done, hdone, hid⟩) _
    · rw [List.mem_singleton.mp hdone] at hid
      exact saved_append (hanswer id hid) _

theorem Inv.keepItems (h : s.Inv) {item : WorkItem} (hitem : item ∈ s.items) (ev : Event) :
    ∀ id, item.userEventId = some id → Saved (s.chatEvents ++ [ev]) id :=
  fun id hid => saved_append (h.items item hitem id hid) _

theorem Inv.keepRecord (h : s.Inv) (ev : Event) : ∀ record, s.masterRun = some record →
    ∀ id, record.userEventId = some id → Saved (s.chatEvents ++ [ev]) id :=
  fun record hrecord id hid => saved_append (h.record record hrecord id hid) _

theorem Inv.ofItems (h : s.Inv)
    (hitems : ∀ item ∈ s'.items, item ∈ s.items
      ∨ ∀ id, item.userEventId = some id → Saved s.chatEvents id)
    (hrecord : ∀ record, s'.masterRun = some record → s.masterRun = some record
      ∨ ∀ id, record.userEventId = some id → Saved s.chatEvents id)
    (hlog : s'.chatEvents = s.chatEvents) (hexcluded : s'.excluded = s.excluded)
    (howned : s'.followed = s.followed ∧ s'.leftRunning = s.leftRunning
      ∧ s'.spared = s.spared) : s'.Inv := by
  obtain ⟨hfollowed, hleft, hspared⟩ := howned
  refine ⟨by rw [hlog]; exact h.ordered, by rw [hlog]; exact h.answered,
    fun item hitem => ?_, fun record hr => ?_, ?_, ?_⟩
  · rw [hlog]
    rcases hitems item hitem with hitem | hitem
    · exact h.items item hitem
    · exact hitem
  · rw [hlog]
    rcases hrecord record hr with hr | hr
    · exact h.record record hr
    · exact hr
  · rw [hexcluded, hfollowed, hleft, hspared]
    exact h.excluded
  · rw [hexcluded, hfollowed, hleft, hspared]
    exact h.unjudged

theorem Inv.reconcileMasterIdentity (h : s.Inv) (hfirst : s.excluded = none)
    (facts : RunFacts) : (s.reconcileMasterIdentity facts).Inv := by
  obtain ⟨hfollowed, hleft, hspared⟩ := h.unjudged hfirst
  unfold MasterState.reconcileMasterIdentity
  split
  · refine ⟨h.ordered, h.answered, h.items, h.record, fun ids hids id => ?_,
      fun h => (by cases h)⟩
    cases hids
    simp [hfollowed, hleft, hspared]
  · next record hrecord =>
    dsimp only
    split
    · refine ⟨h.ordered, h.answered, h.items, h.record, fun ids hids id => ?_,
        fun h => (by cases h)⟩
      cases hids
      simp [hfollowed, hleft]
    · refine ⟨h.ordered, h.answered, h.items, h.record, fun ids hids id => ?_,
        fun h => (by cases h)⟩
      cases hids
      simp [hfollowed, hspared]
    · refine ⟨h.ordered, h.answered, fun item hitem id hid => ?_, h.record,
        fun ids hids id => ?_, fun h => (by cases h)⟩
      · rw [mem_items] at hitem
        rcases hitem with hitem | hitem | hitem
        · exact h.items item (mem_items.mpr (.inl hitem)) id hid
        · rcases List.mem_append.mp hitem with hitem | hitem
          · exact h.items item (mem_items.mpr (.inr (.inl hitem))) id hid
          · rw [List.mem_singleton.mp hitem] at hid
            exact h.record record hrecord id hid
        · exact h.items item (mem_items.mpr (.inr (.inr hitem))) id hid
      · cases hids
        simp [enqueueMasterResume, hleft, hspared]
    · refine ⟨h.ordered, h.answered, h.items, fun _ h => (by cases h), fun ids hids id => ?_,
        fun h => (by cases h)⟩
      cases hids
      simp [hfollowed, hleft, hspared]

theorem mem_of_mem_unanswered {chatEvents : List Event} {ids : List String} {ev : Event}
    (h : ev ∈ unansweredUserEvents chatEvents ids) : ev ∈ chatEvents
      ∧ isUserMessage ev = true := by
  obtain ⟨hmem, hev⟩ := List.mem_filter.mp h
  rw [Bool.and_eq_true] at hev
  exact ⟨List.mem_of_mem_drop hmem, hev.1⟩

theorem userEventId_replayUserMessage {backendType : Option BackendType} {ev : Event}
    {item : WorkItem} (h : replayUserMessage backendType ev = some item) :
    item.userEventId = (ev.get "id").asText := by
  unfold replayUserMessage at h
  split at h
  · cases h
  · split at h
    · split at h
      · cases h
      · cases h
        rfl
    · cases h

theorem Inv.step (h : s.Inv) {a : MasterAction} (hstep : s.step a = some s') : s'.Inv := by
  cases a with
  | saveUserEvent ev =>
    simp only [MasterState.step] at hstep
    split at hstep
    · next id hid =>
      split at hstep
      · cases hstep
      · next hfresh =>
        cases hstep
        rw [not_or, List.any_eq_true] at hfresh
        have hnew : ∀ id', userId ev = some id' → ¬ Saved s.chatEvents id' := by
          rintro id' hid' ⟨e, he, heid⟩
          rw [hid] at hid'
          cases hid'
          exact hfresh.2 ⟨e, he, by rw [(userId_eq_some heid).2]; exact beq_self_eq_true _⟩
        have hanswer : ∀ id', answeredId ev = some id' → Saved s.chatEvents id' := by
          intro id' hid'
          rw [answeredId_eq_none
            (isMasterDone_of_isUserMessage (userId_eq_some hid).1)] at hid'
          cases hid'
        obtain ⟨hordered, hanswered⟩ := h.saved hnew hanswer
        refine ⟨hordered, hanswered, fun item hitem id' hid' => ?_, h.keepRecord ev,
          h.excluded, h.unjudged⟩
        rw [mem_items] at hitem
        rcases hitem with hitem | hitem | hitem
        · rcases List.mem_append.mp hitem with hitem | hitem
          · exact h.keepItems (mem_items.mpr (.inl hitem)) ev id' hid'
          · rw [List.mem_singleton.mp hitem] at hid'
            exact ⟨ev, List.mem_append_right _ (List.mem_singleton_self ev), hid.trans hid'⟩
        · exact h.keepItems (mem_items.mpr (.inr (.inl hitem))) ev id' hid'
        · exact h.keepItems (mem_items.mpr (.inr (.inr hitem))) ev id' hid'
    · cases hstep
  | saveEvent ev =>
    simp only [MasterState.step] at hstep
    split at hstep
    · cases hstep
    · next hother =>
      cases hstep
      rw [Bool.or_eq_true, not_or, Bool.not_eq_true, Bool.not_eq_true] at hother
      obtain ⟨hordered, hanswered⟩ := @Inv.saved _ h ev
        (fun id hid => by rw [(userId_eq_some hid).1] at hother; cases hother.1)
        (fun id hid => by rw [answeredId_eq_none hother.2] at hid; cases hid)
      exact ⟨hordered, hanswered, fun item hitem => h.keepItems hitem ev, h.keepRecord ev,
        h.excluded, h.unjudged⟩
  | wake =>
    cases hstep
    refine h.ofItems (fun item hitem => ?_) (fun _ hr => .inl hr) rfl rfl ⟨rfl, rfl, rfl⟩
    rw [mem_items] at hitem
    rcases hitem with hitem | hitem
    · rcases List.mem_append.mp hitem with hitem | hitem
      · exact .inl (mem_items.mpr (.inl hitem))
      · rw [List.mem_singleton.mp hitem]
        exact .inr fun _ hid => (by cases hid)
    · exact .inl (mem_items.mpr (.inr hitem))
  | enqueue k =>
    simp only [MasterState.step] at hstep
    split at hstep
    · next item hitem =>
      cases hstep
      have hmem : item ∈ s.calls := List.mem_of_getElem? hitem
      refine h.ofItems (fun x hx => .inl ?_) (fun _ hr => .inl hr) rfl rfl ⟨rfl, rfl, rfl⟩
      rw [mem_items] at hx ⊢
      rcases hx with hx | hx | hx
      · exact .inl (List.mem_of_mem_eraseIdx hx)
      · rcases List.mem_append.mp hx with hx | hx
        · exact .inr (.inl hx)
        · rw [List.mem_singleton.mp hx]
          exact .inl hmem
      · exact .inr (.inr hx)
    · cases hstep
  | startTurn =>
    simp only [MasterState.step] at hstep
    split at hstep
    · next item rest hturn hqueue =>
      cases hstep
      refine h.ofItems (fun x hx => .inl ?_) (fun _ hr => .inl hr) rfl rfl ⟨rfl, rfl, rfl⟩
      rw [mem_items] at hx ⊢
      rw [hqueue]
      rcases hx with hx | hx | hx
      · exact .inl hx
      · exact .inr (.inl (List.mem_cons_of_mem _ hx))
      · cases hx
        exact .inr (.inl List.mem_cons_self)
    · cases hstep
  | spawn pid pidStart startedAt =>
    simp only [MasterState.step] at hstep
    split at hstep
    · next item hturn =>
      split at hstep
      · cases hstep
      · cases hstep
        refine h.ofItems (fun x hx => .inl hx) (fun record hr => .inr ?_) rfl rfl
          ⟨rfl, rfl, rfl⟩
        cases hr
        exact h.items item (mem_items.mpr (.inr (.inr (by rw [hturn]; rfl))))
    · cases hstep
  | finishTurn exitCode =>
    simp only [MasterState.step] at hstep
    split at hstep
    · next item hturn =>
      cases hstep
      have hitem : item ∈ s.items := mem_items.mpr (.inr (.inr (by rw [hturn]; rfl)))
      obtain ⟨hordered, hanswered⟩ := @Inv.saved _ h
        (masterDoneEvent item exitCode (!s.queue.isEmpty))
        (fun id hid => by
          rw [userId_of_isMasterDone (isMasterDone_masterDoneEvent ..)] at hid
          cases hid)
        (fun id hid => by
          rw [answeredId_masterDoneEvent] at hid
          exact h.items item hitem id (truthyId_eq_some hid))
      refine ⟨hordered, hanswered, fun x hx => h.keepItems ?_ _, h.keepRecord _, h.excluded,
        h.unjudged⟩
      rw [mem_items] at hx ⊢
      rw [hturn]
      exact hx
    · cases hstep
  | clearRecord =>
    simp only [MasterState.step] at hstep
    split at hstep
    · cases hstep
      refine h.ofItems (fun x hx => .inl ?_) (fun _ hr => by cases hr) rfl rfl ⟨rfl, rfl, rfl⟩
      rw [mem_items] at hx ⊢
      exact hx.imp_right fun hx => hx.imp_right fun hx => by cases hx
    · cases hstep
  | failTurn =>
    simp only [MasterState.step] at hstep
    split at hstep
    · cases hstep
    · cases hstep
      refine h.ofItems (fun x hx => .inl ?_) (fun _ hr => .inl hr) rfl rfl ⟨rfl, rfl, rfl⟩
      rw [mem_items] at hx ⊢
      exact hx.imp_right fun hx => hx.imp_right fun hx => by cases hx
  | cancelMaster =>
    simp only [MasterState.step] at hstep
    split at hstep
    · cases hstep
      exact h.ofItems (fun x hx => .inl hx) (fun _ hr => by cases hr) rfl rfl ⟨rfl, rfl, rfl⟩
    · cases hstep
  | crash bootTime =>
    simp only [MasterState.step] at hstep
    split at hstep
    · cases hstep
      exact ⟨h.ordered, h.answered, fun x hx => absurd hx List.not_mem_nil, h.record,
        fun _ hids => (by cases hids), fun _ => ⟨rfl, rfl, rfl⟩⟩
    · cases hstep
  | reconcileMasterIdentity facts =>
    simp only [MasterState.step] at hstep
    split at hstep
    · next hfirst =>
      cases hstep
      exact h.reconcileMasterIdentity hfirst facts
    · cases hstep
  | replayUnanswered backendType =>
    simp only [MasterState.step] at hstep
    split at hstep
    · next excluded hexcluded _ =>
      cases hstep
      refine h.ofItems (fun x hx => ?_) (fun _ hr => .inl hr) rfl rfl ⟨rfl, rfl, rfl⟩
      rw [mem_items] at hx
      rcases hx with hx | hx
      · rcases List.mem_append.mp hx with hx | hx
        · exact .inl (mem_items.mpr (.inl hx))
        · obtain ⟨ev, hev, hitem⟩ := List.mem_filterMap.mp hx
          obtain ⟨hmem, hmsg⟩ := mem_of_mem_unanswered hev
          refine .inr fun id hid => ⟨ev, hmem, ?_⟩
          rw [userEventId_replayUserMessage hitem] at hid
          unfold userId
          rw [if_pos hmsg]
          exact hid
      · exact .inl (mem_items.mpr (.inr hx))
    · cases hstep

/-! ## The replay pass -/

/-- **The message is owned**: its recorded turn is followed, was left
running, or is this process's own, or this process has it queued. -/
def Owns (s : MasterState) (id : String) : Prop :=
  id ∈ s.followed ∨ id ∈ s.leftRunning ∨ id ∈ s.spared ∨ id ∈ s.queuedUserEventIds

/-- The message says something. -/
def HasText (ev : Event) : Prop := ∃ content, (ev.get "content").asText = some content ∧ content ≠ ""

theorem isSome_replayUserMessage {backendType : Option BackendType} {ev : Event}
    (htui : backendType ≠ some .tuiCli) (htext : HasText ev) :
    (replayUserMessage backendType ev).isSome = true := by
  obtain ⟨content, hcontent, hne⟩ := htext
  unfold replayUserMessage
  rw [if_neg htui, hcontent]
  dsimp only
  rw [if_neg (by rw [String.isEmpty_iff]; exact hne)]
  rfl

theorem idIn_eq {ids : List String} {ev : Event} {id : String} (h : userId ev = some id) :
    idIn ids ev = ids.contains id := by
  unfold idIn
  rw [(userId_eq_some h).2]

/-- **What the replay pass redelivers**: the messages behind the last
`master_done` that are not owned. -/
theorem Inv.mem_replayed (h : s.Inv) {backendType : Option BackendType}
    (hstep : s.step (.replayUnanswered backendType) = some s')
    (htui : backendType ≠ some .tuiCli) {ev : Event} {id : String} (hid : userId ev = some id)
    (htext : HasText ev) : ev ∈ s'.replayed ↔ NoDoneAfter s.chatEvents ev ∧ ¬ s.Owns id := by
  simp only [MasterState.step] at hstep
  split at hstep
  · next excluded hexcluded _ =>
    cases hstep
    have hmsg := (userId_eq_some hid).1
    have hown : (excluded ++ s.queuedUserEventIds).contains id = true ↔ s.Owns id := by
      rw [List.contains_iff_mem, List.mem_append, h.excluded excluded hexcluded id, or_assoc,
        or_assoc]
      rfl
    show ev ∈ (unansweredUserEvents _ _).filter _ ↔ _
    unfold unansweredUserEvents
    rw [List.mem_filter, List.mem_filter,
      mem_drop_behindLastDone (isMasterDone_of_isUserMessage hmsg), idIn_eq hid, hmsg,
      Bool.true_and, Bool.not_eq_true', ← Bool.not_eq_true, hown]
    exact ⟨fun h => h.1, fun h => ⟨h, isSome_replayUserMessage htui htext⟩⟩
  · cases hstep

theorem replayed_sublist {backendType : Option BackendType}
    (hstep : s.step (.replayUnanswered backendType) = some s') :
    List.Sublist s'.replayed (s.chatEvents.drop (behindLastDone s.chatEvents)) := by
  simp only [MasterState.step] at hstep
  split at hstep
  · cases hstep
    exact List.filter_sublist.trans List.filter_sublist
  · cases hstep

/-- **No answered message comes behind the last `master_done`.** -/
theorem Inv.not_answered (h : s.Inv) {ev : Event} {id : String} (hid : userId ev = some id)
    (hmem : ev ∈ s.chatEvents.drop (behindLastDone s.chatEvents)) :
    ¬ Answered s.chatEvents id := by
  rintro ⟨done, hdone, hanswer⟩
  have hisdone : MessageEvents.isMasterDone done = true := by
    by_contra hnot
    rw [answeredId_eq_none (Bool.not_eq_true _ ▸ hnot)] at hanswer
    cases hanswer
  obtain ⟨before, behind, hlog, hbehind⟩ := (mem_drop_behindLastDone
    (isMasterDone_of_isUserMessage (userId_eq_some hid).1)).mp hmem
  have hordered := h.ordered
  rw [hlog] at hdone hordered
  rcases List.mem_append.mp hdone with hdone | hdone
  · exact (List.pairwise_append.mp hordered).2.2 done hdone ev List.mem_cons_self id
      (.inr hanswer) hid
  · rcases List.mem_cons.mp hdone with rfl | hdone
    · rw [isMasterDone_of_isUserMessage (userId_eq_some hid).1] at hisdone
      exact Bool.noConfusion hisdone
    · rw [hbehind done hdone] at hisdone
      exact Bool.noConfusion hisdone

/-! ## Every run -/

theorem inv_initial : ({} : MasterState).Inv :=
  ⟨List.Pairwise.nil, fun _ ⟨_, h, _⟩ => absurd h List.not_mem_nil,
    fun _ h => absurd h List.not_mem_nil, fun _ h => (by cases h), fun _ h => (by cases h),
    fun _ => ⟨rfl, rfl, rfl⟩⟩

theorem inv_of_run {as : List MasterAction} (hrun : system.run {} as = some s) : s.Inv :=
  system.run_invariant (I := Inv) (fun _ _ _ h hstep => h.step hstep) inv_initial as hrun

/-- **Every message that no turn ended since is owned or replayed, never
both, and no answered message is replayed.** This is so after any history
of messages, wakes, turns that finish, fail or are cancelled, and crashes,
and whatever happens between the two passes. No message is replayed
twice. -/
theorem replayed_iff_not_owned {as : List MasterAction} {backendType : Option BackendType}
    (hrun : system.run {} as = some s)
    (hstep : s.step (.replayUnanswered backendType) = some s')
    (htui : backendType ≠ some .tuiCli) :
    (∀ ev id, userId ev = some id → HasText ev → NoDoneAfter s.chatEvents ev →
      (s.Owns id ∧ ev ∉ s'.replayed) ∨ (¬ s.Owns id ∧ ev ∈ s'.replayed)) ∧
    (∀ ev ∈ s'.replayed, ∀ id, userId ev = some id → ¬ Answered s.chatEvents id) ∧
    s'.replayed.Pairwise fun a b => ∀ id, userId a = some id → userId b ≠ some id := by
  have h := inv_of_run hrun
  have hsub := replayed_sublist hstep
  refine ⟨fun ev id hid htext hafter => ?_, fun ev hev id hid => ?_, ?_⟩
  · have hiff := h.mem_replayed hstep htui hid htext
    by_cases hown : s.Owns id
    · exact .inl ⟨hown, fun hev => (hiff.mp hev).2 hown⟩
    · exact .inr ⟨hown, hiff.mpr ⟨hafter, hown⟩⟩
  · exact h.not_answered hid (hsub.subset hev)
  · have hordered : s'.replayed.Pairwise Precedes :=
      h.ordered.sublist (hsub.trans (List.drop_sublist _ _))
    exact hordered.imp fun hab id hid => hab id (.inl hid)

/-- **The condition on a step.** No turn ends while a message other than
its own waits for an answer. -/
def NoneWaits (s : MasterState) : MasterAction → Prop
  | .finishTurn _ => ∀ ev ∈ s.chatEvents, ∀ id, userId ev = some id →
      Answered s.chatEvents id ∨ (s.turn.item.bind fun item => truthyId item.userEventId) = some id
  | _ => True

/-- Every message with no answer of its own comes behind the last end of a
turn. -/
def WaitsBehind (s : MasterState) : Prop :=
  ∀ ev ∈ s.chatEvents, ∀ id, userId ev = some id →
    Answered s.chatEvents id ∨ NoDoneAfter s.chatEvents ev

theorem WaitsBehind.save (h : s.WaitsBehind) {ev : Event}
    (hev : MessageEvents.isMasterDone ev = false) (hlog : s'.chatEvents = s.chatEvents ++ [ev]) :
    s'.WaitsBehind := by
  unfold WaitsBehind
  rw [hlog]
  intro e he id hid
  rw [noDoneAfter_concat hev]
  rcases List.mem_append.mp he with he | he
  · rcases h e he id hid with ⟨done, hdone, hanswer⟩ | hafter
    · exact .inl ⟨done, List.mem_append_left _ hdone, hanswer⟩
    · exact .inr (.inl hafter)
  · exact .inr (.inr (List.mem_singleton.mp he))

theorem chatEvents_reconcileMasterIdentity (s : MasterState) (facts : RunFacts) :
    (s.reconcileMasterIdentity facts).chatEvents = s.chatEvents := by
  unfold MasterState.reconcileMasterIdentity
  split
  · rfl
  · dsimp only
    split <;> rfl

theorem WaitsBehind.step (h : s.WaitsBehind) {a : MasterAction} (ha : s.NoneWaits a)
    (hstep : s.step a = some s') : s'.WaitsBehind := by
  have hkeep : s'.chatEvents = s.chatEvents → s'.WaitsBehind := fun hlog => by
    unfold WaitsBehind
    rw [hlog]
    exact h
  cases a with
  | saveUserEvent ev =>
    simp only [MasterState.step] at hstep
    split at hstep
    · next id hid =>
      split at hstep
      · cases hstep
      · cases hstep
        exact h.save (isMasterDone_of_isUserMessage (userId_eq_some hid).1) rfl
    · cases hstep
  | saveEvent ev =>
    simp only [MasterState.step] at hstep
    split at hstep
    · cases hstep
    · next hother =>
      cases hstep
      rw [Bool.or_eq_true, not_or, Bool.not_eq_true, Bool.not_eq_true] at hother
      exact h.save hother.2 rfl
  | finishTurn exitCode =>
    simp only [MasterState.step] at hstep
    split at hstep
    · next item hturn =>
      cases hstep
      intro ev hev id hid
      rcases List.mem_append.mp hev with hev | hev
      · rcases ha ev hev id hid with ⟨done, hdone, hanswer⟩ | hown
        · exact .inl ⟨done, List.mem_append_left _ hdone, hanswer⟩
        · refine .inl ⟨_, List.mem_append_right _ (List.mem_singleton_self _), ?_⟩
          rw [answeredId_masterDoneEvent]
          rw [hturn] at hown
          exact hown
      · rw [List.mem_singleton.mp hev,
          userId_of_isMasterDone (isMasterDone_masterDoneEvent ..)] at hid
        cases hid
    · cases hstep
  | wake =>
    cases hstep
    exact hkeep rfl
  | reconcileMasterIdentity facts =>
    simp only [MasterState.step] at hstep
    split at hstep
    · cases hstep
      exact hkeep (chatEvents_reconcileMasterIdentity s facts)
    · cases hstep
  | _ =>
    simp only [MasterState.step] at hstep
    repeat' split at hstep
    all_goals cases hstep
    all_goals exact hkeep rfl

def hello (id : String) : Event :=
  [("type", .str ET.user), ("content", .str "hello"), ("id", .str id)]

def oneProcess : Runs.Host := ⟨fun pid => if pid = 7 then some ("100", "S") else none, 0⟩

/-- A message is saved and its turn started; the process stops before the
turn's is spawned. -/
def stopsBeforeSpawn : List MasterAction :=
  [.saveUserEvent (hello "a"), .enqueue 0, .startTurn, .crash 5,
    .reconcileMasterIdentity ⟨some .ccClaude, oneProcess, none, 6⟩]

theorem replayed_iff_not_owned_stopsBeforeSpawn : ∃ s s',
    system.run {} stopsBeforeSpawn = some s ∧ s.step (.replayUnanswered none) = some s'
      ∧ hello "a" ∈ s'.replayed ∧ ¬ Answered s.chatEvents "a" := by
  obtain ⟨s, hs⟩ : ∃ s, system.run {} stopsBeforeSpawn = some s := ⟨_, rfl⟩
  obtain ⟨s', hs'⟩ : ∃ s', s.step (.replayUnanswered none) = some s' := by
    cases hs
    exact ⟨_, rfl⟩
  obtain ⟨howned, hanswered, -⟩ :=
    replayed_iff_not_owned hs hs' (fun h => (by cases h))
  have hmem : hello "a" ∈ s'.replayed := by
    rcases howned (hello "a") "a" rfl ⟨"hello", rfl, by decide⟩
        (by cases hs; exact ⟨[], [], rfl, fun _ h => absurd h List.not_mem_nil⟩) with
      ⟨hown, -⟩ | ⟨-, hmem⟩
    · cases hs
      rcases hown with h | h | h | h <;> exact absurd h List.not_mem_nil
    · exact hmem
  exact ⟨s, s', hs, hs', hmem, hanswered _ hmem "a" rfl⟩

/-- **A turn that is alive and cannot be followed** is left, and its message
neither followed nor replayed. The backend serves its events itself. -/
theorem alive_turn_left : ∃ s, system.run {}
    [.saveUserEvent (hello "a"), .enqueue 0, .startTurn, .spawn (some 7) (some "100") 1,
      .crash 5, .reconcileMasterIdentity ⟨some .opencode, oneProcess, none, 6⟩,
      .replayUnanswered (some .opencode)] = some s
    ∧ hello "a" ∈ s.chatEvents ∧ ¬ Answered s.chatEvents "a" ∧ "a" ∈ s.leftRunning
    ∧ ¬ (("a" ∈ s.followed ∧ hello "a" ∉ s.replayed)
      ∨ ("a" ∉ s.followed ∧ hello "a" ∈ s.replayed)) := by
  refine ⟨_, rfl, List.mem_singleton_self _, ?_, List.mem_singleton_self _, ?_⟩
  · rintro ⟨done, hdone, hanswer⟩
    rw [List.mem_singleton.mp hdone] at hanswer
    cases hanswer
  · rintro (⟨h, -⟩ | ⟨-, h⟩) <;> exact absurd h List.not_mem_nil

/-- **A queued message is lost** that was saved before the `master_done` of
the turn it waited behind: it has no answer, and is not replayed. -/
theorem queued_event_lost : ∃ s, system.run {}
    [.saveUserEvent (hello "a"), .enqueue 0, .startTurn, .spawn (some 7) (some "100") 1,
      .saveUserEvent (hello "b"), .enqueue 0, .finishTurn 0, .clearRecord, .crash 5,
      .reconcileMasterIdentity ⟨some .ccClaude, oneProcess, none, 6⟩,
      .replayUnanswered (some .ccClaude)] = some s
    ∧ s.chatEvents = [hello "a", hello "b", masterDoneEvent { userEventId := some "a" } 0 true]
    ∧ ¬ Answered s.chatEvents "b" ∧ s.followed = [] ∧ s.replayed = [] := by
  refine ⟨_, rfl, rfl, ?_, rfl, rfl⟩
  rintro ⟨done, hdone, hanswer⟩
  have hlog : done ∈ [hello "a", hello "b",
    masterDoneEvent { userEventId := some "a" } 0 true] := hdone
  rw [List.mem_cons, List.mem_cons, List.mem_singleton] at hlog
  rcases hlog with rfl | rfl | rfl <;> exact absurd hanswer (by decide)

end MasterState
