import CharlieBot.EventTypes
import CharlieBot.Lib.Transition
import Mathlib.Algebra.Order.Ring.Unbundled.Rat

/-!
# A delegated worker that changes accounts

One task of a worker is one process, except on an account of the pool: when that account runs
out, the task goes on as another process on the next account. What the events of a process mean
for its account is folded by a watch. A rejection is remembered until the process has ended;
a warning arms the watch, and the first tool result behind it is where the process is stopped.

Four things are asked of it: the process is stopped only where every call has its result, a
turn that ended is not continued, nothing is started for a task that was cancelled, and there
are not too many processes. The last holds in every run. The first fails where calls are made in
parallel, since one result is taken for all of them (`stopped_amid_calls`); the second where a
rejection was overcome, since it is remembered to the end (`continued_after_rejection`); and
the third because a cancel request stops the process and nothing else (`started_after_cancel`).
They hold in every run in which none of this happens (`relays_right_of_run`).
-/

def ET.rateLimitEvent := "rate_limit_event"
def ET.rateLimitInfo := "rate_limit_info"

namespace WorkerRelay

/-! ## What an event means for the account -/

def maxRelaysPerTurn : ℕ := 3

/-- `RELAY_MIN_RESET_AHEAD`, in seconds. -/
def relayMinResetAhead : ℚ := 2700

def warningUtilization : ℚ := 9 / 10

def authFailureMarker : String := "Failed to authenticate"

/-- What `RelayWatch.decision` may ask for. -/
inductive RelayReason where
  | rejected
  | warning
  | loginFailed
  deriving DecidableEq

/-- The blocks of an event's message, where its content is a list. -/
def contentBlocks (ev : Event) : List Dict :=
  match ev.get "message" with
  | .obj message =>
    match Dict.get message "content" with
    | .arr blocks => blocks.filterMap Json.asDict
    | _ => []
  | _ => []

def isToolResultEvent (ev : Event) : Bool :=
  (ev.get "type").isText ET.user
    && (contentBlocks ev).any fun block => (block.get "type").isText ET.toolResult

def assistantTexts (ev : Event) : List String :=
  (contentBlocks ev).filterMap fun block => (block.get "text").asText

def numberOf : Json → Option ℚ
  | .bool _ => none
  | x => x.asNumber

/-- `datetime.fromtimestamp`, in microseconds; it raises outside the years one to 9999. -/
def fromTimestamp (seconds : ℚ) : Option ℤ :=
  let scaled := seconds * 1000000
  let micros := Json.roundHalfEven scaled.num scaled.den
  if -62135596800000000 ≤ micros ∧ micros < 253402300800000000 then some micros else none

/-- `_reset_far_enough`, at a time in seconds; nothing where it raises. -/
def resetFarEnough (info : Dict) (now : ℚ) : Option Bool :=
  match numberOf (info.get "resetsAt") with
  | none => some true
  | some resetsAt => (fromTimestamp resetsAt).map fun micros =>
      decide (relayMinResetAhead < micros / 1000000 - now)

def eventWindows : List String := ["five_hour", "seven_day"]

/-- The utilizations of the windows of an event. -/
def utilizations (info : Dict) : List ℚ :=
  match info.get "unifiedWindows" with
  | .obj windows => eventWindows.filterMap fun name =>
      match Dict.get windows name with
      | .obj window => numberOf (Dict.get window "utilization")
      | _ => none
  | _ => []

/-- The utilization of the reading `observe_rate_limit` stores, where there is anything to learn;
nothing at all where it raises. -/
def observeRateLimit (info : Dict) : Option (Option ℚ) :=
  let values := utilizations info
  if (info.get "status").isText "rejected" then
    match numberOf (info.get "resetsAt") with
    | none => some (some (values.max?.getD 1))
    | some resetsAt => (fromTimestamp resetsAt).map fun _ => some (values.max?.getD 1)
  else some values.max?

/-! ## The watch -/

structure RelayWatch where
  label : String
  reason : Option RelayReason := none
  armed : Bool := false
  authFailed : Bool := false

namespace RelayWatch

variable (watch : RelayWatch)

/-- Whether a rate-limit payload arms the watch. -/
def arms (info : Dict) (now : ℚ) (reading : Option ℚ) : Option Bool :=
  match reading with
  | none => some false
  | some utilization =>
    if (info.get "status").isText "allowed_warning"
        && decide (warningUtilization ≤ utilization) then
      resetFarEnough info now
    else some false

/-- `RelayWatch.observe`: the watch behind the event, and whether the process must be terminated
now; nothing where it raises. -/
def observe (ev : Event) (now : ℚ) : Option (RelayWatch × Bool) :=
  if (ev.get "type").isText ET.rateLimitEvent then
    match ev.get ET.rateLimitInfo with
    | .obj info => do
      let reading ← observeRateLimit info
      if Json.isText "rejected" (Dict.get info "status") then
        return ({ watch with reason := some .rejected, armed := false }, false)
      else
        let far ← arms info now reading
        return ({ watch with armed := watch.armed || far }, false)
    | _ => some (watch, false)
  else if (ev.get "type").isText ET.assistant
      && (assistantTexts ev).any fun text =>
        Text.contains authFailureMarker.toList text.toList then
    some ({ watch with authFailed := true }, false)
  else if watch.armed && watch.reason.isNone && isToolResultEvent ev then
    some ({ watch with reason := some .warning }, true)
  else some (watch, false)

/-- `RelayWatch.decision`. -/
def decision (exitCode : ℤ) (stderrText : String) : Option RelayReason :=
  if exitCode ≠ 0
      && (watch.authFailed || Text.contains authFailureMarker.toList stderrText.toList) then
    some .loginFailed
  else watch.reason

end RelayWatch

/-! ## What is asked of a stream -/

def toolCalls (stream : List Event) : List Json :=
  stream.flatMap fun ev =>
    if (ev.get "type").isText ET.assistant then
      ((contentBlocks ev).filter fun block => (block.get "type").isText ET.toolUse).map
        fun block => block.get "id"
    else []

def toolResults (stream : List Event) : List String :=
  stream.flatMap fun ev =>
    if (ev.get "type").isText ET.user then
      ((contentBlocks ev).filter fun block => (block.get "type").isText ET.toolResult).filterMap
        fun block => (block.get "tool_use_id").asText
    else []

/-- Every tool call of a stream has its result. -/
def answered (stream : List Event) : Bool :=
  (toolCalls stream).all fun call =>
    match call with
    | .str id => (toolResults stream).contains id
    | _ => false

/-- A process ended its turn normally: there is a final result, and it exited with zero. -/
def endedTurn (stream : List Event) (exitCode : ℤ) : Bool :=
  exitCode = 0 && stream.any fun ev => (ev.get "type").isText ET.result

/-! ## The worker -/

def quotaErrorPatterns : List String :=
  ["quota exceeded", "rate limit", "resource_exhausted", "429", "quota"]

/-- `str(event.get(key, "")).lower()`, as far as the patterns can tell. -/
def lowered (ev : Event) (key : String) : List Char :=
  (ev.getD key (.str "")).toText.toList.map Char.toLower

/-- Whether an event says that the quota is gone. -/
def isQuotaError (ev : Event) : Bool :=
  (ev.get "type").isText ET.error && quotaErrorPatterns.any fun pattern =>
    Text.contains pattern.toList (lowered ev "message")
      || Text.contains pattern.toList (lowered ev "content")

/-- Whether an event is a rejection; it raises where the payload is no dict. -/
def isRejection (ev : Event) : Option Bool :=
  if (ev.get "type").isText ET.rateLimitEvent then
    match ev.getD ET.rateLimitInfo (.obj []) with
    | .obj info => some (Json.isText "rejected" (Dict.get info "status"))
    | _ => none
  else some false

/-- The watch of a process after an event. -/
def observed (watch : Option RelayWatch) (ev : Event) (now : ℚ) :
    Option (Option RelayWatch × Bool) :=
  match watch with
  | none => some (none, false)
  | some watch => (watch.observe ev now).map fun seen => (some seen.1, seen.2)

/-- `Worker._process_event`: the watch behind the event, and whether the process is terminated;
nothing where it raises. -/
def processEvent (watch : Option RelayWatch) (ev : Event) (now : ℚ) :
    Option (Option RelayWatch × Bool) := do
  let seen ← observed watch ev now
  let rejection ← isRejection ev
  if rejection && watch.isNone then none
  else if isQuotaError ev then none
  else return seen

inductive Phase where
  /-- The backend is built, and its process is not spawned yet. -/
  | starting
  | running
  /-- The process has ended, and the task is to be relayed. -/
  | relaying (decision : RelayReason)
  /-- The transcript is moved, and the context may be compacted. -/
  | moved
  /-- The run is over: with the terminal events, or with an error. -/
  | finished (terminalEvents : Bool)
  deriving DecidableEq

inductive Deed where
  /-- A process was started, after a cancel request or not. -/
  | started (cancelled : Bool)
  /-- The relay terminated a process at this point of its stream. -/
  | stopped (stream : List Event)
  /-- A process with this stream and exit code was continued on another account. -/
  | continued (stream : List Event) (exitCode : ℤ)

structure Worker where
  /-- The account of the pool it runs on. -/
  claudeAccount : Option String
  claudeSessionId : Option String
  phase : Phase := .starting
  relayWatch : Option RelayWatch
  relays : ℕ := 0
  /-- The stream of the process so far, and how it exited. -/
  stream : List Event := []
  exitCode : ℤ := 0
  /-- Whether a cancel request came. -/
  cancelled : Bool := false
  deeds : List Deed := []

/-- What happens next. -/
inductive WorkerAction where
  | spawn
  /-- The process emits an event. -/
  | event (ev : Event) (now : ℚ)
  /-- The stream has ended and the process exited. -/
  | exit (exitCode : ℤ) (stderrText : String)
  /-- The next account is chosen and the transcript moved there, or that fails. -/
  | move (next : Except String String)
  /-- The context is compacted, where that is wanted. -/
  | compacted
  /-- `Worker.terminate`. -/
  | terminate
  /-- Something that is awaited raises. -/
  | raise

namespace Worker

variable (s : Worker)

def watchOf (account : Option String) : Option RelayWatch :=
  account.map fun label => { label }

def start (claudeAccount claudeSessionId : Option String) : Worker where
  claudeAccount := claudeAccount
  claudeSessionId := claudeSessionId
  relayWatch := watchOf claudeAccount

/-- `move_to_next_account`: there must be a session to resume. -/
def moveToNextAccount (next : Except String String) : Except String String :=
  match s.claudeSessionId with
  | none => .error "Claude account relay impossible: the run produced no session id to resume."
  | some id =>
    if id = "" then
      .error "Claude account relay impossible: the run produced no session id to resume."
    else next

def onEvent (ev : Event) (now : ℚ) : Worker :=
  let stream := s.stream ++ [ev]
  match processEvent s.relayWatch ev now with
  | none => { s with phase := .finished false, stream }
  | some (watch, false) => { s with relayWatch := watch, stream }
  | some (watch, true) =>
    { s with relayWatch := watch, stream, deeds := s.deeds ++ [.stopped stream] }

/-- What the end of a process does. -/
def onExit (exitCode : ℤ) (stderrText : String) : Worker :=
  match s.relayWatch.bind (·.decision exitCode stderrText) with
  | none => { s with phase := .finished true, exitCode }
  | some decision => { s with phase := .relaying decision, exitCode }

/-- `Worker._relay`, up to the transcript. -/
def onMove (next : Except String String) : Worker :=
  if maxRelaysPerTurn ≤ s.relays then { s with phase := .finished false }
  else
    match s.moveToNextAccount next with
    | .error _ => { s with phase := .finished false }
    | .ok label =>
      { s with
        phase := .moved
        claudeAccount := some label
        deeds := s.deeds ++ [.continued s.stream s.exitCode] }

def step : WorkerAction → Option Worker
  | .spawn =>
    if s.phase = .starting then
      some { s with phase := .running, stream := [], deeds := s.deeds ++ [.started s.cancelled] }
    else none
  | .event ev now => if s.phase = .running then some (s.onEvent ev now) else none
  | .exit exitCode stderrText =>
    if s.phase = .running then some (s.onExit exitCode stderrText) else none
  | .move next =>
    match s.phase with
    | .relaying _ => some (s.onMove next)
    | _ => none
  | .compacted =>
    if s.phase = .moved then
      some { s with
        phase := .starting
        relays := s.relays + 1
        relayWatch := watchOf s.claudeAccount }
    else none
  | .terminate => some { s with cancelled := true }
  | .raise =>
    match s.phase with
    | .finished _ => none
    | _ => some { s with phase := .finished false }

def system : TransitionSystem Worker WorkerAction := ⟨step⟩

/-! ## What is claimed -/

end Worker

/-- **A deed is right.** -/
def Deed.Right : Deed → Prop
  | .started cancelled => cancelled = false
  | .stopped stream => answered stream = true
  | .continued stream exitCode => endedTurn stream exitCode = false

instance (deed : Deed) : Decidable deed.Right := by
  unfold Deed.Right
  split <;> infer_instance

def Deed.isRelay : Deed → Bool
  | .continued .. => true
  | _ => false

namespace Worker

variable (s : Worker)

/-- **The relays of a task are right.** -/
structure RelaysRight : Prop where
  /-- A process was stopped only where every call had its result, none that ended its turn was
  continued, and none was started after a cancel request. -/
  deeds : ∀ deed ∈ s.deeds, deed.Right
  /-- There were not too many relays. -/
  few : (s.deeds.filter Deed.isRelay).length ≤ maxRelaysPerTurn

/-- **The condition on a step.** -/
def Meets : WorkerAction → Prop
  | .event ev _ =>
    -- the first tool result behind a warning is that of the last call that had none
    ∀ watch ∈ s.relayWatch, watch.armed = true → watch.reason = none →
      isToolResultEvent ev = true → answered (s.stream ++ [ev]) = true
  | .exit exitCode stderrText =>
    -- no process that was rejected or stopped ends its turn
    (endedTurn s.stream exitCode = true → ∀ watch ∈ s.relayWatch, watch.reason = none)
      -- and one that is cancelled was neither, and had no trouble to authenticate
      ∧ (s.cancelled = true → ∀ watch ∈ s.relayWatch, watch.reason = none
        ∧ (exitCode = 0 ∨ watch.authFailed = false
          ∧ Text.contains authFailureMarker.toList stderrText.toList = false))
  | .terminate =>
    -- a cancel request finds a process, or the run over
    s.phase = .running ∨ s.phase = .finished true ∨ s.phase = .finished false
  | _ => True

instance (a : WorkerAction) : Decidable (s.Meets a) := by
  unfold Meets
  split <;> infer_instance

theorem not_relaysRight_of_any {s : Worker}
    (h : (s.deeds.any fun deed => !decide deed.Right) = true) : ¬ s.RelaysRight := by
  intro hright
  obtain ⟨deed, hmem, hwrong⟩ := List.any_eq_true.mp h
  rw [decide_eq_true (hright.deeds deed hmem)] at hwrong
  cases hwrong

/-! ## How many relays there are -/

def relayCount : ℕ := (s.deeds.filter Deed.isRelay).length

/-- How many relays there are at most, and that they are counted: while the transcript is moved
the last one is not counted yet, and a run that is over may have ended there. -/
structure Counted : Prop where
  le : s.relayCount ≤ maxRelaysPerTurn
  moved : s.phase = .moved → s.relayCount ≤ s.relays + 1
  goesOn : (s.phase = .starting ∨ s.phase = .running ∨ ∃ decision, s.phase = .relaying decision) →
    s.relayCount ≤ s.relays

variable {s} {t : Worker}

theorem Counted.of_eq (h : s.Counted)
    (hphase : s.phase = .starting ∨ s.phase = .running ∨ ∃ decision, s.phase = .relaying decision)
    (htphase : t.phase ≠ .moved) (hrelays : t.relays = s.relays)
    (hdeeds : t.relayCount = s.relayCount) : t.Counted := by
  refine ⟨?_, fun hmoved => absurd hmoved htphase, fun _ => ?_⟩
  · rw [hdeeds]
    exact h.le
  · rw [hdeeds, hrelays]
    exact h.goesOn hphase

theorem length_filter_concat {deeds : List Deed} {deed : Deed} (h : deed.isRelay = false) :
    ((deeds ++ [deed]).filter Deed.isRelay).length = (deeds.filter Deed.isRelay).length := by
  rw [List.filter_append, List.filter_singleton, h]
  exact congrArg List.length (List.append_nil _)

theorem counted_onEvent (h : s.Counted) (hphase : s.phase = .running) (ev : Event) (now : ℚ) :
    (s.onEvent ev now).Counted := by
  have hne : s.phase ≠ .moved := fun hmoved => nomatch hphase.symm.trans hmoved
  unfold onEvent
  dsimp only
  split
  · exact h.of_eq (.inr (.inl hphase)) nofun rfl rfl
  · exact h.of_eq (.inr (.inl hphase)) hne rfl rfl
  · exact h.of_eq (.inr (.inl hphase)) hne rfl (length_filter_concat rfl)

theorem counted_onExit (h : s.Counted) (hphase : s.phase = .running) (exitCode : ℤ)
    (stderrText : String) : (s.onExit exitCode stderrText).Counted := by
  unfold onExit
  split
  · exact h.of_eq (.inr (.inl hphase)) nofun rfl rfl
  · exact h.of_eq (.inr (.inl hphase)) nofun rfl rfl

theorem counted_onMove (h : s.Counted) {decision : RelayReason}
    (hphase : s.phase = .relaying decision) (next : Except String String) :
    (s.onMove next).Counted := by
  have hon := h.goesOn (.inr (.inr ⟨decision, hphase⟩))
  unfold onMove
  split
  · exact h.of_eq (.inr (.inr ⟨decision, hphase⟩)) nofun rfl rfl
  · next hlt =>
    split
    · exact h.of_eq (.inr (.inr ⟨decision, hphase⟩)) nofun rfl rfl
    · have hcount : ((s.deeds ++ [Deed.continued s.stream s.exitCode]).filter
          Deed.isRelay).length = s.relayCount + 1 := by
        rw [List.filter_append, List.length_append]
        rfl
      refine ⟨?_, fun _ => ?_, fun hwhere => ?_⟩
      · show List.length _ ≤ _
        rw [hcount]
        omega
      · show List.length _ ≤ s.relays + 1
        rw [hcount]
        exact Nat.succ_le_succ hon
      · rcases hwhere with hnot | hnot | ⟨_, hnot⟩ <;> cases hnot

/-- **There are not too many relays, in any run.** -/
theorem Counted.step (h : s.Counted) {a : WorkerAction} (hstep : s.step a = some t) :
    t.Counted := by
  cases a with
  | spawn =>
    simp only [Worker.step] at hstep
    split at hstep
    · next hphase =>
      cases hstep
      exact h.of_eq (.inl hphase) nofun rfl (length_filter_concat rfl)
    · cases hstep
  | event ev now =>
    simp only [Worker.step] at hstep
    split at hstep
    · next hphase =>
      cases hstep
      exact counted_onEvent h hphase ev now
    · cases hstep
  | exit exitCode stderrText =>
    simp only [Worker.step] at hstep
    split at hstep
    · next hphase =>
      cases hstep
      exact counted_onExit h hphase exitCode stderrText
    · cases hstep
  | move next =>
    simp only [Worker.step] at hstep
    split at hstep
    · next decision hphase =>
      cases hstep
      exact counted_onMove h hphase next
    · cases hstep
  | compacted =>
    simp only [Worker.step] at hstep
    split at hstep
    · next hphase =>
      cases hstep
      exact ⟨h.le, nofun, fun _ => h.moved hphase⟩
    · cases hstep
  | terminate =>
    cases hstep
    exact ⟨h.le, h.moved, h.goesOn⟩
  | raise =>
    simp only [Worker.step] at hstep
    split at hstep
    · cases hstep
    · cases hstep
      refine ⟨h.le, nofun, fun hwhere => ?_⟩
      rcases hwhere with hnot | hnot | ⟨_, hnot⟩ <;> cases hnot

/-! ## What the deeds are -/

variable (s) in
/-- What holds in every state. -/
structure Inv : Prop where
  counted : s.Counted
  deeds : ∀ deed ∈ s.deeds, deed.Right
  relaying : ∀ decision, s.phase = .relaying decision → endedTurn s.stream s.exitCode = false
  /-- A task that was cancelled has a process, or is over. -/
  cancelled : s.cancelled = true → s.phase = .running ∨ ∃ b, s.phase = .finished b

theorem inv_start (claudeAccount claudeSessionId : Option String) :
    (start claudeAccount claudeSessionId).Inv where
  counted := ⟨Nat.zero_le _, nofun, fun _ => le_rfl⟩
  deeds := nofun
  relaying := nofun
  cancelled := nofun

theorem right_concat {deeds : List Deed} (h : ∀ deed ∈ deeds, deed.Right) {deed : Deed}
    (hdeed : deed.Right) : ∀ other ∈ deeds ++ [deed], other.Right := by
  intro other hother
  rcases List.mem_append.mp hother with hold | hnew
  · exact h other hold
  · rw [List.mem_singleton.mp hnew]
    exact hdeed

/-- **The watch stops a process at a tool result**, when it is armed and has no reason yet. -/
theorem of_observe {watch after : RelayWatch} {ev : Event} {now : ℚ}
    (h : watch.observe ev now = some (after, true)) :
    watch.armed = true ∧ watch.reason = none ∧ isToolResultEvent ev = true := by
  unfold RelayWatch.observe at h
  split at h
  · split at h
    · obtain ⟨reading, -, hreading⟩ := Option.bind_eq_some_iff.mp h
      split at hreading
      · cases hreading
      · obtain ⟨far, -, hfar⟩ := Option.bind_eq_some_iff.mp hreading
        cases hfar
    · cases h
  · split at h
    · cases h
    · split at h
      · next hstop =>
        rw [Bool.and_eq_true, Bool.and_eq_true, Option.isNone_iff_eq_none] at hstop
        exact ⟨hstop.1.1, hstop.1.2, hstop.2⟩
      · cases h

theorem of_processEvent {watch after : Option RelayWatch} {ev : Event} {now : ℚ}
    (h : processEvent watch ev now = some (after, true)) :
    ∃ w ∈ watch, w.armed = true ∧ w.reason = none ∧ isToolResultEvent ev = true := by
  unfold processEvent at h
  obtain ⟨seen, hseen, hrest⟩ := Option.bind_eq_some_iff.mp h
  obtain ⟨rejection, -, hrest⟩ := Option.bind_eq_some_iff.mp hrest
  have hsame : seen = (after, true) := by
    split at hrest
    · cases hrest
    · split at hrest
      · cases hrest
      · exact Option.some.inj hrest
  rw [hsame] at hseen
  cases watch with
  | none => cases hseen
  | some w =>
    obtain ⟨⟨w', stop⟩, hw, heq⟩ := Option.map_eq_some_iff.mp hseen
    cases heq
    exact ⟨w, rfl, of_observe hw⟩

theorem Inv.onEvent (h : s.Inv) (hphase : s.phase = .running) {ev : Event} {now : ℚ}
    (hmeets : s.Meets (.event ev now)) : (s.onEvent ev now).Inv := by
  have hnot : ∀ decision, s.phase ≠ .relaying decision := fun decision heq =>
    nomatch hphase.symm.trans heq
  refine ⟨counted_onEvent h.counted hphase ev now, ?_, ?_, ?_⟩
  · unfold Worker.onEvent
    dsimp only
    split
    · exact h.deeds
    · exact h.deeds
    · next watch hprocess =>
      obtain ⟨w, hw, harmed, hreason, hresult⟩ := of_processEvent hprocess
      exact right_concat h.deeds (hmeets w hw harmed hreason hresult)
  · unfold Worker.onEvent
    dsimp only
    split
    · exact nofun
    · exact fun decision heq => absurd heq (hnot decision)
    · exact fun decision heq => absurd heq (hnot decision)
  · unfold Worker.onEvent
    dsimp only
    split
    · exact fun _ => .inr ⟨false, rfl⟩
    · exact fun _ => .inl hphase
    · exact fun _ => .inl hphase

/-- A watch without a reason, of a process that had no trouble to authenticate, asks for
nothing. -/
theorem decision_eq_none {watch : RelayWatch} {exitCode : ℤ} {stderrText : String}
    (hreason : watch.reason = none) (hauth : exitCode = 0 ∨ watch.authFailed = false
      ∧ Text.contains authFailureMarker.toList stderrText.toList = false) :
    watch.decision exitCode stderrText = none := by
  unfold RelayWatch.decision
  rw [if_neg]
  · exact hreason
  · rcases hauth with hzero | ⟨hfailed, hstderr⟩
    · rw [hzero]
      exact Bool.false_ne_true
    · rw [hfailed, hstderr, Bool.or_self, Bool.and_false]
      exact Bool.false_ne_true

theorem Inv.onExit (h : s.Inv) (hphase : s.phase = .running) {exitCode : ℤ} {stderrText : String}
    (hmeets : s.Meets (.exit exitCode stderrText)) : (s.onExit exitCode stderrText).Inv := by
  obtain ⟨hended, hcancelled⟩ := hmeets
  have hcounted := counted_onExit h.counted hphase exitCode stderrText
  unfold Worker.onExit at hcounted ⊢
  split
  · next hnone =>
    rw [hnone] at hcounted
    exact ⟨hcounted, h.deeds, nofun, fun _ => .inr ⟨true, rfl⟩⟩
  · next decision hdecision =>
    rw [hdecision] at hcounted
    obtain ⟨watch, hwatch, hasks⟩ := Option.bind_eq_some_iff.mp hdecision
    refine ⟨hcounted, h.deeds, fun _ _ => ?_, fun hwas => ?_⟩
    · show endedTurn s.stream exitCode = false
      by_contra hturn
      rw [Bool.not_eq_false] at hturn
      have hzero : exitCode = 0 := by
        unfold endedTurn at hturn
        rw [Bool.and_eq_true, decide_eq_true_eq] at hturn
        exact hturn.1
      rw [decision_eq_none (hended hturn watch hwatch) (.inl hzero)] at hasks
      cases hasks
    · obtain ⟨hreason, hauth⟩ := hcancelled hwas watch hwatch
      rw [decision_eq_none hreason hauth] at hasks
      cases hasks

theorem Inv.onMove (h : s.Inv) {decision : RelayReason} (hphase : s.phase = .relaying decision)
    (next : Except String String) : (s.onMove next).Inv := by
  have hcancelled : s.cancelled ≠ true := by
    intro hwas
    rcases h.cancelled hwas with hrunning | ⟨b, hfinished⟩
    · exact nomatch hphase.symm.trans hrunning
    · exact nomatch hphase.symm.trans hfinished
  have hcounted := counted_onMove h.counted hphase next
  unfold Worker.onMove at hcounted ⊢
  split
  · next hcap =>
    rw [if_pos hcap] at hcounted
    exact ⟨hcounted, h.deeds, nofun, fun _ => .inr ⟨false, rfl⟩⟩
  · next hcap =>
    rw [if_neg hcap] at hcounted
    split
    · next hmove =>
      rw [hmove] at hcounted
      exact ⟨hcounted, h.deeds, nofun, fun _ => .inr ⟨false, rfl⟩⟩
    · next label hmove =>
      rw [hmove] at hcounted
      exact ⟨hcounted, right_concat h.deeds (h.relaying decision hphase), nofun,
        fun hwas => absurd hwas hcancelled⟩

/-- **Every step that meets the condition** keeps the deeds right. -/
theorem Inv.step (h : s.Inv) {a : WorkerAction} (hmeets : s.Meets a)
    (hstep : s.step a = some t) : t.Inv := by
  have hcounted := h.counted.step hstep
  cases a with
  | spawn =>
    simp only [Worker.step] at hstep
    split at hstep
    · next hphase =>
      cases hstep
      refine ⟨hcounted, right_concat h.deeds ?_, nofun, fun _ => .inl rfl⟩
      show s.cancelled = false
      by_contra hwas
      rw [Bool.not_eq_false] at hwas
      rcases h.cancelled hwas with hrunning | ⟨b, hfinished⟩
      · exact nomatch hphase.symm.trans hrunning
      · exact nomatch hphase.symm.trans hfinished
    · cases hstep
  | event ev now =>
    simp only [Worker.step] at hstep
    split at hstep
    · next hphase =>
      cases hstep
      exact h.onEvent hphase hmeets
    · cases hstep
  | exit exitCode stderrText =>
    simp only [Worker.step] at hstep
    split at hstep
    · next hphase =>
      cases hstep
      exact h.onExit hphase hmeets
    · cases hstep
  | move next =>
    simp only [Worker.step] at hstep
    split at hstep
    · next decision hphase =>
      cases hstep
      exact h.onMove hphase next
    · cases hstep
  | compacted =>
    simp only [Worker.step] at hstep
    split at hstep
    · next hphase =>
      cases hstep
      refine ⟨hcounted, h.deeds, nofun, fun hwas => ?_⟩
      rcases h.cancelled hwas with hrunning | ⟨b, hfinished⟩
      · exact nomatch hphase.symm.trans hrunning
      · exact nomatch hphase.symm.trans hfinished
    · cases hstep
  | terminate =>
    cases hstep
    refine ⟨hcounted, h.deeds, h.relaying, fun _ => ?_⟩
    rcases hmeets with hrunning | hfinished | hfinished
    · exact .inl hrunning
    · exact .inr ⟨true, hfinished⟩
    · exact .inr ⟨false, hfinished⟩
  | raise =>
    simp only [Worker.step] at hstep
    split at hstep
    · cases hstep
    · cases hstep
      exact ⟨hcounted, h.deeds, nofun, fun _ => .inr ⟨false, rfl⟩⟩

end Worker

/-! ## The main result -/

section Main

variable {account sessionId : Option String} {as : List WorkerAction} {s : Worker}

/-- **The relays of a task are right** in every run in which, behind a warning, the first tool
result is that of the last open call, no process that was rejected or stopped ends its turn, and a
cancel request finds a process that does not ask for a relay. -/
theorem relays_right_of_run
    (hmeets : Worker.system.Guarded Worker.Meets (.start account sessionId) as)
    (hrun : Worker.system.run (.start account sessionId) as = some s) : s.RelaysRight := by
  have hinv : s.Inv := Worker.system.run_invariant_of_guarded
    (fun _ _ _ hinv hm hstep => Worker.Inv.step hinv hm hstep)
    (Worker.inv_start account sessionId) hmeets hrun
  exact ⟨hinv.deeds, hinv.counted.le⟩

end Main

/-- The account is close to its limit, or at it. -/
def rateLimitOf (status : String) : Event :=
  [("type", .str "rate_limit_event"), ("rate_limit_info", .obj [("status", .str status),
    ("unifiedWindows", .obj [("five_hour", .obj [("utilization", .float 95 (-2))])])])]

/-- The assistant makes calls. -/
def callsOf (ids : List String) : Event :=
  [("type", .str "assistant"), ("message", .obj [("content", .arr (ids.map fun id =>
    .obj [("type", .str "tool_use"), ("id", .str id)]))])]

def resultOf (id : String) : Event :=
  [("type", .str "user"), ("message", .obj [("content", .arr
    [.obj [("type", .str "tool_result"), ("tool_use_id", .str id)]])])]

/-- A process is stopped behind its one call, and the next account ends the task. -/
theorem relays_right_of_run_once :
    ∃ s, Worker.system.run (.start (some "a") (some "s"))
        [.spawn, .event (rateLimitOf "allowed_warning") 0, .event (callsOf ["x"]) 0,
          .event (resultOf "x") 0, .exit 143 "", .move (.ok "b"), .compacted, .spawn, .terminate,
          .exit 143 ""] = some s
      ∧ s.relays = 1 ∧ s.phase = .finished true ∧ s.RelaysRight := by
  have hrun : (Worker.system.run (.start (some "a") (some "s"))
      [.spawn, .event (rateLimitOf "allowed_warning") 0, .event (callsOf ["x"]) 0,
        .event (resultOf "x") 0, .exit 143 "", .move (.ok "b"), .compacted, .spawn, .terminate,
        .exit 143 ""]).map (fun s => (s.relays, s.phase)) = some (1, .finished true) := by
    decide +kernel
  obtain ⟨s, hs, heq⟩ := Option.map_eq_some_iff.mp hrun
  obtain ⟨hrelays, hphase⟩ := Prod.mk.inj heq
  exact ⟨s, hs, hrelays, hphase,
    relays_right_of_run (TransitionSystem.guarded_of_check (by decide +kernel)) hs⟩

/-- **A process is stopped amid its calls.** Of two calls that were made at once, one has its
result. -/
theorem stopped_amid_calls :
    ∃ s, Worker.system.run (.start (some "a") (some "s"))
        [.spawn, .event (rateLimitOf "allowed_warning") 0, .event (callsOf ["x", "y"]) 0,
          .event (resultOf "x") 0] = some s
      ∧ ¬ s.RelaysRight := by
  have hrun : (Worker.system.run (.start (some "a") (some "s"))
      [.spawn, .event (rateLimitOf "allowed_warning") 0, .event (callsOf ["x", "y"]) 0,
        .event (resultOf "x") 0]).map
        (fun s => s.deeds.any fun deed => !decide deed.Right) = some true := by
    decide +kernel
  obtain ⟨s, hs, hany⟩ := Option.map_eq_some_iff.mp hrun
  exact ⟨s, hs, Worker.not_relaysRight_of_any hany⟩

/-- **A turn that ended is continued.** It was rejected once, and overcame it. -/
theorem continued_after_rejection :
    ∃ s, Worker.system.run (.start (some "a") (some "s"))
        [.spawn, .event (rateLimitOf "rejected") 0, .event [("type", .str "result")] 0,
          .exit 0 "", .move (.ok "b")] = some s
      ∧ ¬ s.RelaysRight := by
  have hrun : (Worker.system.run (.start (some "a") (some "s"))
      [.spawn, .event (rateLimitOf "rejected") 0, .event [("type", .str "result")] 0,
        .exit 0 "", .move (.ok "b")]).map
        (fun s => s.deeds.any fun deed => !decide deed.Right) = some true := by
    decide +kernel
  obtain ⟨s, hs, hany⟩ := Option.map_eq_some_iff.mp hrun
  exact ⟨s, hs, Worker.not_relaysRight_of_any hany⟩

/-- **A process is started after a cancel request.** What it stopped is taken for a process that
its account rejected. -/
theorem started_after_cancel :
    ∃ s, Worker.system.run (.start (some "a") (some "s"))
        [.spawn, .event (rateLimitOf "rejected") 0, .terminate, .exit 143 "", .move (.ok "b"),
          .compacted, .spawn] = some s
      ∧ ¬ s.RelaysRight := by
  have hrun : (Worker.system.run (.start (some "a") (some "s"))
      [.spawn, .event (rateLimitOf "rejected") 0, .terminate, .exit 143 "", .move (.ok "b"),
        .compacted, .spawn]).map
        (fun s => s.deeds.any fun deed => !decide deed.Right) = some true := by
    decide +kernel
  obtain ⟨s, hs, hany⟩ := Option.map_eq_some_iff.mp hrun
  exact ⟨s, hs, Worker.not_relaysRight_of_any hany⟩

end WorkerRelay
