import CharlieBot.Lib.Transition
import Mathlib.Data.Int.Notation
import Mathlib.Data.List.Nodup

/-!
# The queues of the master turns

The turns of a session run one at a time. A message is queued, the session is
marked busy, and a consumer is started unless one is at work: three effects of
one step. The consumer takes the items of its queue in turn, runs each, reports
what came of it, and resolves the future its caller waits on, whether the run
answers or fails. When it finds its queue empty it takes itself off the
register, drops the queue and clears the busy mark, again in one step, and only
then tells the sidebar.

Along every run in which **no consumer is cancelled while it has work**, a
session is busy exactly while it has an item that runs or waits, a live consumer
is then registered for it, every item is run at most once and its future is
resolved exactly once when it is consumed (`MasterQueue.live_of_guarded`). The
same teardown runs when a consumer is cancelled: then it clears the mark with the
queue not empty (`MasterQueue.queue_left`).
-/

/-! ## Items and consumers -/

inductive FutureOutcome where
  | result (ccSessionId : Option String)
  | exception
  | cancelled
  deriving DecidableEq

/-- `_WorkItem`: what the consumer reads of it, and what becomes of it. -/
structure QueueItem where
  sid : String
  userEventId : Option String := none
  /-- When the turn began that is followed again. -/
  resumedAt : Option ℕ := none
  /-- `session_meta.cc_session_id`. -/
  ccSessionId : Option String := none
  /-- `session_meta.claude_account`. -/
  claudeAccount : Option String := none
  /-- There is a callback that saves the account. -/
  persistsAccount : Bool := true
  future : Option FutureOutcome := none
  resolutions : ℕ := 0
  /-- How often the item was run. -/
  runs : ℕ := 0
  consumed : Bool := false
  deriving DecidableEq

def truthy (value : Option String) : Option String := value.filter fun v => v ≠ ""

/-- **What a run answers.** -/
structure RunResult where
  ccSessionId : Option String := none
  exitCode : ℤ := 0
  errorMsg : Option String := none
  /-- `finish_extras["zero_output"]`. -/
  zeroOutput : Bool := false
  /-- The account the item names after the run. -/
  claudeAccount : Option String := none
  deriving DecidableEq

/-- What the consumer does after a run, and waits for. -/
inductive SettleStep where
  | zeroOutputError
  | resumeAnchor (ccSessionId : String)
  | claudeAccount (account : String)
  | masterDone
  | clearMasterRun
  deriving DecidableEq

/-- What is done after a run, in this order. -/
def settleSteps (item : QueueItem) (result : RunResult) : List SettleStep :=
  (if result.zeroOutput && (truthy result.errorMsg).isNone then [.zeroOutputError] else [])
    ++ ((truthy result.ccSessionId).map SettleStep.resumeAnchor).toList
    ++ (if item.persistsAccount then
        ((truthy result.claudeAccount).map SettleStep.claudeAccount).toList
      else [])
    ++ [.masterDone, .clearMasterRun]

/-- **Where a consumer is.** -/
inductive ConsumerPhase where
  /-- Its task was created and has not begun. -/
  | created
  | waiting
  | running (item : ℕ)
  /-- The item was run, and it waits for the first of these steps. -/
  | settling (item : ℕ) (result : RunResult) (steps : List SettleStep)
  /-- It is off the register, and tells the sidebar. -/
  | teardown
  | done
  deriving DecidableEq

def ConsumerPhase.item : ConsumerPhase → Option ℕ
  | .running item | .settling item _ _ => some item
  | _ => none

/-- It has not come to its teardown. -/
def ConsumerPhase.active : ConsumerPhase → Bool
  | .teardown | .done => false
  | _ => true

/-- **A consumer task.** -/
structure ConsumerTask where
  sid : String
  phase : ConsumerPhase := .created
  /-- `last_cc_session_id`. -/
  lastCcSessionId : Option String := none
  /-- `last_claude_account`. -/
  lastClaudeAccount : Option String := none
  deriving DecidableEq

/-- What a `master_done` event says. -/
structure QueueDone where
  item : ℕ
  exitCode : ℤ
  stillThinking : Bool
  inputEventId : Option String
  thinkingSeconds : Option ℤ
  deriving DecidableEq

/-- **The state.** Times are in microseconds. -/
structure MasterQueue where
  /-- `_session_queues`. -/
  queues : String → Option (List ℕ) := fun _ => none
  /-- `_session_consumers`. -/
  consumers : String → Option ℕ := fun _ => none
  /-- `_current_items`. -/
  currentItems : String → Option ℕ := fun _ => none
  /-- `_busy_since`. -/
  busySince : String → Option ℕ := fun _ => none
  tasks : ℕ → Option ConsumerTask := fun _ => none
  items : ℕ → Option QueueItem := fun _ => none
  /-- The `master_done` events, the latest first. -/
  dones : List QueueDone := []

inductive QueueAction where
  /-- An item is queued; the task is the consumer's, if one is started. -/
  | enqueue (item : ℕ) (work : QueueItem) (task now : ℕ)
  /-- A consumer begins. -/
  | start (task : ℕ)
  /-- A consumer that waited gets an item. -/
  | get (task : ℕ)
  /-- The run of an item answers. -/
  | ran (task : ℕ) (result : RunResult) (now : ℕ)
  /-- What was done after a run is over. -/
  | settled (task now : ℕ)
  /-- What a consumer does for an item fails. -/
  | fail (task : ℕ)
  /-- A consumer is cancelled where it waits. -/
  | cancel (task : ℕ)
  | told (task : ℕ)
  /-- The caller of an item stops waiting. -/
  | cancelFuture (item : ℕ)

/-! ## What happens to an item -/

namespace QueueItem

/-- `set_result`, `set_exception` and `cancel`: what is resolved stays as it is. -/
def resolve (item : QueueItem) (outcome : FutureOutcome) : QueueItem :=
  if item.future = none then
    { item with future := some outcome, resolutions := item.resolutions + 1 }
  else item

/-- The consumer is done with the item; a cancelled one resolves nothing. -/
def consume (item : QueueItem) (outcome : Option FutureOutcome) : QueueItem :=
  { (match outcome with
      | some outcome => item.resolve outcome
      | none => item) with consumed := true }

/-- The item is run, with what the last run of the consumer left. -/
def take (item : QueueItem) (task : ConsumerTask) : QueueItem :=
  { item with
    runs := item.runs + 1
    ccSessionId := if (truthy item.ccSessionId).isNone then
        (truthy task.lastCcSessionId).or item.ccSessionId else item.ccSessionId
    claudeAccount := if (truthy item.claudeAccount).isNone then
        (truthy task.lastClaudeAccount).or item.claudeAccount else item.claudeAccount }

end QueueItem

namespace MasterQueue

/-- `mark_busy`: the start of the interval, and whether it is a new one. -/
def markBusy (s : MasterQueue) (sid : String) (since : Option ℕ) (now : ℕ) :
    MasterQueue × ℕ × Bool :=
  match s.busySince sid with
  | some existing => (s, existing, false)
  | none =>
    let startedAt := since.getD now
    ({ s with busySince := Function.update s.busySince sid (some startedAt) }, startedAt, true)

def clearBusy (s : MasterQueue) (sid : String) : MasterQueue :=
  { s with busySince := Function.update s.busySince sid none }

def setTask (s : MasterQueue) (t : ℕ) (task : ConsumerTask) : MasterQueue :=
  { s with tasks := Function.update s.tasks t (some task) }

def modifyItem (s : MasterQueue) (i : ℕ) (f : QueueItem → QueueItem) : MasterQueue :=
  { s with items := Function.update s.items i ((s.items i).map f) }

/-- `Task.done`. -/
def taskDone (s : MasterQueue) (t : ℕ) : Bool :=
  match s.tasks t with
  | some task => task.phase = .done
  | none => true

/-- A consumer is registered that is not done. -/
def hasConsumer (s : MasterQueue) (sid : String) : Bool :=
  match s.consumers sid with
  | some t => !s.taskDone t
  | none => false

def enqueueWorkItem (s : MasterQueue) (sid : String) (i : ℕ) (work : QueueItem) (task now : ℕ) :
    MasterQueue :=
  let queue := (s.queues sid).getD []
  let s := (s.markBusy sid work.resumedAt now).1
  let s := { s with
    queues := Function.update s.queues sid (some (queue ++ [i]))
    items := Function.update s.items i (some work) }
  if s.hasConsumer sid then s
  else { s with consumers := Function.update s.consumers sid (some task) }.setTask task { sid }

/-- `queue.get`, up to where the run of the item waits. -/
def takeNext (s : MasterQueue) (t : ℕ) (task : ConsumerTask) : MasterQueue :=
  match s.queues task.sid with
  | some (i :: rest) =>
    ({ s with
      queues := Function.update s.queues task.sid (some rest)
      currentItems := Function.update s.currentItems task.sid (some i) }.modifyItem i
        fun item => item.take task).setTask t { task with phase := .running i }
  | some [] => s.setTask t { task with phase := .waiting }
  -- there is no queue: the task dies of a `KeyError`
  | none => s.setTask t { task with phase := .done }

/-- The teardown of a consumer, up to where it waits; one that had no item ends there. -/
def teardown (s : MasterQueue) (t : ℕ) (task : ConsumerTask) : MasterQueue :=
  let s := { s with
    consumers := Function.update s.consumers task.sid none
    queues := Function.update s.queues task.sid
      (if s.queues task.sid = some [] then none else s.queues task.sid) }.clearBusy task.sid
  s.setTask t { task with phase := if task.phase = .waiting then .done else .teardown }

/-- The consumer is done with its item. -/
def release (s : MasterQueue) (task : ConsumerTask) (i : ℕ) (outcome : Option FutureOutcome) :
    MasterQueue :=
  { s with currentItems := Function.update s.currentItems task.sid none }.modifyItem i
    fun item => item.consume outcome

/-- The consumer is done with its item and goes on, unless its queue is empty. -/
def settle (s : MasterQueue) (t : ℕ) (task : ConsumerTask) (i : ℕ) (outcome : FutureOutcome) :
    MasterQueue :=
  let s := s.release task i (some outcome)
  if (s.queues task.sid).getD [] = [] then s.teardown t task else s.takeNext t task

/-- The `master_done` event of an item. -/
def masterDone (s : MasterQueue) (sid : String) (i : ℕ) (result : RunResult) (now : ℕ) :
    QueueDone :=
  let stillThinking := (s.queues sid).getD [] ≠ []
  { item := i
    exitCode := if result.zeroOutput then 1 else result.exitCode
    stillThinking
    inputEventId := truthy ((s.items i).bind QueueItem.userEventId)
    thinkingSeconds := if stillThinking then none else
      (s.busySince sid).map fun start => ((now : ℤ) - start).tdiv 1000000 }

/-- The consumer comes to the first of the steps that are left. -/
def reach (s : MasterQueue) (t : ℕ) (task : ConsumerTask) (i : ℕ) (result : RunResult) (now : ℕ) :
    List SettleStep → MasterQueue
  | [] => s.settle t task i (.result result.ccSessionId)
  | step :: rest =>
    let phase := .settling i result (step :: rest)
    match step with
    | .resumeAnchor id =>
      (s.modifyItem i fun item => { item with ccSessionId := some id }).setTask t
        { task with phase, lastCcSessionId := some id }
    | .claudeAccount account => s.setTask t { task with phase, lastClaudeAccount := some account }
    | .masterDone =>
      { s with dones := s.masterDone task.sid i result now :: s.dones }.setTask t
        { task with phase }
    | _ => s.setTask t { task with phase }

/-- A consumer is cancelled. One that has not begun never runs its teardown. -/
def cancelTask (s : MasterQueue) (t : ℕ) (task : ConsumerTask) : MasterQueue :=
  match task.phase with
  | .waiting => s.teardown t task
  | .running i | .settling i _ _ => (s.release task i none).teardown t task
  | .created | .teardown | .done => s.setTask t { task with phase := .done }

def step (s : MasterQueue) : QueueAction → Option MasterQueue
  | .enqueue i work task now =>
    if s.items i = none ∧ s.tasks task = none ∧ work.future = none ∧ work.resolutions = 0
        ∧ work.runs = 0 ∧ work.consumed = false then
      some (s.enqueueWorkItem work.sid i work task now)
    else none
  | .start t => do
    let task ← s.tasks t
    match task.phase with
    | .created => some (s.takeNext t task)
    | _ => none
  | .get t => do
    let task ← s.tasks t
    match task.phase, s.queues task.sid with
    | .waiting, some (_ :: _) => some (s.takeNext t task)
    | _, _ => none
  | .ran t result now => do
    let task ← s.tasks t
    match task.phase with
    | .running i =>
      let s := s.modifyItem i fun item => { item with claudeAccount := result.claudeAccount }
      let item ← s.items i
      some (s.reach t task i result now (settleSteps item result))
    | _ => none
  | .settled t now => do
    let task ← s.tasks t
    match task.phase with
    | .settling i result (_ :: rest) => some (s.reach t task i result now rest)
    | _ => none
  | .fail t => do
    let task ← s.tasks t
    let i ← task.phase.item
    some (s.settle t task i .exception)
  | .cancel t => do
    let task ← s.tasks t
    if task.phase = .done then none else some (s.cancelTask t task)
  | .told t => do
    let task ← s.tasks t
    match task.phase with
    | .teardown => some (s.setTask t { task with phase := .done })
    | _ => none
  | .cancelFuture i => do
    let item ← s.items i
    if item.future = none then some (s.modifyItem i fun item => item.resolve .cancelled) else none

def system : TransitionSystem MasterQueue QueueAction := ⟨step⟩

/-- A session has an item that runs or waits. -/
def Owed (s : MasterQueue) (sid : String) : Prop :=
  (s.queues sid).getD [] ≠ [] ∨ s.currentItems sid ≠ none

/-- **The queues are live**: a session is busy exactly while it has an item that runs or
waits, and then a consumer of it is registered that is not done; every item is run at
most once, and its future is resolved at most once, and has been when it is consumed. -/
def Live (s : MasterQueue) : Prop :=
  (∀ sid, (s.busySince sid ≠ none ↔ s.Owed sid)
    ∧ (s.Owed sid → ∃ t task, s.consumers sid = some t ∧ s.tasks t = some task
      ∧ task.sid = sid ∧ task.phase ≠ .done))
    ∧ ∀ i item, s.items i = some item → item.runs ≤ 1 ∧ item.resolutions ≤ 1
      ∧ (item.consumed = true → item.resolutions = 1)

variable {s : MasterQueue} {sid : String} {t i : ℕ} {task : ConsumerTask}

/-! ## The invariant -/

/-- **An item.** -/
structure ItemInv (item : QueueItem) : Prop where
  runs_le : item.runs ≤ 1
  resolutions_eq : item.resolutions = if item.future = none then 0 else 1
  resolved : item.consumed = true → item.future ≠ none

/-- **A session**: it has nothing, or a consumer that is about to begin, or one that has an
item. -/
inductive SessionInv (s : MasterQueue) (sid : String) : Prop where
  | idle (queue : s.queues sid = none) (consumer : s.consumers sid = none)
      (current : s.currentItems sid = none) (busy : s.busySince sid = none)
  | created {t i since : ℕ} {rest : List ℕ} {task : ConsumerTask}
      (queue : s.queues sid = some (i :: rest)) (consumer : s.consumers sid = some t)
      (found : s.tasks t = some task) (sid_eq : task.sid = sid) (phase : task.phase = .created)
      (current : s.currentItems sid = none) (busy : s.busySince sid = some since)
  | atWork {t i since : ℕ} {queue : List ℕ} {task : ConsumerTask}
      (queue : s.queues sid = some queue) (consumer : s.consumers sid = some t)
      (found : s.tasks t = some task) (sid_eq : task.sid = sid) (item : task.phase.item = some i)
      (current : s.currentItems sid = some i) (busy : s.busySince sid = some since)

/-- **What holds of a state.** -/
structure Inv (s : MasterQueue) : Prop where
  session : ∀ sid, SessionInv s sid
  /-- A task that has not come to its teardown is the one that is registered. -/
  task : ∀ t task, s.tasks t = some task → task.phase.active = true →
    s.consumers task.sid = some t
  queued : ∀ sid queue, s.queues sid = some queue →
    queue.Nodup ∧ ∀ i ∈ queue, ∃ item, s.items i = some item ∧ item.sid = sid ∧ item.runs = 0
  current : ∀ sid i, s.currentItems sid = some i →
    ∃ item, s.items i = some item ∧ item.sid = sid ∧ item.runs = 1
  item : ∀ i item, s.items i = some item → ItemInv item

/-- **What the steps must meet**: a consumer that is cancelled has come to its teardown, or
nothing is queued behind its item, and the caller of that item has stopped waiting. -/
def Sound (s : MasterQueue) : QueueAction → Prop
  | .cancel t => ∀ task, s.tasks t = some task → task.phase.active = true →
      ∃ i item, task.phase.item = some i ∧ s.items i = some item ∧ item.future ≠ none
        ∧ (s.queues task.sid).getD [] = []
  | _ => True

theorem SessionInv.of_eq {s' : MasterQueue} (h : SessionInv s sid)
    (hq : s'.queues sid = s.queues sid) (hc : s'.consumers sid = s.consumers sid)
    (hi : s'.currentItems sid = s.currentItems sid) (hb : s'.busySince sid = s.busySince sid)
    (ht : ∀ t task, s.tasks t = some task → task.sid = sid → s'.tasks t = some task) :
    SessionInv s' sid := by
  cases h with
  | idle queue consumer current busy =>
    exact .idle (hq.trans queue) (hc.trans consumer) (hi.trans current) (hb.trans busy)
  | created queue consumer found sid_eq phase current busy =>
    exact .created (hq.trans queue) (hc.trans consumer) (ht _ _ found sid_eq) sid_eq phase
      (hi.trans current) (hb.trans busy)
  | atWork queue consumer found sid_eq item current busy =>
    exact .atWork (hq.trans queue) (hc.trans consumer) (ht _ _ found sid_eq) sid_eq item
      (hi.trans current) (hb.trans busy)

theorem setTask_of_sid_ne {task task' : ConsumerTask} (ht : s.tasks t = some task)
    (hne : sid ≠ task.sid) {j : ℕ} {other : ConsumerTask} (hj : s.tasks j = some other)
    (hsid : other.sid = sid) : (s.setTask t task').tasks j = some other := by
  show Function.update s.tasks t (some task') j = some other
  have hjt : j ≠ t := by
    rintro rfl
    rw [ht] at hj
    cases hj
    exact hne hsid.symm
  rw [Function.update_of_ne hjt]
  exact hj

theorem Inv.modifyItem (h : Inv s) (i : ℕ) {f : QueueItem → QueueItem}
    (hsid : ∀ item, (f item).sid = item.sid) (hruns : ∀ item, (f item).runs = item.runs)
    (hf : ∀ item, s.items i = some item → ItemInv item → ItemInv (f item)) :
    Inv (s.modifyItem i f) := by
  have hitem : ∀ j item, s.items j = some item → ∃ item', (s.modifyItem i f).items j = some item'
      ∧ item'.sid = item.sid ∧ item'.runs = item.runs := by
    intro j item hj
    show ∃ item', Function.update s.items i ((s.items i).map f) j = some item' ∧ _
    by_cases hji : j = i
    · subst hji
      rw [Function.update_self, hj]
      exact ⟨f item, rfl, hsid item, hruns item⟩
    · rw [Function.update_of_ne hji]
      exact ⟨item, hj, rfl, rfl⟩
  refine ⟨fun sid => (h.session sid).of_eq rfl rfl rfl rfl fun _ _ ht _ => ht, h.task, ?_, ?_, ?_⟩
  · intro sid queue hq
    obtain ⟨hnodup, hall⟩ := h.queued sid queue hq
    refine ⟨hnodup, fun j hj => ?_⟩
    obtain ⟨item, hjitem, hjsid, hjruns⟩ := hall j hj
    obtain ⟨item', hitem', hsid', hruns'⟩ := hitem j item hjitem
    exact ⟨item', hitem', hsid'.trans hjsid, hruns'.trans hjruns⟩
  · intro sid j hj
    obtain ⟨item, hjitem, hjsid, hjruns⟩ := h.current sid j hj
    obtain ⟨item', hitem', hsid', hruns'⟩ := hitem j item hjitem
    exact ⟨item', hitem', hsid'.trans hjsid, hruns'.trans hjruns⟩
  · intro j item hj
    by_cases hji : j = i
    · subst hji
      have hj' : Function.update s.items j ((s.items j).map f) j = some item := hj
      rw [Function.update_self] at hj'
      obtain ⟨old, hold, rfl⟩ := Option.map_eq_some_iff.mp hj'
      exact hf old hold (h.item j old hold)
    · refine h.item j item ?_
      rw [← hj]
      exact (Function.update_of_ne hji _ _).symm

theorem Inv.setTask (h : Inv s) {task task' : ConsumerTask} (ht : s.tasks t = some task)
    (hsid : task'.sid = task.sid) (hitem : task'.phase.item = task.phase.item)
    (hactive : task'.phase.active = task.phase.active)
    (hcreated : task.phase = .created → task'.phase = .created) : Inv (s.setTask t task') := by
  have htask : ∀ j other, s.tasks j = some other → ∃ other',
      (s.setTask t task').tasks j = some other' ∧ other'.sid = other.sid
        ∧ other'.phase.item = other.phase.item
        ∧ (other.phase = .created → other'.phase = .created) := by
    intro j other hj
    show ∃ other', Function.update s.tasks t (some task') j = some other' ∧ _
    by_cases hjt : j = t
    · subst hjt
      rw [ht] at hj
      cases hj
      rw [Function.update_self]
      exact ⟨task', rfl, hsid, hitem, hcreated⟩
    · rw [Function.update_of_ne hjt]
      exact ⟨other, hj, rfl, rfl, id⟩
  refine ⟨fun sid => ?_, ?_, h.queued, h.current, h.item⟩
  · cases h.session sid with
    | idle queue consumer current busy => exact .idle queue consumer current busy
    | created queue consumer found sid_eq phase current busy =>
      obtain ⟨other', found', hsid', -, hphase⟩ := htask _ _ found
      exact .created queue consumer found' (hsid'.trans sid_eq) (hphase phase) current busy
    | atWork queue consumer found sid_eq item current busy =>
      obtain ⟨other', found', hsid', hitem', -⟩ := htask _ _ found
      exact .atWork queue consumer found' (hsid'.trans sid_eq) (hitem'.trans item) current busy
  · intro j other hj hact
    by_cases hjt : j = t
    · subst hjt
      have hj' : Function.update s.tasks j (some task') j = some other := hj
      rw [Function.update_self] at hj'
      cases hj'
      rw [hsid]
      exact h.task j task ht (hactive ▸ hact)
    · refine h.task j other ?_ hact
      rw [← hj]
      exact (Function.update_of_ne hjt _ _).symm

/-! ### An item is queued -/

theorem ConsumerPhase.ne_done_of_item {phase : ConsumerPhase} (h : phase.item = some i) :
    phase ≠ .done := by
  rintro rfl
  cases h

theorem ConsumerPhase.active_of_item {phase : ConsumerPhase} (h : phase.item = some i) :
    phase.active = true := by
  cases phase with
  | running | settling => rfl
  | created | waiting | teardown | done => cases h

theorem enqueueWorkItem_of_busy {work : QueueItem} {task' now since : ℕ}
    (hb : s.busySince sid = some since) (hc : s.consumers sid = some t)
    (ht : s.tasks t = some task) (hp : task.phase ≠ .done) :
    s.enqueueWorkItem sid i work task' now = { s with
      queues := Function.update s.queues sid (some ((s.queues sid).getD [] ++ [i]))
      items := Function.update s.items i (some work) } := by
  simp [enqueueWorkItem, markBusy, hb, hasConsumer, hc, taskDone, ht, hp]

theorem enqueueWorkItem_of_idle {work : QueueItem} {task' now : ℕ}
    (hb : s.busySince sid = none) (hc : s.consumers sid = none) :
    s.enqueueWorkItem sid i work task' now = { s with
      queues := Function.update s.queues sid (some ((s.queues sid).getD [] ++ [i]))
      items := Function.update s.items i (some work)
      busySince := Function.update s.busySince sid (some (work.resumedAt.getD now))
      consumers := Function.update s.consumers sid (some task')
      tasks := Function.update s.tasks task' (some { sid }) } := by
  simp [enqueueWorkItem, markBusy, hb, hasConsumer, hc, setTask]

theorem Inv.push {s' : MasterQueue} (h : Inv s) {work : QueueItem} (hi : s.items i = none)
    (hsid : work.sid = sid) (hruns : work.runs = 0) (hwork : ItemInv work)
    (hqueues : s'.queues = Function.update s.queues sid (some ((s.queues sid).getD [] ++ [i])))
    (hitems : s'.items = Function.update s.items i (some work))
    (hcurrent : s'.currentItems = s.currentItems) (hsession : ∀ sid, SessionInv s' sid)
    (htask : ∀ t task, s'.tasks t = some task → task.phase.active = true →
      s'.consumers task.sid = some t) : Inv s' := by
  have hold : ∀ j item, s.items j = some item → s'.items j = some item := by
    intro j item hj
    rw [hitems, Function.update_of_ne]
    · exact hj
    · rintro rfl
      rw [hi] at hj
      cases hj
  refine ⟨hsession, htask, ?_, ?_, ?_⟩
  · intro other queue hq
    rw [hqueues] at hq
    by_cases ho : other = sid
    · subst ho
      rw [Function.update_self] at hq
      cases hq
      have hbefore : ((s.queues other).getD []).Nodup ∧ ∀ j ∈ (s.queues other).getD [],
          ∃ item, s.items j = some item ∧ item.sid = other ∧ item.runs = 0 := by
        cases hq : s.queues other with
        | none => exact ⟨List.nodup_nil, fun _ hj => absurd hj List.not_mem_nil⟩
        | some queue => exact h.queued other queue hq
      constructor
      · refine List.Nodup.append hbefore.1 (List.nodup_singleton i) ?_
        intro j hj hji
        obtain ⟨item, hitem, -⟩ := hbefore.2 j hj
        rw [List.mem_singleton.mp hji, hi] at hitem
        cases hitem
      · intro j hj
        cases List.mem_append.mp hj with
        | inl hj =>
          obtain ⟨item, hitem, hrest⟩ := hbefore.2 j hj
          exact ⟨item, hold j item hitem, hrest⟩
        | inr hj =>
          cases List.mem_singleton.mp hj
          rw [hitems, Function.update_self]
          exact ⟨work, rfl, hsid, hruns⟩
    · rw [Function.update_of_ne ho] at hq
      obtain ⟨hnodup, hall⟩ := h.queued other queue hq
      refine ⟨hnodup, fun j hj => ?_⟩
      obtain ⟨item, hitem, hrest⟩ := hall j hj
      exact ⟨item, hold j item hitem, hrest⟩
  · intro other j hj
    rw [hcurrent] at hj
    obtain ⟨item, hitem, hrest⟩ := h.current other j hj
    exact ⟨item, hold j item hitem, hrest⟩
  · intro j item hj
    rw [hitems] at hj
    by_cases hji : j = i
    · subst hji
      rw [Function.update_self] at hj
      cases hj
      exact hwork
    · rw [Function.update_of_ne hji] at hj
      exact h.item j item hj

/-- **An item is queued** behind those that wait, for the consumer that is registered or for
a new one. -/
theorem Inv.enqueue (h : Inv s) {work : QueueItem} {task' now : ℕ} (hi : s.items i = none)
    (ht : s.tasks task' = none) (hsid : work.sid = sid) (hruns : work.runs = 0)
    (hwork : ItemInv work) : Inv (s.enqueueWorkItem sid i work task' now) := by
  -- the other sessions keep what they have
  have hother : ∀ {s' : MasterQueue},
      s'.queues = Function.update s.queues sid (some ((s.queues sid).getD [] ++ [i])) →
      (∀ other, other ≠ sid → s'.consumers other = s.consumers other
        ∧ s'.busySince other = s.busySince other) →
      s'.currentItems = s.currentItems →
      (∀ t task, s.tasks t = some task → s'.tasks t = some task) →
      ∀ other, other ≠ sid → SessionInv s' other := by
    intro s' hq hcb hcur htasks other ho
    refine (h.session other).of_eq ?_ (hcb other ho).1 ?_ (hcb other ho).2 fun t task hj _ =>
      htasks t task hj
    · rw [hq, Function.update_of_ne ho]
    · rw [hcur]
  cases h.session sid with
  | idle queue consumer current busy =>
    rw [enqueueWorkItem_of_idle busy consumer]
    have htasks : ∀ t task, s.tasks t = some task →
        Function.update s.tasks task' (some { sid }) t = some task := by
      intro t task hj
      rw [Function.update_of_ne]
      · exact hj
      · rintro rfl
        rw [ht] at hj
        cases hj
    refine h.push hi hsid hruns hwork rfl rfl rfl (fun other => ?_) ?_
    · by_cases ho : other = sid
      · subst ho
        refine @SessionInv.created _ _ task' i _ [] _ ?_ (Function.update_self _ _ _)
          (Function.update_self _ _ _) rfl rfl current (Function.update_self _ _ _)
        show Function.update s.queues other _ other = _
        rw [Function.update_self, queue]
        rfl
      · refine hother ?_ ?_ ?_ ?_ other ho
        · rfl
        · exact fun o ho => ⟨Function.update_of_ne ho _ _, Function.update_of_ne ho _ _⟩
        · rfl
        · exact htasks
    · intro t task hj hact
      by_cases htt : t = task'
      · subst htt
        have hj' : Function.update s.tasks t (some { sid }) t = some task := hj
        rw [Function.update_self] at hj'
        cases hj'
        exact Function.update_self _ _ _
      · have hj' : Function.update s.tasks task' (some { sid }) t = some task := hj
        rw [Function.update_of_ne htt] at hj'
        have hreg := h.task t task hj' hact
        have hne : task.sid ≠ sid := by
          rintro rfl
          rw [consumer] at hreg
          cases hreg
        show Function.update s.consumers sid (some task') task.sid = some t
        rw [Function.update_of_ne hne]
        exact hreg
  | @created _ j _ rest _ queue consumer found sid_eq phase current busy =>
    rw [enqueueWorkItem_of_busy busy consumer found (by rw [phase]; exact nofun)]
    refine h.push hi hsid hruns hwork rfl rfl rfl (fun other => ?_) h.task
    by_cases ho : other = sid
    · subst ho
      have hqueue : Function.update s.queues other (some ((s.queues other).getD [] ++ [i])) other
          = some (j :: (rest ++ [i])) := by
        rw [Function.update_self, queue]
        rfl
      exact .created hqueue consumer found sid_eq phase current busy
    · refine hother ?_ ?_ ?_ ?_ other ho
      · rfl
      · exact fun _ _ => ⟨rfl, rfl⟩
      · rfl
      · exact fun _ _ hj => hj
  | atWork queue consumer found sid_eq item current busy =>
    rw [enqueueWorkItem_of_busy busy consumer found (ConsumerPhase.ne_done_of_item item)]
    refine h.push hi hsid hruns hwork rfl rfl rfl (fun other => ?_) h.task
    by_cases ho : other = sid
    · subst ho
      exact .atWork (Function.update_self _ _ _) consumer found sid_eq item current busy
    · refine hother ?_ ?_ ?_ ?_ other ho
      · rfl
      · exact fun _ _ => ⟨rfl, rfl⟩
      · rfl
      · exact fun _ _ hj => hj

/-! ### An item is taken -/

theorem Inv.of_created (h : Inv s) (ht : s.tasks t = some task) (hp : task.phase = .created) :
    ∃ i rest since, s.queues task.sid = some (i :: rest) ∧ s.consumers task.sid = some t
      ∧ s.busySince task.sid = some since := by
  have hreg := h.task t task ht (by rw [hp]; rfl)
  cases h.session task.sid with
  | idle _ consumer _ _ =>
    rw [consumer] at hreg
    cases hreg
  | @created _ i since rest _ queue consumer _ _ _ _ busy =>
    rw [consumer] at hreg
    cases hreg
    exact ⟨i, rest, since, queue, consumer, busy⟩
  | atWork _ consumer found _ item _ _ =>
    rw [consumer] at hreg
    cases hreg
    rw [ht] at found
    cases found
    rw [hp] at item
    cases item

theorem Inv.of_item (h : Inv s) (ht : s.tasks t = some task) (hi : task.phase.item = some i) :
    ∃ queue since, s.queues task.sid = some queue ∧ s.consumers task.sid = some t
      ∧ s.currentItems task.sid = some i ∧ s.busySince task.sid = some since := by
  have hreg := h.task t task ht (ConsumerPhase.active_of_item hi)
  cases h.session task.sid with
  | idle _ consumer _ _ =>
    rw [consumer] at hreg
    cases hreg
  | created _ consumer found _ phase _ _ =>
    rw [consumer] at hreg
    cases hreg
    rw [ht] at found
    cases found
    rw [phase] at hi
    cases hi
  | @atWork _ j since queue _ hqueue consumer found _ item current busy =>
    rw [consumer] at hreg
    cases hreg
    rw [ht] at found
    cases found
    rw [hi] at item
    cases item
    exact ⟨queue, since, hqueue, consumer, current, busy⟩

/-- No consumer waits for an item: one is only started behind an item, and goes on only to
another one. -/
theorem Inv.phase_ne_waiting (h : Inv s) (ht : s.tasks t = some task) : task.phase ≠ .waiting := by
  intro hp
  have hreg := h.task t task ht (by rw [hp]; rfl)
  cases h.session task.sid with
  | idle _ consumer _ _ =>
    rw [consumer] at hreg
    cases hreg
  | created _ consumer found _ phase _ _ =>
    rw [consumer] at hreg
    cases hreg
    rw [ht] at found
    cases found
    rw [phase] at hp
    cases hp
  | atWork _ consumer found _ item _ _ =>
    rw [consumer] at hreg
    cases hreg
    rw [ht] at found
    cases found
    rw [hp] at item
    cases item

theorem takeNext_of_cons {rest : List ℕ} (hqueue : s.queues task.sid = some (i :: rest)) :
    s.takeNext t task = { s with
      queues := Function.update s.queues task.sid (some rest)
      currentItems := Function.update s.currentItems task.sid (some i)
      items := Function.update s.items i ((s.items i).map fun item => item.take task)
      tasks := Function.update s.tasks t (some { task with phase := .running i }) } := by
  unfold takeNext
  rw [hqueue]
  rfl

theorem takeNext_setTask (s : MasterQueue) (t : ℕ) (task : ConsumerTask) (phase : ConsumerPhase) :
    (s.setTask t { task with phase }).takeNext t { task with phase } = s.takeNext t task := by
  unfold takeNext
  show (match s.queues task.sid with
    | some (i :: rest) => _
    | some [] => _
    | none => _) = _
  cases s.queues task.sid with
  | none => simp only [setTask, Function.update_idem]
  | some queue =>
    cases queue with
    | nil => simp only [setTask, Function.update_idem]
    | cons i rest =>
      simp only [setTask, modifyItem, Function.update_idem]
      rfl

theorem Inv.takeNext (h : Inv s) (ht : s.tasks t = some task) (hp : task.phase = .created) :
    Inv (s.takeNext t task) := by
  obtain ⟨i, rest, since, hqueue, hconsumer, hbusy⟩ := h.of_created ht hp
  obtain ⟨hnodup, hall⟩ := h.queued task.sid (i :: rest) hqueue
  obtain ⟨item, hitem, hsid, hruns⟩ := hall i List.mem_cons_self
  obtain ⟨-, hres, hdone⟩ := h.item i item hitem
  rw [takeNext_of_cons hqueue, hitem]
  have hone : (item.take task).runs = 1 := by
    show item.runs + 1 = 1
    rw [hruns]
  -- an item of another session, or one that was taken before, is another one
  have hother : ∀ {sid : String} {j : ℕ} {other : QueueItem}, sid ≠ task.sid →
      s.items j = some other → other.sid = sid → j ≠ i := by
    rintro sid j other hs hj hosid rfl
    rw [hitem] at hj
    cases hj
    exact hs (hosid.symm.trans hsid)
  refine ⟨fun sid => ?_, fun j other hj hact => ?_, fun sid queue hq => ?_, fun sid j hj => ?_,
    fun j other hj => ?_⟩
  · by_cases hs : sid = task.sid
    · subst hs
      exact .atWork (Function.update_self _ _ _) hconsumer (Function.update_self _ _ _) rfl rfl
        (Function.update_self _ _ _) hbusy
    · exact (h.session sid).of_eq (Function.update_of_ne hs _ _) rfl (Function.update_of_ne hs _ _)
        rfl fun j other hj hjsid => setTask_of_sid_ne ht hs hj hjsid
  · by_cases hjt : j = t
    · subst hjt
      simp only [Function.update_self] at hj
      cases hj
      exact hconsumer
    · simp only [Function.update_of_ne hjt] at hj
      exact h.task j other hj hact
  · by_cases hs : sid = task.sid
    · subst hs
      simp only [Function.update_self] at hq
      cases hq
      refine ⟨hnodup.of_cons, fun j hj => ?_⟩
      have hji : j ≠ i := by
        rintro rfl
        exact (List.nodup_cons.mp hnodup).1 hj
      simp only [Function.update_of_ne hji]
      exact hall j (List.mem_cons_of_mem _ hj)
    · simp only [Function.update_of_ne hs] at hq
      obtain ⟨hnodup', hall'⟩ := h.queued sid queue hq
      refine ⟨hnodup', fun j hj => ?_⟩
      obtain ⟨other, hjother, hosid, horuns⟩ := hall' j hj
      simp only [Function.update_of_ne (hother hs hjother hosid)]
      exact ⟨other, hjother, hosid, horuns⟩
  · by_cases hs : sid = task.sid
    · subst hs
      simp only [Function.update_self] at hj
      cases hj
      exact ⟨item.take task, Function.update_self _ _ _, hsid, hone⟩
    · simp only [Function.update_of_ne hs] at hj
      obtain ⟨other, hjother, hosid, horuns⟩ := h.current sid j hj
      simp only [Function.update_of_ne (hother hs hjother hosid)]
      exact ⟨other, hjother, hosid, horuns⟩
  · by_cases hji : j = i
    · subst hji
      simp only [Function.update_self] at hj
      cases hj
      exact ⟨Nat.le_of_eq hone, hres, hdone⟩
    · simp only [Function.update_of_ne hji] at hj
      exact h.item j other hj

/-! ### An item is consumed -/

theorem ItemInv.resolve {item : QueueItem} (h : ItemInv item) (outcome : FutureOutcome) :
    ItemInv (item.resolve outcome) := by
  unfold QueueItem.resolve
  split
  next hnone =>
    refine ⟨h.runs_le, ?_, fun _ => nofun⟩
    rw [h.resolutions_eq, if_pos hnone]
    rfl
  next => exact h

theorem future_resolve (item : QueueItem) (outcome : FutureOutcome) :
    (item.resolve outcome).future ≠ none := by
  unfold QueueItem.resolve
  split
  next => exact nofun
  next hsome => exact hsome

theorem ItemInv.consume {item : QueueItem} (h : ItemInv item) {outcome : Option FutureOutcome}
    (ho : outcome = none → item.future ≠ none) : ItemInv (item.consume outcome) := by
  cases outcome with
  | none => exact ⟨h.runs_le, h.resolutions_eq, fun _ => ho rfl⟩
  | some outcome =>
    obtain ⟨hruns, hres, -⟩ := h.resolve outcome
    exact ⟨hruns, hres, fun _ => future_resolve item outcome⟩

theorem resolve_sid (item : QueueItem) (outcome : FutureOutcome) :
    (item.resolve outcome).sid = item.sid := by
  unfold QueueItem.resolve
  split <;> rfl

theorem resolve_runs (item : QueueItem) (outcome : FutureOutcome) :
    (item.resolve outcome).runs = item.runs := by
  unfold QueueItem.resolve
  split <;> rfl

theorem consume_sid (item : QueueItem) (outcome : Option FutureOutcome) :
    (item.consume outcome).sid = item.sid := by
  cases outcome with
  | none => rfl
  | some outcome => exact resolve_sid item outcome

theorem consume_runs (item : QueueItem) (outcome : Option FutureOutcome) :
    (item.consume outcome).runs = item.runs := by
  cases outcome with
  | none => rfl
  | some outcome => exact resolve_runs item outcome

/-- **A consumer is done with an item and takes the next one.** -/
theorem Inv.settle_takeNext {j : ℕ} {rest : List ℕ} {outcome : Option FutureOutcome} (h : Inv s)
    (ht : s.tasks t = some task) (hi : task.phase.item = some i)
    (ho : outcome = none → ∀ item, s.items i = some item → item.future ≠ none)
    (hq : s.queues task.sid = some (j :: rest)) : Inv ((s.release task i outcome).takeNext t task) := by
  obtain ⟨queue, since, hqueue, hconsumer, hcurrent, hbusy⟩ := h.of_item ht hi
  have hconsumed := h.modifyItem i (f := fun item => item.consume outcome)
    (fun item => consume_sid item outcome) (fun item => consume_runs item outcome)
    fun item hitem hinv => hinv.consume fun hnone => ho hnone item hitem
  -- as if the consumer were to begin with the next item
  have hbetween : Inv ((s.release task i outcome).setTask t { task with phase := .created }) := by
    refine ⟨fun sid => ?_, fun k other hk hact => ?_, hconsumed.queued, fun sid k hk => ?_,
      hconsumed.item⟩
    · by_cases hs : sid = task.sid
      · subst hs
        exact .created hq hconsumer (Function.update_self _ _ _) rfl rfl
          (Function.update_self _ _ _) hbusy
      · exact (h.session sid).of_eq rfl rfl (Function.update_of_ne hs _ _) rfl
          fun k other hk hksid => setTask_of_sid_ne ht hs hk hksid
    · by_cases hkt : k = t
      · subst hkt
        have hk' : Function.update s.tasks k (some { task with phase := .created }) k
            = some other := hk
        rw [Function.update_self] at hk'
        cases hk'
        exact hconsumer
      · refine h.task k other ?_ hact
        rw [← hk]
        exact (Function.update_of_ne hkt _ _).symm
    · by_cases hs : sid = task.sid
      · subst hs
        have hk' : Function.update s.currentItems task.sid none task.sid = some k := hk
        rw [Function.update_self] at hk'
        cases hk'
      · refine hconsumed.current sid k ?_
        rw [← hk]
        exact (Function.update_of_ne hs _ _).symm
  have hnext := hbetween.takeNext (Function.update_self _ _ _) rfl
  rw [takeNext_setTask] at hnext
  exact hnext

/-- **A consumer is done with its last item**, and takes itself off the register. -/
theorem Inv.settle_teardown {outcome : Option FutureOutcome} (h : Inv s)
    (ht : s.tasks t = some task) (hi : task.phase.item = some i)
    (ho : outcome = none → ∀ item, s.items i = some item → item.future ≠ none)
    (hq : (s.queues task.sid).getD [] = []) : Inv ((s.release task i outcome).teardown t task) := by
  obtain ⟨queue, since, hqueue, hconsumer, hcurrent, hbusy⟩ := h.of_item ht hi
  have hconsumed := h.modifyItem i (f := fun item => item.consume outcome)
    (fun item => consume_sid item outcome) (fun item => consume_runs item outcome)
    fun item hitem hinv => hinv.consume fun hnone => ho hnone item hitem
  have hempty : s.queues task.sid = some [] := by
    rw [hqueue] at hq ⊢
    exact congrArg some hq
  have hphase : (if task.phase = .waiting then ConsumerPhase.done else .teardown) = .teardown :=
    if_neg (h.phase_ne_waiting ht)
  have hqueues : ∀ sid, sid ≠ task.sid → ((s.release task i outcome).teardown t task).queues sid
      = s.queues sid := fun sid hs => Function.update_of_ne hs _ _
  have hgone : ((s.release task i outcome).teardown t task).queues task.sid = none := by
    show Function.update s.queues task.sid (if s.queues task.sid = some [] then none
      else s.queues task.sid) task.sid = none
    rw [Function.update_self, if_pos hempty]
  refine ⟨fun sid => ?_, fun k other hk hact => ?_, fun sid queue hqs => ?_, fun sid k hk => ?_,
    hconsumed.item⟩
  · by_cases hs : sid = task.sid
    · subst hs
      exact .idle hgone (Function.update_self _ _ _) (Function.update_self _ _ _)
        (Function.update_self _ _ _)
    · exact (h.session sid).of_eq (hqueues sid hs) (Function.update_of_ne hs _ _)
        (Function.update_of_ne hs _ _) (Function.update_of_ne hs _ _)
        fun k other hk hksid => setTask_of_sid_ne ht hs hk hksid
  · by_cases hkt : k = t
    · subst hkt
      have hk' : Function.update s.tasks k (some { task with phase := if task.phase = .waiting then
        ConsumerPhase.done else .teardown }) k = some other := hk
      rw [Function.update_self, hphase] at hk'
      cases hk'
      cases hact
    · have hk' : s.tasks k = some other := by
        rw [← hk]
        exact (Function.update_of_ne hkt _ _).symm
      have hreg := h.task k other hk' hact
      have hs : other.sid ≠ task.sid := by
        intro hs
        rw [hs, hconsumer] at hreg
        exact hkt (Option.some.inj hreg).symm
      show Function.update s.consumers task.sid none other.sid = some k
      rw [Function.update_of_ne hs]
      exact hreg
  · by_cases hs : sid = task.sid
    · subst hs
      rw [hgone] at hqs
      cases hqs
    · rw [hqueues sid hs] at hqs
      exact hconsumed.queued sid queue hqs
  · by_cases hs : sid = task.sid
    · subst hs
      have hk' : Function.update s.currentItems task.sid none task.sid = some k := hk
      rw [Function.update_self] at hk'
      cases hk'
    · refine hconsumed.current sid k ?_
      rw [← hk]
      exact (Function.update_of_ne hs _ _).symm

/-- **A consumer is done with an item**: its future is resolved. -/
theorem Inv.settle (h : Inv s) (ht : s.tasks t = some task) (hi : task.phase.item = some i)
    (outcome : FutureOutcome) : Inv (s.settle t task i outcome) := by
  unfold MasterQueue.settle
  dsimp only
  split
  next hq => exact h.settle_teardown ht hi nofun hq
  next hq =>
    cases hqueue : s.queues task.sid with
    | none =>
      refine absurd ?_ hq
      show (s.queues task.sid).getD [] = []
      rw [hqueue]
      rfl
    | some queue =>
      cases queue with
      | nil =>
        refine absurd ?_ hq
        show (s.queues task.sid).getD [] = []
        rw [hqueue]
        rfl
      | cons j rest => exact h.settle_takeNext ht hi nofun hqueue

/-! ### The steps after a run -/

theorem Inv.reach (h : Inv s) (ht : s.tasks t = some task) (hi : task.phase.item = some i)
    (result : RunResult) (now : ℕ) (steps : List SettleStep) :
    Inv (s.reach t task i result now steps) := by
  have hactive := ConsumerPhase.active_of_item hi
  have hcreated : ∀ {phase}, task.phase = .created → phase = ConsumerPhase.created := by
    intro phase hp
    rw [hp] at hi
    cases hi
  cases steps with
  | nil => exact h.settle ht hi _
  | cons step rest =>
    cases step with
    | resumeAnchor id =>
      refine Inv.setTask (h.modifyItem i ?_ ?_ ?_) ht rfl hi.symm hactive.symm hcreated
      · exact fun _ => rfl
      · exact fun _ => rfl
      · exact fun _ _ hinv => ⟨hinv.runs_le, hinv.resolutions_eq, hinv.resolved⟩
    | claudeAccount account => exact h.setTask ht rfl hi.symm hactive.symm hcreated
    | masterDone =>
      have hdone : Inv { s with dones := s.masterDone task.sid i result now :: s.dones } :=
        ⟨fun sid => (h.session sid).of_eq rfl rfl rfl rfl fun _ _ hj _ => hj, h.task, h.queued,
          h.current, h.item⟩
      exact hdone.setTask ht rfl hi.symm hactive.symm hcreated
    | zeroOutputError => exact h.setTask ht rfl hi.symm hactive.symm hcreated
    | clearMasterRun => exact h.setTask ht rfl hi.symm hactive.symm hcreated

/-! ## Runs -/

theorem Inv.step {s' : MasterQueue} {a : QueueAction} (h : Inv s) (hsound : s.Sound a)
    (hstep : s.step a = some s') : Inv s' := by
  cases a with
  | enqueue i work task now =>
    simp only [MasterQueue.step] at hstep
    split at hstep
    next hnew =>
      cases hstep
      obtain ⟨hi, ht, hfuture, hres, hruns, hconsumed⟩ := hnew
      refine h.enqueue hi ht rfl hruns ⟨?_, ?_, ?_⟩
      · rw [hruns]
        exact Nat.zero_le 1
      · rw [hres, if_pos hfuture]
      · rw [hconsumed]
        exact nofun
    next => cases hstep
  | start t =>
    simp only [MasterQueue.step, Option.bind_eq_bind, Option.bind_eq_some_iff] at hstep
    obtain ⟨task, ht, hstep⟩ := hstep
    split at hstep
    next hp =>
      cases hstep
      exact h.takeNext ht hp
    next => cases hstep
  | get t =>
    simp only [MasterQueue.step, Option.bind_eq_bind, Option.bind_eq_some_iff] at hstep
    obtain ⟨task, ht, hstep⟩ := hstep
    split at hstep
    next hp _ => exact absurd hp (h.phase_ne_waiting ht)
    next => cases hstep
  | ran t result now =>
    simp only [MasterQueue.step, Option.bind_eq_bind, Option.bind_eq_some_iff] at hstep
    obtain ⟨task, ht, hstep⟩ := hstep
    split at hstep
    next i hp =>
      obtain ⟨item, -, hstep⟩ := Option.bind_eq_some_iff.mp hstep
      cases hstep
      refine Inv.reach (h.modifyItem i ?_ ?_ ?_) ht (by rw [hp]; rfl) result now _
      · exact fun _ => rfl
      · exact fun _ => rfl
      · exact fun _ _ hinv => ⟨hinv.runs_le, hinv.resolutions_eq, hinv.resolved⟩
    next => cases hstep
  | settled t now =>
    simp only [MasterQueue.step, Option.bind_eq_bind, Option.bind_eq_some_iff] at hstep
    obtain ⟨task, ht, hstep⟩ := hstep
    split at hstep
    next i result step rest hp =>
      cases hstep
      exact h.reach ht (by rw [hp]; rfl) result now rest
    next => cases hstep
  | fail t =>
    simp only [MasterQueue.step, Option.bind_eq_bind, Option.bind_eq_some_iff] at hstep
    obtain ⟨task, ht, i, hi, hstep⟩ := hstep
    cases hstep
    exact h.settle ht hi .exception
  | cancel t =>
    simp only [MasterQueue.step, Option.bind_eq_bind, Option.bind_eq_some_iff] at hstep
    obtain ⟨task, ht, hstep⟩ := hstep
    split at hstep
    next => cases hstep
    next hdone =>
      cases hstep
      cases hact : task.phase.active with
      | true =>
        obtain ⟨i, item, hi, hitem, hfuture, hq⟩ := hsound task ht hact
        have hover : s.cancelTask t task = (s.release task i none).teardown t task := by
          unfold cancelTask
          cases hp : task.phase with
          | running j | settling j result steps =>
            rw [hp] at hi
            cases hi
            rfl
          | created | waiting | teardown | done =>
            rw [hp] at hi
            cases hi
        rw [hover]
        refine h.settle_teardown ht hi (fun _ other hother => ?_) hq
        rw [hitem] at hother
        cases hother
        exact hfuture
      | false =>
        cases hp : task.phase with
        | teardown =>
          have hover : s.cancelTask t task = s.setTask t { task with phase := .done } := by
            unfold cancelTask
            rw [hp]
          rw [hover]
          refine h.setTask ht rfl (by rw [hp]; rfl) (by rw [hp]; rfl) fun hcreated => ?_
          rw [hp] at hcreated
          cases hcreated
        | done => exact absurd hp hdone
        | created | waiting | running | settling =>
          rw [hp] at hact
          cases hact
  | told t =>
    simp only [MasterQueue.step, Option.bind_eq_bind, Option.bind_eq_some_iff] at hstep
    obtain ⟨task, ht, hstep⟩ := hstep
    split at hstep
    next hp =>
      cases hstep
      refine h.setTask ht rfl (by rw [hp]; rfl) (by rw [hp]; rfl) fun hcreated => ?_
      rw [hp] at hcreated
      cases hcreated
    next => cases hstep
  | cancelFuture i =>
    simp only [MasterQueue.step, Option.bind_eq_bind, Option.bind_eq_some_iff] at hstep
    obtain ⟨item, -, hstep⟩ := hstep
    split at hstep
    next =>
      cases hstep
      exact h.modifyItem i (fun item => resolve_sid item _) (fun item => resolve_runs item _)
        fun _ _ hinv => hinv.resolve _
    next => cases hstep

theorem Inv.initial : Inv {} := by
  refine ⟨fun _ => .idle rfl rfl rfl rfl, ?_, ?_, ?_, ?_⟩
  · exact nofun
  · exact nofun
  · exact nofun
  · exact nofun

theorem Inv.live (h : Inv s) : s.Live := by
  refine ⟨fun sid => ?_, fun i item hi => ?_⟩
  · unfold Owed
    cases h.session sid with
    | idle queue consumer current busy =>
      rw [queue, current, busy]
      simp
    | @created t i since rest task queue consumer found sid_eq phase current busy =>
      rw [queue, current, busy]
      refine ⟨by simp, fun _ => ⟨t, task, consumer, found, sid_eq, ?_⟩⟩
      rw [phase]
      exact nofun
    | @atWork t i since rest task queue consumer found sid_eq item current busy =>
      rw [current, busy]
      exact ⟨by simp, fun _ => ⟨t, task, consumer, found, sid_eq,
        ConsumerPhase.ne_done_of_item item⟩⟩
  · obtain ⟨hruns, hres, hdone⟩ := h.item i item hi
    refine ⟨hruns, ?_, fun hconsumed => ?_⟩
    · rw [hres]
      split
      next => exact Nat.zero_le 1
      next => exact Nat.le_refl 1
    · rw [hres, if_neg (hdone hconsumed)]

/-- **The queues stay live**: whatever is queued, runs, fails or is given up, in whatever order,
as long as no consumer is cancelled while it has work. -/
theorem live_of_guarded {as : List QueueAction} (hsound : system.Guarded Sound {} as)
    (h : system.run {} as = some s) : s.Live :=
  (TransitionSystem.run_invariant_of_guarded system (G := Sound)
    (fun _ _ _ hinv hs hstep => hinv.step hs hstep) Inv.initial hsound h).live

theorem guarded_of_no_cancel (s : MasterQueue) {as : List QueueAction}
    (h : ∀ a ∈ as, ∀ t, a ≠ .cancel t) : system.Guarded Sound s as := by
  refine TransitionSystem.guarded_of_invariant system (I := fun _ => True)
    (P := fun a => ∀ t, a ≠ .cancel t) (fun s a _ ha => ?_) (fun _ _ _ _ _ _ => trivial) trivial h
  cases a with
  | cancel t => exact absurd rfl (ha t)
  | enqueue | start | get | ran | settled | fail | told | cancelFuture => trivial

/-- Two messages: the first is answered, the second is given up while it runs. -/
def twoMessages : List QueueAction :=
  [.enqueue 0 { sid := "s" } 0 10, .start 0, .enqueue 1 { sid := "s" } 1 20,
    .ran 0 { ccSessionId := some "c" } 30, .settled 0 31, .settled 0 32, .settled 0 33,
    .cancelFuture 1]

/-- The consumer of the second message is cancelled: nobody waits, and nothing is queued. -/
theorem live_of_guarded_twoMessages :
    ∃ s, system.run {} (twoMessages ++ [.cancel 0]) = some s ∧ s.Live ∧ s.queues "s" = none := by
  have hrun : (system.run {} (twoMessages ++ [.cancel 0])).map (fun s => s.queues "s")
      = some none := by decide +kernel
  obtain ⟨s, hs, hqueue⟩ := Option.map_eq_some_iff.mp hrun
  refine ⟨s, hs, live_of_guarded ?_ hs, hqueue⟩
  refine TransitionSystem.guarded_concat (guarded_of_no_cancel _ ?_) fun u hu task ht _ => ?_
  · rintro a ha t rfl
    simp [twoMessages] at ha
  · have hstate := TransitionSystem.eq_of_run_map
      (f := fun u => (u.tasks 0, (u.items 1).map QueueItem.future, u.queues "s"))
      (b := (some { sid := "s", phase := .running 1, lastCcSessionId := some "c" },
        some (some .cancelled), some [])) (by decide +kernel) hu
    simp only [Prod.mk.injEq] at hstate
    obtain ⟨htask, hitem, hq⟩ := hstate
    rw [htask] at ht
    cases ht
    obtain ⟨item, hitem, hfuture⟩ := Option.map_eq_some_iff.mp hitem
    refine ⟨1, item, rfl, hitem, ?_, ?_⟩
    · rw [hfuture]
      exact nofun
    · rw [hq]
      rfl

/-- **A cancelled consumer leaves its queue behind**: an item is queued, nobody will take it,
the session is not busy, and the future of the item that ran is never resolved. -/
theorem queue_left :
    ∃ s, system.run {} [.enqueue 0 { sid := "s" } 0 10, .start 0,
        .enqueue 1 { sid := "s" } 1 20, .cancel 0] = some s
      ∧ s.queues "s" = some [1] ∧ s.consumers "s" = none ∧ s.busySince "s" = none
      ∧ (s.items 0).map (fun item => (item.consumed, item.resolutions)) = some (true, 0)
      ∧ ¬ s.Live := by
  have hrun : (system.run {} [.enqueue 0 { sid := "s" } 0 10, .start 0,
        .enqueue 1 { sid := "s" } 1 20, .cancel 0]).map (fun s => (s.queues "s", s.consumers "s",
          s.busySince "s", (s.items 0).map fun item => (item.consumed, item.resolutions)))
      = some (some [1], none, none, some (true, 0)) := by decide +kernel
  obtain ⟨s, hs, hstate⟩ := Option.map_eq_some_iff.mp hrun
  simp only [Prod.mk.injEq] at hstate
  obtain ⟨hqueue, hconsumer, hbusy, hitem⟩ := hstate
  refine ⟨s, hs, hqueue, hconsumer, hbusy, hitem, fun hlive => ?_⟩
  refine (hlive.1 "s").1.mpr (Or.inl ?_) hbusy
  rw [hqueue]
  exact nofun

end MasterQueue
