import CharlieBot.ReviewChain
import CharlieBot.StepChains

/-!
# The rounds of a scheduled task

A scheduled fire starts a round, and while the round is at work the next fire is
skipped. Whether it is at work is read off one handle: the background task
the fire created. The handle covers the worker it was created for, its finalize
chain and the turn of the master that chain awaits. It does not cover a worker
that the finalize chain starts itself: the next step of a chain, and the reviewer of a
loop's worker, are background tasks of their own, and the handle is done while
they run (`overlapping_steps`). Nor does it cover a worker whose delegation event
could not be persisted, since the handle is put on record after that.

Nothing else escapes it. In every run whose fires find no such worker of an
earlier round at work, no two scheduled rounds are at work at once
(`alone_of_run`); and that is the case in all runs in which no round goes on in
another worker (`alone_of_run_covered`).
-/

namespace ScheduledRounds

/-! ## Background tasks -/

/-- `ScheduledTaskConfig`, as far as the rounds of a task are concerned. -/
structure ScheduledTaskConfig extends ScheduledTask where
  mode : Option String := none
  handler : Option String := none
  loop : Bool := false
  prompt : String := ""

/-- What a background task is at. -/
inductive Job where
  /-- `spawn_worker`, while the worker runs. -/
  | worker (threadId : String)
  /-- The worker ended, and its finalize chain runs. -/
  | finalizing (threadId : String) (exitCode : ℤ)
  /-- `trigger_master`, up to the end of the turn. -/
  | turn
  | done
  deriving DecidableEq

structure Background where
  /-- The scheduled round it belongs to; a run by hand is none. -/
  round : Option ℕ
  /-- Whether it was put on record as the handle of its task. -/
  recorded : Bool
  job : Job
  deriving DecidableEq

/-- Whether the task is not `done()`. -/
def Background.atWork (task : Background) : Bool := task.job ≠ .done

/-- A scheduled task in a server process. -/
structure RoundsState where
  sessionId : String := ""
  config : Option ScheduledTaskConfig := none
  threads : List ThreadMetadata := []
  tasks : List Background := []
  /-- `_handles[task]`. -/
  handle : Option ℕ := none
  /-- The number of scheduled fires. -/
  rounds : ℕ := 0

namespace RoundsState

variable (s : RoundsState)

/-- `handle is not None and not handle.done()`. -/
def handleAtWork : Bool :=
  s.handle.any fun i => (s.tasks[i]?).any Background.atWork

/-- A thread id that was not given out. -/
def IsFresh (id : String) : Prop := ∀ t ∈ s.threads, t.id ≠ id

instance (id : String) : Decidable (s.IsFresh id) := by unfold IsFresh; infer_instance

/-! ## Execution -/

/-- What the execution of a task meets. -/
structure Execution where
  /-- Whether its preamble comes through. -/
  prepared : Bool := true
  /-- `determine_action`. -/
  actionType : String := ""
  loopPrompt : String := ""
  threadId : String
  /-- Whether the backend of its worker is resolved. -/
  backendResolves : Bool := true
  /-- Whether its delegation event is persisted. -/
  eventPersisted : Bool := true

/-- A background task is created, and put on record or not. -/
def start (round : Option ℕ) (recorded : Bool) (job : Job) : RoundsState :=
  { s with
    tasks := s.tasks ++ [⟨round, recorded, job⟩]
    handle := if recorded then some s.tasks.length else s.handle }

/-- `fire_scheduled_worker` on a thread that was created. The handle is put on record
when the event is persisted. -/
def fireScheduledWorker (round : Option ℕ) (recordHandle : Bool) (thread : ThreadMetadata)
    (ex : Execution) : RoundsState :=
  let registered := { s with threads := s.threads ++ [thread] }
  if ex.backendResolves then
    registered.start round (recordHandle && ex.eventPersisted) (.worker thread.id)
  else registered

/-- `_execute_task`, with the functions it routes to. -/
def executeTask (config : ScheduledTaskConfig) (round : Option ℕ) (recordHandle : Bool)
    (ex : Execution) : RoundsState :=
  if config.mode = some "master" then
    if ex.prepared then s.start round recordHandle .turn else s
  -- A handler runs within the tick.
  else if hasText config.handler then s
  else if !ex.prepared then s
  else if config.loop then
    if ex.actionType = "noop" ∨ ex.actionType = "stale_reset" then s
    else s.fireScheduledWorker round recordHandle
      { id := ex.threadId
        sessionId := s.sessionId
        description := ex.loopPrompt
        requireReview := ex.actionType = "implement" } ex
  else if config.steps ≠ [] then
    s.fireScheduledWorker round recordHandle
      { (SpawnStep.mk config.toScheduledTask 0 none none).newThread s.sessionId ex.threadId with
        chainRoot := some ex.threadId
        stepIndex := some 0 } ex
  else
    s.fireScheduledWorker round recordHandle
      { id := ex.threadId
        sessionId := s.sessionId
        description := config.prompt
        requireReview := false } ex

/-! ## What the end of a worker leads to -/

/-- How a finalize chain ends. -/
inductive Continuation where
  /-- Nothing follows; a record of a thread may be left. -/
  | nothing (created : Option ThreadMetadata)
  /-- The master is told, and its turn is awaited. -/
  | wakes
  /-- Another worker is started. -/
  | worker (thread : ThreadMetadata)

structure FinalizeRead where
  /-- The result of the thread's log. -/
  result : Option String := none
  eventsSummary : String := ""
  fullSummary : String := ""
  /-- The id of the next step's thread. -/
  nextId : String
  /-- Whether the backend of the next step is resolved. -/
  backendResolves : Bool := true
  review : ReviewRead

/-- `_wake_master_with_chain`, which judges whether the master was told. -/
def wakeMasterWithChain (read : FinalizeRead) : Continuation :=
  if read.review.masterWoke then .nothing none else .wakes

/-- `handle_step_completion`, for the thread of a step. -/
def handleStepCompletion (thread : ThreadMetadata) (stepIndex : ℕ) (exitCode : ℤ)
    (read : FinalizeRead) : Continuation :=
  match s.config with
  | none => wakeMasterWithChain read
  | some config =>
    if config.steps = [] then wakeMasterWithChain read
    else if exitCode = 0 ∧ stepIndex + 1 < config.steps.length then
      if stepExists s.threads thread.chainRoot (stepIndex + 1) then .nothing none
      else if hasText read.result then
        let spawn : SpawnStep :=
          ⟨config.toScheduledTask, stepIndex + 1, thread.chainRoot, read.result⟩
        let next : ThreadMetadata :=
          { spawn.newThread s.sessionId read.nextId with
            chainRoot := some (thread.chainRoot.getD read.nextId)
            stepIndex := some (stepIndex + 1) }
        if read.backendResolves then .worker next else .nothing (some next)
      else wakeMasterWithChain read
    else wakeMasterWithChain read

/-- What the review chain comes to. -/
def reviewContinuation (effects : ReviewEffects) : Continuation :=
  match effects.spawned with
  | (thread, _) :: _ => .worker thread
  | [] => if effects.triggered = [] then .nothing effects.created else .wakes

/-- `_notify_completion`: a step goes its own way, any other thread is reviewed or told
of. -/
def continuation (threadId : String) (exitCode : ℤ) (read : FinalizeRead) : Continuation :=
  match s.threads.find? (·.id = threadId) with
  | none => .nothing none
  | some thread =>
    match thread.stepIndex with
    | some stepIndex => s.handleStepCompletion thread stepIndex exitCode read
    | none => reviewContinuation
      (maybeSpawnReviewer s.threads thread exitCode read.eventsSummary read.fullSummary read.review)

def goto (i : ℕ) (task : Background) (job : Job) : RoundsState :=
  { s with tasks := s.tasks.set i { task with job } }

/-- The finalize chain of a background task ends. -/
def conclude (i : ℕ) (task : Background) : Continuation → RoundsState
  | .nothing created =>
    { s.goto i task .done with threads := s.threads ++ created.toList }
  | .wakes => s.goto i task .turn
  | .worker thread =>
    { (s.goto i task .done).start task.round false (.worker thread.id) with
      threads := s.threads ++ [thread] }

/-! ## Steps -/

end RoundsState

inductive RoundsAction where
  /-- A tick finds the task due. -/
  | fire (ex : RoundsState.Execution)
  /-- `run_task_now`. -/
  | runTaskNow (ex : RoundsState.Execution)
  /-- A worker ends. -/
  | exit (i : ℕ) (exitCode : ℤ)
  /-- Its finalize chain comes to its end. -/
  | conclude (i : ℕ) (read : RoundsState.FinalizeRead)
  | turnEnds (i : ℕ)
  /-- A background task raises. -/
  | raises (i : ℕ)
  /-- Another thread of the session. -/
  | delegate (thread : ThreadMetadata)
  /-- The task is configured anew, or removed. -/
  | edit (config : Option ScheduledTaskConfig)

namespace RoundsState

variable (s : RoundsState)

/-- `_maybe_run`, of a task that is due: it is fired unless its handle is at work. -/
def maybeRun (config : ScheduledTaskConfig) (ex : Execution) : RoundsState :=
  if s.handleAtWork then s
  else { s.executeTask config (some s.rounds) true ex with rounds := s.rounds + 1 }

def step : RoundsAction → Option RoundsState
  | .fire ex =>
    match s.config with
    | none => none
    | some config => if s.IsFresh ex.threadId then some (s.maybeRun config ex) else none
  | .runTaskNow ex =>
    match s.config with
    | none => none
    | some config =>
      if s.IsFresh ex.threadId then some (s.executeTask config none false ex) else none
  | .exit i exitCode =>
    match s.tasks[i]? with
    | some task =>
      match task.job with
      | .worker threadId => some (s.goto i task (.finalizing threadId exitCode))
      | _ => none
    | none => none
  | .conclude i read =>
    match s.tasks[i]? with
    | some task =>
      match task.job with
      | .finalizing threadId exitCode =>
        if s.IsFresh read.nextId ∧ ∀ id ∈ read.review.reviewThread.toOption, s.IsFresh id then
          some (s.conclude i task (s.continuation threadId exitCode read))
        else none
      | _ => none
    | none => none
  | .turnEnds i =>
    match s.tasks[i]? with
    | some task => if task.job = .turn then some (s.goto i task .done) else none
    | none => none
  | .raises i =>
    match s.tasks[i]? with
    | some task => if task.atWork then some (s.goto i task .done) else none
    | none => none
  | .delegate thread =>
    if s.IsFresh thread.id then some { s with threads := s.threads ++ [thread] } else none
  | .edit config => some { s with config }

def system : TransitionSystem RoundsState RoundsAction := ⟨step⟩

/-! ## What is claimed -/

/-- **No two scheduled rounds are at work at once.** -/
def Alone : Prop :=
  ∀ x ∈ s.tasks, ∀ y ∈ s.tasks, x.atWork = true → y.atWork = true →
    ∀ r q, x.round = some r → y.round = some q → r = q

/-- No worker of a scheduled round that was never put on record as a handle – a later step,
a reviewer, one whose event could not be persisted – is at work. -/
def NoneUncovered : Prop :=
  ∀ task ∈ s.tasks, task.round.isSome = true → task.recorded = false → task.atWork = false

instance : Decidable s.NoneUncovered := by unfold NoneUncovered; infer_instance

/-- The condition on a step: on a fire that is not skipped. -/
def Meets : RoundsAction → Prop
  | .fire _ => s.handleAtWork = false → s.NoneUncovered
  | _ => True

instance (a : RoundsAction) : Decidable (s.Meets a) := by
  unfold Meets
  split <;> infer_instance

/-- Whether the finalize chain ends in another worker. -/
def Continuation.isWorker : Continuation → Bool
  | .worker _ => true
  | _ => false

/-- The condition on a step under which a handle covers its round: no finalize chain ends in
another worker, and no delegation event is lost. -/
def Covered : RoundsAction → Prop
  | .fire ex => ex.eventPersisted = true
  | .conclude i read => ∀ task threadId exitCode, s.tasks[i]? = some task →
    task.job = .finalizing threadId exitCode →
    (s.continuation threadId exitCode read).isWorker = false
  | _ => True

/-! ## What an execution starts -/

variable {s} {t : RoundsState}

/-- **At most one background task is started**, of the round that is executed; where it is
put on record, it is the handle. -/
inductive Starts (s : RoundsState) (round : Option ℕ) (recordHandle : Bool) (t : RoundsState) : Prop
  | none (tasks : t.tasks = s.tasks) (handle : t.handle = s.handle) (rounds : t.rounds = s.rounds)
  | one (recorded : Bool) (job : Job)
    (tasks : t.tasks = s.tasks ++ [⟨round, recorded, job⟩])
    (handle : t.handle = if recorded then some s.tasks.length else s.handle)
    (rounds : t.rounds = s.rounds) (allowed : recorded = true → recordHandle = true)

theorem starts_fireScheduledWorker (round : Option ℕ) (recordHandle : Bool)
    (thread : ThreadMetadata) (ex : Execution) :
    Starts s round recordHandle (s.fireScheduledWorker round recordHandle thread ex) := by
  unfold fireScheduledWorker
  by_cases hbackend : ex.backendResolves = true
  · simp only [hbackend, if_true]
    exact .one _ _ rfl rfl rfl fun h => (Bool.and_eq_true _ _ ▸ h).1
  · simp only [hbackend, Bool.false_eq_true, if_false]
    exact .none rfl rfl rfl

/-- **What `_execute_task` starts**, whatever the kind of the task. -/
theorem starts_executeTask (config : ScheduledTaskConfig) (round : Option ℕ) (recordHandle : Bool)
    (ex : Execution) :
    Starts s round recordHandle (s.executeTask config round recordHandle ex) := by
  unfold executeTask
  split
  · split
    · exact .one _ _ rfl rfl rfl id
    · exact .none rfl rfl rfl
  · split
    · exact .none rfl rfl rfl
    · split
      · exact .none rfl rfl rfl
      · split
        · split
          · exact .none rfl rfl rfl
          · exact starts_fireScheduledWorker ..
        · split
          · exact starts_fireScheduledWorker ..
          · exact starts_fireScheduledWorker ..

theorem recorded_executeTask {config : ScheduledTaskConfig} {round : Option ℕ} {ex : Execution}
    (hpersisted : ex.eventPersisted = true) {task : Background}
    (h : task ∈ (s.executeTask config round true ex).tasks) :
    task ∈ s.tasks ∨ task.recorded = true := by
  have hstart : ∀ (u : RoundsState) (job : Job), u.tasks = s.tasks →
      task ∈ (u.start round true job).tasks → task ∈ s.tasks ∨ task.recorded = true := by
    intro u job hu hmem
    rcases List.mem_append.mp hmem with hold | hnew
    · exact .inl (hu ▸ hold)
    · rw [List.mem_singleton.mp hnew]
      exact .inr rfl
  have hfire : ∀ thread, task ∈ (s.fireScheduledWorker round true thread ex).tasks →
      task ∈ s.tasks ∨ task.recorded = true := by
    intro thread hmem
    unfold fireScheduledWorker at hmem
    simp only [hpersisted, Bool.and_true] at hmem
    split at hmem
    · exact hstart _ _ rfl hmem
    · exact .inl hmem
  unfold executeTask at h
  split at h
  · split at h
    · exact hstart s _ rfl h
    · exact .inl h
  · split at h
    · exact .inl h
    · split at h
      · exact .inl h
      · split at h
        · split at h
          · exact .inl h
          · exact hfire _ h
        · split at h
          · exact hfire _ h
          · exact hfire _ h

/-! ## What holds in every state -/

/-- What holds in every state. -/
structure Inv (s : RoundsState) : Prop where
  /-- What is at work of a scheduled round is of the latest. -/
  latest : ∀ task ∈ s.tasks, task.atWork = true → ∀ r, task.round = some r → r + 1 = s.rounds
  /-- What is at work and was put on record is the handle. -/
  held : ∀ i task, s.tasks[i]? = some task → task.atWork = true → task.recorded = true →
    s.handle = some i

theorem Inv.alone (h : s.Inv) : s.Alone := by
  intro x hx y hy hwork hwork' r q hr hq
  have hlatest := h.latest x hx hwork r hr
  rw [← h.latest y hy hwork' q hq] at hlatest
  exact Nat.succ_injective hlatest

theorem inv_start (sessionId : String) (config : Option ScheduledTaskConfig)
    (threads : List ThreadMetadata) :
    Inv { sessionId := sessionId, config := config, threads := threads } where
  latest _ h := nomatch h
  held _ _ h := nomatch h

theorem Inv.not_atWork_of_recorded (h : s.Inv) (hidle : s.handleAtWork = false)
    {task : Background} (hmem : task ∈ s.tasks) (hrecorded : task.recorded = true) :
    task.atWork = false := by
  obtain ⟨i, hi⟩ := List.mem_iff_getElem?.mp hmem
  by_contra hwork
  rw [Bool.not_eq_false] at hwork
  have hhandle := h.held i task hi hwork hrecorded
  rw [handleAtWork, hhandle, Option.any_some, hi, Option.any_some, hwork] at hidle
  cases hidle

theorem of_mem_set {tasks : List Background} {i j : ℕ} {task x : Background} {job : Job}
    (hi : tasks[i]? = some task) (h : (tasks.set i { task with job })[j]? = some x) :
    ∃ old, tasks[j]? = some old ∧ x.round = old.round ∧ x.recorded = old.recorded
      ∧ (i ≠ j → x = old) ∧ (i = j → x.job = job ∧ old = task) := by
  by_cases hij : i = j
  · subst hij
    rw [List.getElem?_set_self (List.getElem?_eq_some_iff.mp hi).1] at h
    cases h
    exact ⟨task, hi, rfl, rfl, fun hne => absurd rfl hne, fun _ => ⟨rfl, rfl⟩⟩
  · rw [List.getElem?_set_ne hij] at h
    exact ⟨x, h, rfl, rfl, fun _ => rfl, fun heq => absurd heq hij⟩

theorem Inv.goto (h : s.Inv) {i : ℕ} {task : Background} (hi : s.tasks[i]? = some task)
    (hwork : task.atWork = true) (job : Job) : Inv (s.goto i task job) := by
  have hold : ∀ (j : ℕ) (x : Background), (s.tasks.set i { task with job })[j]? = some x →
      x.atWork = true → ∃ old : Background, s.tasks[j]? = some old ∧ old.atWork = true
        ∧ x.round = old.round ∧ x.recorded = old.recorded := by
    intro j x hx hxwork
    obtain ⟨old, hj, hround, hrecorded, hne, heq⟩ := of_mem_set hi hx
    refine ⟨old, hj, ?_, hround, hrecorded⟩
    by_cases hij : i = j
    · rw [(heq hij).2]
      exact hwork
    · rw [← hne hij]
      exact hxwork
  refine ⟨fun x hx hxwork r hr => ?_, fun j x hx hxwork hxrecorded => ?_⟩
  · obtain ⟨j, hj⟩ := List.mem_iff_getElem?.mp hx
    obtain ⟨old, hold, holdwork, hround, -⟩ := hold j x hj hxwork
    exact h.latest old (List.mem_of_getElem? hold) holdwork r (hround ▸ hr)
  · obtain ⟨old, hold, holdwork, -, hrecorded⟩ := hold j x hx hxwork
    exact h.held j old hold holdwork (hrecorded ▸ hxrecorded)

theorem Inv.append (h : s.Inv) {new : Background} (hrecorded : new.recorded = false)
    (hround : ∀ r, new.round = some r → r + 1 = s.rounds) :
    Inv { s with tasks := s.tasks ++ [new] } := by
  refine ⟨fun x hx hwork r hr => ?_, fun j x hx hwork hxrecorded => ?_⟩
  · rcases List.mem_append.mp hx with hold | hnew
    · exact h.latest x hold hwork r hr
    · rw [List.mem_singleton.mp hnew] at hr
      exact hround r hr
  · by_cases hj : j < s.tasks.length
    · rw [List.getElem?_append_left hj] at hx
      exact h.held j x hx hwork hxrecorded
    · rw [List.getElem?_append_right (Nat.le_of_not_lt hj)] at hx
      rw [List.mem_singleton.mp (List.mem_of_getElem? hx), hrecorded] at hxrecorded
      cases hxrecorded

theorem Inv.congr (h : s.Inv) (htasks : t.tasks = s.tasks) (hhandle : t.handle = s.handle)
    (hrounds : t.rounds = s.rounds) : t.Inv := by
  refine ⟨?_, ?_⟩
  · rw [htasks, hrounds]
    exact h.latest
  · rw [htasks, hhandle]
    exact h.held

theorem Inv.runTaskNow (h : s.Inv) (config : ScheduledTaskConfig) (ex : Execution) :
    Inv (s.executeTask config none false ex) := by
  cases starts_executeTask (s := s) config none false ex with
  | none htasks hhandle hrounds => exact h.congr htasks hhandle hrounds
  | one recorded job htasks hhandle hrounds hallowed =>
    have hrecorded : recorded = false := by
      cases recorded with
      | false => rfl
      | true => cases hallowed rfl
    subst hrecorded
    have happend : Inv { s with tasks := s.tasks ++ [⟨none, false, job⟩] } :=
      h.append rfl fun r hr => by cases hr
    exact happend.congr htasks hhandle hrounds

/-- **A fire that finds nothing at work** starts the latest round. -/
theorem Inv.fire (h : s.Inv) (hidle : s.handleAtWork = false) (hnone : s.NoneUncovered)
    (config : ScheduledTaskConfig) (ex : Execution) :
    Inv { s.executeTask config (some s.rounds) true ex with rounds := s.rounds + 1 } := by
  have hquiet : ∀ task ∈ s.tasks, task.atWork = true → task.round = none := by
    intro task hmem hwork
    by_contra hround
    have hsome : task.round.isSome = true := Option.isSome_iff_ne_none.mpr hround
    by_cases hrecorded : task.recorded = true
    · rw [h.not_atWork_of_recorded hidle hmem hrecorded] at hwork
      cases hwork
    · rw [hnone task hmem hsome (Bool.not_eq_true _ ▸ hrecorded)] at hwork
      cases hwork
  have hunrecorded : ∀ task ∈ s.tasks, task.atWork = true → task.recorded = false := by
    intro task hmem hwork
    by_contra hrecorded
    rw [h.not_atWork_of_recorded hidle hmem (Bool.not_eq_false _ ▸ hrecorded)] at hwork
    cases hwork
  cases starts_executeTask (s := s) config (some s.rounds) true ex with
  | none htasks hhandle hrounds =>
    refine ⟨fun x hx hwork r hr => ?_, fun j x hx hwork hxrecorded => ?_⟩
    · rw [hquiet x (htasks ▸ hx) hwork] at hr
      cases hr
    · have hmem := List.mem_of_getElem? hx
      rw [hunrecorded x (htasks ▸ hmem) hwork] at hxrecorded
      cases hxrecorded
  | one recorded job htasks hhandle hrounds hallowed =>
    refine ⟨fun x hx hwork r hr => ?_, fun j x hx hwork hxrecorded => ?_⟩
    · have hx : x ∈ s.tasks ++ [⟨some s.rounds, recorded, job⟩] := htasks ▸ hx
      rcases List.mem_append.mp hx with hold | hnew
      · rw [hquiet x hold hwork] at hr
        cases hr
      · rw [List.mem_singleton.mp hnew] at hr
        cases hr
        rfl
    · have hx : (s.tasks ++ [⟨some s.rounds, recorded, job⟩])[j]? = some x := htasks ▸ hx
      by_cases hj : j < s.tasks.length
      · rw [List.getElem?_append_left hj] at hx
        rw [hunrecorded x (List.mem_of_getElem? hx) hwork] at hxrecorded
        cases hxrecorded
      · rw [List.getElem?_append_right (Nat.le_of_not_lt hj)] at hx
        have hj' : j = s.tasks.length := by
          have hlt := (List.getElem?_eq_some_iff.mp hx).1
          rw [List.length_singleton] at hlt
          omega
        rw [List.mem_singleton.mp (List.mem_of_getElem? hx)] at hxrecorded
        show (s.executeTask config (some s.rounds) true ex).handle = some j
        rw [hhandle, if_pos hxrecorded, hj']

theorem Inv.conclude (h : s.Inv) {i : ℕ} {task : Background} (hi : s.tasks[i]? = some task)
    (hwork : task.atWork = true) (continuation : Continuation) :
    Inv (s.conclude i task continuation) := by
  cases continuation with
  | nothing created => exact (h.goto hi hwork .done).congr rfl rfl rfl
  | wakes => exact h.goto hi hwork .turn
  | worker thread =>
    have hround : ∀ r, task.round = some r → r + 1 = s.rounds :=
      h.latest task (List.mem_of_getElem? hi) hwork
    have happend : Inv { s.goto i task .done with
        tasks := (s.goto i task .done).tasks ++ [⟨task.round, false, .worker thread.id⟩] } :=
      (h.goto hi hwork .done).append rfl hround
    exact happend.congr rfl rfl rfl

theorem atWork_of_job {task : Background} {job : Job} (hjob : task.job = job) (hne : job ≠ .done) :
    task.atWork = true := by
  rw [Background.atWork, hjob]
  exact decide_eq_true hne

/-- **Every step that meets the condition keeps the rounds apart.** -/
theorem Inv.step (h : s.Inv) {a : RoundsAction} (hmeets : s.Meets a) (hstep : s.step a = some t) :
    t.Inv := by
  cases a with
  | fire ex =>
    simp only [RoundsState.step] at hstep
    split at hstep
    · cases hstep
    next config _ =>
      split at hstep
      · cases hstep
        unfold maybeRun
        split
        · exact h
        next hidle =>
          rw [Bool.not_eq_true] at hidle
          exact h.fire hidle (hmeets hidle) config ex
      · cases hstep
  | runTaskNow ex =>
    simp only [RoundsState.step] at hstep
    split at hstep
    · cases hstep
    next config _ =>
      split at hstep
      · cases hstep
        exact h.runTaskNow config ex
      · cases hstep
  | exit i exitCode =>
    simp only [RoundsState.step] at hstep
    split at hstep
    next task hi =>
      split at hstep
      next threadId hjob =>
        cases hstep
        exact h.goto hi (atWork_of_job hjob Job.noConfusion) _
      · cases hstep
    · cases hstep
  | conclude i read =>
    simp only [RoundsState.step] at hstep
    split at hstep
    next task hi =>
      split at hstep
      next threadId exitCode hjob =>
        split at hstep
        · cases hstep
          exact h.conclude hi (atWork_of_job hjob Job.noConfusion) _
        · cases hstep
      · cases hstep
    · cases hstep
  | turnEnds i =>
    simp only [RoundsState.step] at hstep
    split at hstep
    next task hi =>
      split at hstep
      next hjob =>
        cases hstep
        exact h.goto hi (atWork_of_job hjob Job.noConfusion) _
      · cases hstep
    · cases hstep
  | raises i =>
    simp only [RoundsState.step] at hstep
    split at hstep
    next task hi =>
      split at hstep
      next hwork =>
        cases hstep
        exact h.goto hi hwork _
      · cases hstep
    · cases hstep
  | delegate thread =>
    simp only [RoundsState.step] at hstep
    split at hstep
    · cases hstep
      exact h.congr rfl rfl rfl
    · cases hstep
  | edit config =>
    cases hstep
    exact h.congr rfl rfl rfl

/-! ## Where the condition fails -/

theorem mem_executeTask {config : ScheduledTaskConfig} {round : Option ℕ} {recordHandle : Bool}
    {ex : Execution} {task : Background} (h : task ∈ s.tasks) :
    task ∈ (s.executeTask config round recordHandle ex).tasks := by
  cases starts_executeTask (s := s) config round recordHandle ex with
  | none htasks => exact htasks ▸ h
  | one recorded job htasks => exact htasks ▸ List.mem_append_left _ h

/-- **A fire that starts a round keeps the rounds apart exactly if** it finds nothing
uncovered at work. -/
theorem Inv.alone_fire_iff (h : s.Inv) (hidle : s.handleAtWork = false)
    {config : ScheduledTaskConfig} {ex : Execution} {new : Background}
    (hnew : new ∈ (s.executeTask config (some s.rounds) true ex).tasks)
    (hround : new.round = some s.rounds) (hwork : new.atWork = true) :
    Alone { s.executeTask config (some s.rounds) true ex with rounds := s.rounds + 1 }
      ↔ s.NoneUncovered := by
  constructor
  · intro halone task hmem hsome hrecorded
    by_contra htask
    rw [Bool.not_eq_false] at htask
    obtain ⟨r, hr⟩ := Option.isSome_iff_exists.mp hsome
    have hsame : r = s.rounds :=
      halone task (mem_executeTask hmem) new hnew htask hwork r s.rounds hr hround
    exact absurd (hsame ▸ h.latest task hmem htask r hr) (Nat.succ_ne_self r)
  · exact fun hnone => (h.fire hidle hnone config ex).alone

/-! ## Rounds that are covered -/

/-- Everything of a scheduled round was put on record. -/
def AllRecorded (s : RoundsState) : Prop :=
  ∀ task ∈ s.tasks, task.round.isSome = true → task.recorded = true

theorem AllRecorded.noneUncovered (h : s.AllRecorded) : s.NoneUncovered := by
  intro task hmem hsome hrecorded
  rw [h task hmem hsome] at hrecorded
  cases hrecorded

theorem AllRecorded.goto (h : s.AllRecorded) {i : ℕ} {task : Background}
    (hi : s.tasks[i]? = some task) (job : Job) : AllRecorded (s.goto i task job) := by
  intro x hx hsome
  obtain ⟨j, hj⟩ := List.mem_iff_getElem?.mp hx
  obtain ⟨old, hold, hround, hrecorded, -, -⟩ := of_mem_set hi hj
  rw [hrecorded]
  exact h old (List.mem_of_getElem? hold) (hround ▸ hsome)

/-- **Every step that is covered puts what it starts on record.** -/
theorem AllRecorded.step (h : s.AllRecorded) {a : RoundsAction} (hcovered : s.Covered a)
    (hstep : s.step a = some t) : t.AllRecorded := by
  cases a with
  | fire ex =>
    simp only [RoundsState.step] at hstep
    split at hstep
    · cases hstep
    next config _ =>
      split at hstep
      · cases hstep
        unfold maybeRun
        split
        · exact h
        · intro task hmem hsome
          rcases recorded_executeTask hcovered hmem with hold | hrecorded
          · exact h task hold hsome
          · exact hrecorded
      · cases hstep
  | runTaskNow ex =>
    simp only [RoundsState.step] at hstep
    split at hstep
    · cases hstep
    next config _ =>
      split at hstep
      · cases hstep
        intro task hmem hsome
        cases starts_executeTask (s := s) config none false ex with
        | none htasks => exact h task (htasks ▸ hmem) hsome
        | one recorded job htasks =>
          rw [htasks] at hmem
          rcases List.mem_append.mp hmem with hold | hnew
          · exact h task hold hsome
          · rw [List.mem_singleton.mp hnew] at hsome
            cases hsome
      · cases hstep
  | exit i exitCode =>
    simp only [RoundsState.step] at hstep
    split at hstep
    next task hi =>
      split at hstep
      · cases hstep
        exact h.goto hi _
      · cases hstep
    · cases hstep
  | conclude i read =>
    simp only [RoundsState.step] at hstep
    split at hstep
    next task hi =>
      split at hstep
      next threadId exitCode hjob =>
        split at hstep
        · cases hstep
          have hno := hcovered task threadId exitCode hi hjob
          unfold RoundsState.conclude
          split
          · exact h.goto hi .done
          · exact h.goto hi .turn
          next thread hworker =>
            rw [hworker] at hno
            cases hno
        · cases hstep
      · cases hstep
    · cases hstep
  | turnEnds i =>
    simp only [RoundsState.step] at hstep
    split at hstep
    next task hi =>
      split at hstep
      · cases hstep
        exact h.goto hi _
      · cases hstep
    · cases hstep
  | raises i =>
    simp only [RoundsState.step] at hstep
    split at hstep
    next task hi =>
      split at hstep
      · cases hstep
        exact h.goto hi _
      · cases hstep
    · cases hstep
  | delegate thread =>
    simp only [RoundsState.step] at hstep
    split at hstep
    · cases hstep
      exact h
    · cases hstep
  | edit config =>
    cases hstep
    exact h

end RoundsState

/-! ## The main result -/

section Main

variable {sessionId : String} {config : Option ScheduledTaskConfig}
  {threads : List ThreadMetadata} {as : List RoundsAction} {s : RoundsState}

/-- **No two scheduled rounds are at work at once**, in every run whose fires find no worker
of an earlier round at work that was never put on record. -/
theorem alone_of_run
    (hmeets : RoundsState.system.Guarded RoundsState.Meets
      { sessionId := sessionId, config := config, threads := threads } as)
    (hrun : RoundsState.system.run
      { sessionId := sessionId, config := config, threads := threads } as = some s) : s.Alone :=
  (RoundsState.system.run_invariant_of_guarded
    (fun _ _ _ hinv hm hstep => RoundsState.Inv.step hinv hm hstep)
    (RoundsState.inv_start sessionId config threads) hmeets hrun).alone

/-- **Where no round goes on in another worker, the handle covers it**: then no two
scheduled rounds are at work at once, whatever the fires find. -/
theorem alone_of_run_covered
    (hcovered : RoundsState.system.Guarded RoundsState.Covered
      { sessionId := sessionId, config := config, threads := threads } as)
    (hrun : RoundsState.system.run
      { sessionId := sessionId, config := config, threads := threads } as = some s) : s.Alone := by
  have hstep : ∀ u a v, RoundsState.Inv u ∧ u.AllRecorded → u.Covered a →
      RoundsState.system.step u a = some v → v.Inv ∧ v.AllRecorded := by
    intro u a v hu hc hv
    have hmeets : u.Meets a := by
      unfold RoundsState.Meets
      split
      · exact fun _ => hu.2.noneUncovered
      · trivial
    exact ⟨hu.1.step hmeets hv, hu.2.step hc hv⟩
  have hboth := RoundsState.system.run_invariant_of_guarded hstep
    ⟨RoundsState.inv_start sessionId config threads, fun _ h => nomatch h⟩ hcovered hrun
  exact hboth.1.alone

end Main

/-! ## Two rounds of one chain of steps -/

/-- A task of two steps. -/
def nightly : ScheduledTaskConfig where
  name := "nightly"
  steps := [⟨"collect", "Collect the numbers of the day.", none⟩,
    ⟨"report", "Write the report.", none⟩]

def probe : ScheduledTaskConfig where
  name := "probe"
  prompt := "Look at the logs."

/-- A finalize chain that finds a result and a master that was not told. -/
def readResult (nextId : String) : RoundsState.FinalizeRead where
  result := some "42 events"
  nextId := nextId
  review :=
    { cfg := {}
      currentBranch := .ok "main"
      prompt := .ok ""
      reviewThread := .error "none" }

/-- A prompt that is fired, skipped while its worker runs and while the master is told, and
fired again. -/
theorem alone_of_run_prompt :
    ∃ s, RoundsState.system.run { sessionId := "s1", config := some probe, threads := [] }
        [.fire { threadId := "t1" }, .fire { threadId := "t2" }, .exit 0 0,
          .conclude 0 (readResult "t3"), .fire { threadId := "t2" }, .turnEnds 0,
          .fire { threadId := "t2" }] = some s
      ∧ s.tasks = [⟨some 0, true, .done⟩, ⟨some 1, true, .worker "t2"⟩] ∧ s.Alone := by
  obtain ⟨s, hrun, htasks⟩ := Option.map_eq_some_iff.mp
    (show (RoundsState.system.run { sessionId := "s1", config := some probe, threads := [] }
        [.fire { threadId := "t1" }, .fire { threadId := "t2" }, .exit 0 0,
          .conclude 0 (readResult "t3"), .fire { threadId := "t2" }, .turnEnds 0,
          .fire { threadId := "t2" }]).map RoundsState.tasks
      = some [⟨some 0, true, .done⟩, ⟨some 1, true, .worker "t2"⟩] by decide +kernel)
  exact ⟨s, hrun, htasks,
    alone_of_run (TransitionSystem.guarded_of_check (by decide +kernel)) hrun⟩

/-- A prompt is fired again while its worker runs, and when it has ended. -/
def firedAgain : List RoundsAction :=
  [.fire { threadId := "t1" }, .fire { threadId := "t2" }, .exit 0 0, .fire { threadId := "t2" }]

theorem alone_of_run_covered_prompt :
    ∃ s, RoundsState.system.run { sessionId := "s1", config := some probe, threads := [] }
      firedAgain = some s ∧ s.Alone := by
  have hcovered : RoundsState.system.Guarded RoundsState.Covered
      { sessionId := "s1", config := some probe, threads := [] } firedAgain :=
    ⟨rfl, fun _ _ => ⟨rfl, fun _ _ => ⟨trivial, fun _ _ => ⟨rfl, fun _ _ => trivial⟩⟩⟩⟩
  obtain ⟨s, hrun⟩ := Option.isSome_iff_exists.mp
    (show (RoundsState.system.run { sessionId := "s1", config := some probe, threads := [] }
      firedAgain).isSome by decide +kernel)
  exact ⟨s, hrun, alone_of_run_covered hcovered hrun⟩

/-- **Two rounds of one chain of steps**: the first step ends, the second is at work, and the
next fire starts the first step again. -/
theorem overlapping_steps :
    ∃ s, RoundsState.system.run { sessionId := "s1", config := some nightly, threads := [] }
        [.fire { threadId := "t1" }, .exit 0 0, .conclude 0 (readResult "t2"),
          .fire { threadId := "t3" }] = some s
      ∧ ¬ s.Alone := by
  obtain ⟨s, hrun, htasks⟩ := Option.map_eq_some_iff.mp
    (show (RoundsState.system.run { sessionId := "s1", config := some nightly, threads := [] }
        [.fire { threadId := "t1" }, .exit 0 0, .conclude 0 (readResult "t2"),
          .fire { threadId := "t3" }]).map RoundsState.tasks
      = some [⟨some 0, true, .done⟩, ⟨some 0, false, .worker "t2"⟩, ⟨some 1, true, .worker "t3"⟩]
      by decide +kernel)
  refine ⟨s, hrun, fun halone => ?_⟩
  rw [RoundsState.Alone, htasks] at halone
  have hsame : (0 : ℕ) = 1 := halone ⟨some 0, false, .worker "t2"⟩ (by simp)
    ⟨some 1, true, .worker "t3"⟩ (by simp) rfl rfl 0 1 rfl rfl
  cases hsame

end ScheduledRounds
