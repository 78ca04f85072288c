import CharlieBot.ReviewChain
import CharlieBot.StepChains
import CharlieBot.WorkerFinalize
import Mathlib.Data.List.DropRight

/-!
# Workers that were never started

A worker's thread is registered first and its process started later. When the
server dies in between, the next boot finds a record without a process and
asks for the worker again. What was asked for the first time is not kept as
such: the boot puts it together from the record of the thread and the
delegation event of the chat log, and fills the rest with defaults.

For a delegation that is enough, whatever its task type (`told_payload`). A
scheduled worker's event holds no invocation. What the boot then asks for has
the description of the thread for its prompt, the repository only if the
first attempt came as far as the worktree, and the default backend of the
session. So the step of a chain, whose thread is described by its name, is
respawned with its name for a task (`respawned_with_another_prompt`), and
`reconciled_iff` says of every thread a crash leaves behind when the request
is the one that was made or the thread is failed.
-/

namespace Respawn

/-! ## Requests -/

inductive TaskType where
  | implement
  | quickEdit
  | scriptRun
  | verify
  deriving DecidableEq

structure SpawnRequest where
  repoPath : Option String := none
  context : Option String := none
  promptOverride : Option String := none
  resolvedBackend : String := ""
  resolvedModel : Option String := none
  baseBranch : Option String := none
  branchNameOverride : Option String := none
  loopDir : Option String := none
  iterationNumber : Option ℕ := none
  worktreePathOverride : Option String := none
  skipCleanup : Bool := false
  skipNotify : Bool := false
  isContinuation : Bool := false
  keepWorktree : Bool := false
  taskType : TaskType := .implement
  deriving DecidableEq

/-- A call of `spawn_worker`, and the backend that was asked for before it was
resolved. -/
structure SpawnCall where
  description : String
  requestedBackend : Option String
  request : SpawnRequest
  deriving DecidableEq

/-- The task the worker's prompt is built around. -/
def SpawnCall.prompt (call : SpawnCall) : String :=
  (call.request.promptOverride.filter (· != "")).getD call.description

/-- The record of a thread, with the type of its task. -/
structure RegisteredThread extends ThreadMetadata where
  taskType : Option TaskType := none

/-! ## Backends -/

structure BackendContext where
  cfg : BackendsConfig
  /-- The backend the session is bound to, when the session is found. -/
  session : Option (Option String)

def optionDefaultBackendModel (option : BackendOption) (source : String) :
    Except String (String × Option String) :=
  if backendTypeAllowsMissingModel option.type then .ok (option.id, none)
  else if !hasText option.model then
    .error (source ++ " backend '" ++ option.id ++ "' has no default model")
  else .ok (option.id, option.model)

def unknownBackendPinRefusal (backendId fallbackId : String) : String :=
  "'" ++ backendId ++ "' is not in config.yaml backends.options — "
    ++ "refusing to substitute '" ++ fallbackId ++ "'"

def resolveSessionDefaultBackendModel (cfg : BackendsConfig) (stored : Option String) :
    Except String (String × Option String) :=
  match (stored.filter (· != "")).bind cfg.getBackendOption with
  | some option => optionDefaultBackendModel option "session"
  | none =>
    match cfg.options with
    | [] => .error "session backend resolution requires a configured backends.options entry"
    | first :: _ =>
      match stored.filter (· != "") with
      | some pinned => .error ("session backend " ++ unknownBackendPinRefusal pinned first.id)
      | none => optionDefaultBackendModel first "session"

namespace BackendContext

variable (env : BackendContext)

def requireSession : Except String (Option String) :=
  match env.session with
  | some stored => .ok stored
  | none => .error "session not found"

/-- `resolve_requested_subagent_backend_model`. -/
def resolveRequested (requestedBackend : Option String) :
    Except String (String × Option String) := do
  let stored ← env.requireSession
  match requestedBackend with
  | some backend =>
    if backend = "" then throw "requested backend is required"
    else do
      let option ← env.cfg.requireBackendOption backend "requested "
      optionDefaultBackendModel option "requested"
  | none => resolveSessionDefaultBackendModel env.cfg stored

def selectVerifyBackend (triedBackends : List String) :
    Except String (Option ReviewerBackend) := do
  let stored ← env.requireSession
  let session ← resolveSessionDefaultBackendModel env.cfg stored
  return selectReviewerBackend env.cfg session.1 session.2 triedBackends

/-- The backend of a delegation: a verifier that names none is moved to another
model. -/
def resolveFor (taskType : TaskType) (requestedBackend : Option String) :
    Except String (String × Option String) :=
  if taskType = .verify ∧ requestedBackend = none then do
    match ← env.selectVerifyBackend [] with
    | some selected => return (selected.backend, selected.model)
    -- With nothing tried there is always one.
    | none => throw "cannot unpack"
  else env.resolveRequested requestedBackend

end BackendContext

/-! ## Delegations -/

structure DelegateInvocationMetadata where
  taskType : TaskType
  repoPath : Option String := none
  baseBranch : Option String := none
  taskSpecFile : Option String := none
  reviewerContextFile : Option String := none
  keepWorktree : Bool
  backend : Option String := none
  deriving DecidableEq

structure DelegateRequest where
  description : String
  baseBranch : Option String := none
  backend : Option String := none
  repoPath : Option String := none
  context : Option String := none
  taskType : TaskType := .implement
  keepWorktree : Bool := false
  delegateInvocation : Option DelegateInvocationMetadata := none

namespace DelegateRequest

variable (req : DelegateRequest)

/-- `_delegate_invocation_event_payload`. -/
def invocationEventPayload : DelegateInvocationMetadata :=
  match req.delegateInvocation with
  | some invocation => invocation
  | none =>
    { taskType := req.taskType
      repoPath := req.repoPath
      baseBranch := req.baseBranch
      keepWorktree := req.keepWorktree
      backend := req.backend }

/-- The event says what the request says. -/
structure Told : Prop where
  taskType : req.invocationEventPayload.taskType = req.taskType
  repoPath : req.invocationEventPayload.repoPath = req.repoPath
  baseBranch : req.invocationEventPayload.baseBranch = req.baseBranch
  keepWorktree : req.invocationEventPayload.keepWorktree = req.keepWorktree
  backend : req.invocationEventPayload.backend = req.backend

/-- What `delegate_task` answers 400 to. -/
def refusal : Option String :=
  let named := match req.taskType with
    | .implement => "implement" | .quickEdit => "quick-edit" | .scriptRun => "script-run"
    | .verify => "verify"
  if req.taskType = .verify then
    if req.repoPath.isSome then some "verify delegations are repo-less; omit repo_path"
    else if req.baseBranch.isSome then some "verify delegations are repo-less; omit base_branch"
    else none
  else if req.repoPath.isNone then some (named ++ " delegations require repo_path")
  else if req.baseBranch.isNone then some (named ++ " delegations require base_branch")
  else none

end DelegateRequest

/-- The arguments of `charliebot-delegate`, with the files read. -/
structure DelegateArgs where
  taskSpec : String
  taskSpecFile : String
  reviewerContextFile : Option String := none
  reviewerContext : Option String := none
  repo : Option String := none
  baseBranch : Option String := none
  keepWorktree : Bool
  taskType : TaskType := .implement
  backend : Option String := none

/-- What `charliebot-delegate` posts. -/
def DelegateArgs.payload (args : DelegateArgs) : DelegateRequest where
  description := args.taskSpec
  baseBranch := args.baseBranch
  backend := args.backend
  repoPath := args.repo
  context := args.reviewerContext
  taskType := args.taskType
  keepWorktree := args.keepWorktree
  delegateInvocation := some
    { taskType := args.taskType
      repoPath := args.repo
      baseBranch := args.baseBranch
      taskSpecFile := some args.taskSpecFile
      reviewerContextFile := args.reviewerContextFile
      keepWorktree := args.keepWorktree
      backend := args.backend }

theorem told_payload (args : DelegateArgs) : args.payload.Told := ⟨rfl, rfl, rfl, rfl, rfl⟩

/-- A delegation: a request whose event says what it says, as one from the command
line does. -/
structure Delegation where
  req : DelegateRequest
  told : req.Told

/-! ## Scheduled tasks -/

/-- `ScheduledTaskConfig`, as far as a worker is concerned. -/
structure ScheduledTaskConfig extends ScheduledTask where
  prompt : String := ""
  repo : Option String := none
  backend : Option String := none

def effectiveScheduledTaskBackend (cfg : BackendsConfig) (task : ScheduledTaskConfig) :
    Except String String :=
  match task.backend.filter (· != "") with
  | some backend => do
    let _ ← cfg.requireBackendOption backend "scheduled task "
    return backend
  | none =>
    match cfg.options with
    | [] => .error
      "scheduled task backend resolution requires a configured backends.options entry"
    | first :: _ => .ok first.id

/-- The backend `fire_scheduled_worker` asks for. -/
def effectiveBackend (cfg : BackendsConfig) (task : ScheduledTaskConfig)
    (backendOverride : Option String) : Except String String :=
  match backendOverride.filter (· != "") with
  | some backend => .ok backend
  | none => effectiveScheduledTaskBackend cfg task

/-- `fire_scheduled_worker`: what it calls `spawn_worker` with. -/
def fireScheduledWorker (env : BackendContext) (task : ScheduledTaskConfig) (description : String)
    (backendOverride promptOverride : Option String) : Except String SpawnCall := do
  let effective ← effectiveBackend env.cfg task backendOverride
  let resolved ← env.resolveRequested (some effective)
  return {
    description := description
    requestedBackend := some effective
    request :=
      { repoPath := task.repo
        promptOverride := promptOverride
        resolvedBackend := resolved.1
        resolvedModel := resolved.2
        taskType := .implement } }

/-! ## The ways a thread comes to be -/

/-- A worker thread, by the path that creates it. -/
inductive Creation where
  /-- `delegate_task`. -/
  | delegate (delegation : Delegation)
  /-- `_execute_prompt_task`. -/
  | scheduledPrompt (task : ScheduledTaskConfig)
  /-- `_execute_loop_task`, with the action that was determined. -/
  | scheduledLoop (task : ScheduledTaskConfig) (actionType prompt : String)
  /-- `spawn_step`. -/
  | step (task : ScheduledTaskConfig) (stepIndex : ℕ) (chainRoot previousResult : Option String)
  /-- `spawn_review_worker`. -/
  | reviewer (originalThread : ThreadMetadata) (ctx : ReviewSpawnContext) (reviewPrompt : String)
  /-- An iteration of the improve loop; the text is what follows the number. -/
  | iteration (text : String) (request : SpawnRequest)

def spawnStep (task : ScheduledTaskConfig) (stepIndex : ℕ)
    (chainRoot previousResult : Option String) : SpawnStep :=
  ⟨task.toScheduledTask, stepIndex, chainRoot, previousResult⟩

/-- `_spawn_scheduled_worker`: the thread is described by the prompt. -/
def spawnScheduledWorker (env : BackendContext) (task : ScheduledTaskConfig)
    (description : String) : Except String SpawnCall :=
  fireScheduledWorker env task description none none

/-- The call of `spawn_worker` of an improve iteration is made with what is resolved. -/
def iterationCall (text : String) (request : SpawnRequest) : SpawnCall where
  description := improveIterationPrefix ++ text
  requestedBackend := some request.resolvedBackend
  request := request

/-- The backend a step asks for itself. -/
def stepBackend (task : ScheduledTaskConfig) (stepIndex : ℕ) : Option String :=
  (task.steps[stepIndex]?).bind StepConfig.backend

namespace Creation

/-- The record `create_thread` writes. -/
def register (sessionId id : String) : Creation → RegisteredThread
  | .delegate delegation =>
    { id := id, sessionId := sessionId, description := delegation.req.description
      context := delegation.req.context
      requireReview := delegation.req.taskType = .implement
      taskType := some delegation.req.taskType }
  | .scheduledPrompt task =>
    { id := id, sessionId := sessionId, description := task.prompt, requireReview := false }
  | .scheduledLoop _ actionType prompt =>
    { id := id, sessionId := sessionId, description := prompt
      requireReview := actionType = "implement" }
  | .step task stepIndex chainRoot previousResult =>
    { (spawnStep task stepIndex chainRoot previousResult).newThread sessionId id with
      chainRoot := some (chainRoot.getD id)
      stepIndex := some stepIndex }
  | .reviewer originalThread ctx _ =>
    { reviewerMetadata originalThread ctx id with sessionId := sessionId }
  | .iteration text _ =>
    { id := id, sessionId := sessionId, description := improveIterationPrefix ++ text
      requireReview := false }

/-- The original call of `spawn_worker`. -/
def call (env : BackendContext) : Creation → Except String SpawnCall
  | .delegate delegation => do
    let req := delegation.req
    let resolved ← env.resolveFor req.taskType req.backend
    return {
      description := req.description
      requestedBackend := req.backend
      request :=
        { repoPath := req.repoPath
          baseBranch := req.baseBranch
          context := req.context
          resolvedBackend := resolved.1
          resolvedModel := resolved.2
          keepWorktree := req.keepWorktree
          taskType := req.taskType } }
  | .scheduledPrompt task => spawnScheduledWorker env task task.prompt
  | .scheduledLoop task _ prompt => spawnScheduledWorker env task prompt
  | .step task stepIndex chainRoot previousResult =>
    let spawn := spawnStep task stepIndex chainRoot previousResult
    fireScheduledWorker env task spawn.description (stepBackend task stepIndex)
      (some spawn.prompt)
  | .reviewer originalThread ctx reviewPrompt => .ok
    { description := (reviewerMetadata originalThread ctx "").description
      requestedBackend := some ctx.reviewer.backend
      request :=
        { repoPath := some ctx.repoPath
          promptOverride := some reviewPrompt
          resolvedBackend := ctx.reviewer.backend
          resolvedModel := ctx.reviewer.model } }
  | .iteration text request => .ok (iterationCall text request)

/-- The invocation in the delegation event; a reviewer and an iteration have no
event. -/
def announcement : Creation → Option (Option DelegateInvocationMetadata)
  | .delegate delegation => some (some delegation.req.invocationEventPayload)
  | .scheduledPrompt _ | .scheduledLoop .. | .step .. => some none
  | .reviewer .. | .iteration .. => none

end Creation

/-! ## The first attempt -/

/-- The file system, as far as a repository's path is concerned. -/
structure Paths where
  /-- `Path.resolve`. -/
  resolve : String → String
  resolve_resolve : ∀ path, resolve (resolve path) = resolve path
  resolve_ne : ∀ path, resolve path ≠ ""

/-- What an attempt to start the worker finds and makes. -/
structure Attempt where
  threadDir : String
  branchName : String
  /-- The place of that branch's worktree. -/
  worktreePath : String
  /-- The default branch of the remote. -/
  defaultBranch : String
  /-- The base as `git_create_worktree` spells it. -/
  canonical : String

section Attempt

variable (paths : Paths) (attempt : Attempt) (thread : RegisteredThread) (request : SpawnRequest)

/-- `_construct_worker`: the backend is put on record. -/
def constructWorker : RegisteredThread :=
  { thread with
    backend := some request.resolvedBackend
    model := request.resolvedModel
    triedBackends :=
      if request.taskType = .verify ∧ request.resolvedBackend ∉ thread.triedBackends then
        thread.triedBackends ++ [request.resolvedBackend]
      else thread.triedBackends }

/-- `_create_repoless_process`: the record that is saved. -/
def createRepolessProcess : RegisteredThread :=
  constructWorker
    { thread with
      branchName := none
      repoPath := none
      worktreePath := some attempt.threadDir
      requireReview := false
      context := request.context }
    request

/-- The record `_create_worktree_and_process` saves for a worktree that is made or
reused. -/
def worktreeRecord (repo : String) : RegisteredThread :=
  let baseBranch := (request.baseBranch.filter (· != "")).getD ("origin/" ++ attempt.defaultBranch)
  let reused := request.worktreePathOverride.filter (· != "")
  { thread with
    branchName := some ((request.branchNameOverride.filter (· != "")).getD attempt.branchName)
    repoPath := some (paths.resolve repo)
    worktreePath := some (reused.getD attempt.worktreePath)
    baseBranch := some (if reused.isSome then baseBranch else attempt.canonical)
    keepWorktree := request.keepWorktree
    context := request.context }

def createWorktreeAndProcess (repo : String) : Except String RegisteredThread :=
  let started : Except String RegisteredThread :=
    if hasText request.promptOverride then
      if hasText thread.worktreePath then .ok thread
      else .error "thread metadata missing worktree_path"
    else .ok (worktreeRecord paths attempt thread request repo)
  match started with
  | .error error => .error error
  | .ok record =>
    if record.worktreePath.map paths.resolve = some (paths.resolve repo) then
      .error "refusing to run subagent in repo root; worktree isolation required"
    else .ok (constructWorker record request)

/-- `create_run_worker`: the record as it stands right before the process is started. -/
def createRunWorker : Except String RegisteredThread :=
  match request.repoPath with
  | none => .ok (createRepolessProcess attempt thread request)
  | some repo => createWorktreeAndProcess paths attempt thread request repo

end Attempt

/-! ## Up to the crash -/

/-- A row of the live chat log. -/
inductive ChatRow where
  | taskDelegated (threadId : String) (invocation : Option DelegateInvocationMetadata)
  | other
  deriving DecidableEq

/-- A thread on its way to a process. -/
structure Launch where
  creation : Creation
  env : BackendContext
  thread : RegisteredThread
  /-- Whether the record of an attempt was saved. -/
  prepared : Bool := false
  /-- Whether it has a process. -/
  started : Bool := false

/-- A session while its workers are started. -/
structure LaunchState where
  sessionId : String
  launches : String → Option Launch := fun _ => none
  chat : List ChatRow := []

inductive LaunchAction where
  /-- A thread is registered. -/
  | create (creation : Creation) (env : BackendContext) (id : String)
  /-- Its delegation event is persisted. -/
  | announce (id : String)
  /-- `spawn_worker` comes to the point where the process is started. -/
  | prepare (id : String) (attempt : Attempt)
  | start (id : String)
  /-- Something else is persisted in the chat log. -/
  | say
  /-- The oldest rows of the chat log are archived. -/
  | rotate (n : ℕ)

namespace LaunchState

variable (s : LaunchState)

/-- A launch takes the place of the one before it. -/
def put (id : String) (launch : Launch) : LaunchState :=
  { s with launches := Function.update s.launches id (some launch) }

/-- Whether a request comes as far as a thread: a delegation is checked before. -/
def admits (creation : Creation) (env : BackendContext) : Bool :=
  match creation with
  | .delegate delegation => delegation.req.refusal.isNone && (creation.call env).isOk
  | _ => true

/-- A thread is registered. -/
def create (creation : Creation) (env : BackendContext) (id : String) : LaunchState :=
  s.put id { creation := creation, env := env, thread := creation.register s.sessionId id }

def step (paths : Paths) : LaunchAction → Option LaunchState
  | .create creation env id =>
    if s.launches id = none ∧ admits creation env = true then some (s.create creation env id)
    else none
  | .announce id =>
    match s.launches id with
    | none => none
    | some launch =>
      match launch.creation.call launch.env, launch.creation.announcement with
      | .ok _, some invocation =>
        some { s with chat := s.chat ++ [.taskDelegated id invocation] }
      | _, _ => none
  | .prepare id attempt =>
    match s.launches id with
    | none => none
    | some launch =>
      match launch.creation.call launch.env with
      | .error _ => none
      | .ok call =>
        match createRunWorker paths attempt launch.thread call.request with
        | .error _ => none
        | .ok thread =>
          if launch.prepared then none
          else some (s.put id { launch with thread := thread, prepared := true })
  | .start id =>
    match s.launches id with
    | none => none
    | some launch =>
      if launch.prepared then some (s.put id { launch with started := true }) else none
  | .say => some { s with chat := s.chat ++ [.other] }
  | .rotate n => some { s with chat := s.chat.drop n }

def system (paths : Paths) : TransitionSystem LaunchState LaunchAction :=
  ⟨fun s a => s.step paths a⟩

end LaunchState

/-! ## The next boot -/

/-- The invocation of the latest delegation event of a thread. -/
def invocationOf (threadId : String) (chatEvents : List ChatRow) :
    Option (Option DelegateInvocationMetadata) :=
  chatEvents.reverse.findSome? fun
    | .taskDelegated id invocation => if id = threadId then some invocation else none
    | .other => none

/-- `request_task_type`. -/
def respawnTaskType (thread : RegisteredThread) (invocation : Option DelegateInvocationMetadata) :
    TaskType :=
  (invocation.map (·.taskType)).getD (thread.taskType.getD .implement)

/-- The call `_maybe_respawn` makes, given what the delegation event says. -/
def respawnCall (thread : RegisteredThread) (invocation : Option DelegateInvocationMetadata)
    (resolved : String × Option String) : SpawnCall where
  description := thread.description
  requestedBackend := invocation.bind (·.backend)
  request :=
    { repoPath := ((invocation.bind (·.repoPath)).filter (· != "")).or thread.repoPath
      baseBranch := ((invocation.bind (·.baseBranch)).filter (· != "")).or thread.baseBranch
      context := thread.context
      resolvedBackend := resolved.1
      resolvedModel := resolved.2
      branchNameOverride := thread.branchName
      worktreePathOverride := thread.worktreePath
      keepWorktree := (invocation.map (·.keepWorktree)).getD false
      taskType := respawnTaskType thread invocation }

/-- `_maybe_respawn`: the call of `spawn_worker` that is made, if any. -/
def maybeRespawn (boot : BackendContext) (chatEvents : List ChatRow) (thread : RegisteredThread) :
    Option SpawnCall :=
  if hasText thread.reviewOf
      || improveIterationPrefix.toList.isPrefixOf thread.description.toList then none
  else match invocationOf thread.id chatEvents with
    | none => none
    | some invocation =>
      match boot.resolveFor (respawnTaskType thread invocation) (invocation.bind (·.backend)) with
      | .error _ => none
      | .ok resolved => some (respawnCall thread invocation resolved)

/-- What becomes of a thread without a process. -/
inductive Reconciled where
  | respawned (call : SpawnCall)
  | finalized (status : ThreadStatus)

/-- `_finalize_worker`: the status. -/
def finalStatus (outcome : WorkerRunOutcome) : ThreadStatus :=
  if outcome.quotaExhausted = false ∧ outcome.error = "" ∧ outcome.exitCode = 0 then .completed
  else .failed

/-- `_reconcile_one`, for a run that was never started: what is not respawned is
drained, and there is nothing to drain. -/
def reconcileNeverStarted (boot : BackendContext) (chatEvents : List ChatRow)
    (thread : RegisteredThread) : Reconciled :=
  match maybeRespawn boot chatEvents thread with
  | some call => .respawned call
  | none => .finalized (finalStatus ⟨-1, false, ""⟩)

/-! ## The same request -/

def SpawnRequest.namedBase (request : SpawnRequest) : Option String :=
  request.baseBranch.filter (· != "")

/-- A call asks for what another one asked for. The branch, the worktree and, where
none was named, the base may be the ones that are on record, which are the first
attempt's own. -/
structure Agrees (paths : Paths) (boot : BackendContext) (thread : RegisteredThread)
    (original call : SpawnCall) : Prop where
  prompt : call.prompt = original.prompt
  context : call.request.context = original.request.context
  repoPath : call.request.repoPath.map paths.resolve = original.request.repoPath.map paths.resolve
  baseBranch : call.request.namedBase = original.request.namedBase
    ∨ original.request.namedBase = none ∧ call.request.baseBranch = thread.baseBranch
  taskType : call.request.taskType = original.request.taskType
  keepWorktree : call.request.keepWorktree = original.request.keepWorktree
  skipCleanup : call.request.skipCleanup = original.request.skipCleanup
  branchName : call.request.branchNameOverride = original.request.branchNameOverride
    ∨ call.request.branchNameOverride = thread.branchName
  worktreePath : call.request.worktreePathOverride = original.request.worktreePathOverride
    ∨ call.request.worktreePathOverride = thread.worktreePath
  /-- In the configuration of the boot the two ask for the same backend and model. -/
  backend : boot.resolveFor call.request.taskType call.requestedBackend
    = boot.resolveFor original.request.taskType original.requestedBackend

/-- What a boot asks a backend for. -/
def Creation.asked : Creation → TaskType × Option String
  | .delegate delegation => (delegation.req.taskType, delegation.req.backend)
  | _ => (.implement, none)

structure Respawnable (boot : BackendContext) (chatEvents : List ChatRow) (launch : Launch) :
    Prop where
  notReviewer : hasText launch.thread.reviewOf = false
  notIteration : improveIterationPrefix.toList.isPrefixOf launch.thread.description.toList = false
  announced : ∃ invocation, .taskDelegated launch.thread.id invocation ∈ chatEvents
  resolves : ∃ backend,
    boot.resolveFor launch.creation.asked.1 launch.creation.asked.2 = .ok backend

/-- A scheduled worker's repository is on record, and its backend is the default of
the session. -/
structure Launch.KeepsTask (boot : BackendContext) (launch : Launch) (task : ScheduledTaskConfig)
    (backendOverride : Option String) : Prop where
  repo : task.repo = none ∨ launch.prepared = true
  backend : ∃ effective,
    effectiveBackend launch.env.cfg task backendOverride = .ok effective
      ∧ boot.resolveRequested none = boot.resolveRequested (some effective)

/-- What was asked for can be read off the record and the event. -/
def Launch.Restorable (boot : BackendContext) (launch : Launch) : Prop :=
  match launch.creation with
  | .delegate delegation => delegation.req.repoPath ≠ some "" ∨ launch.prepared = true
  | .scheduledPrompt task | .scheduledLoop task _ _ => launch.KeepsTask boot task none
  | .step task stepIndex chainRoot previousResult =>
    ((spawnStep task stepIndex chainRoot previousResult).prompt = ""
        ∨ (spawnStep task stepIndex chainRoot previousResult).prompt
          = (spawnStep task stepIndex chainRoot previousResult).description)
      ∧ launch.KeepsTask boot task (stepBackend task stepIndex)
  | .reviewer .. | .iteration .. => True

/-! ## The records -/

section Records

variable {paths : Paths} {attempt : Attempt} {thread record : RegisteredThread}
  {request : SpawnRequest}

/-- A record of an attempt: a thread that has no worktree yet keeps what it is, and
gets its repository and its context from the request. -/
structure Attempted (paths : Paths) (thread : RegisteredThread) (request : SpawnRequest)
    (record : RegisteredThread) : Prop where
  id : record.id = thread.id
  description : record.description = thread.description
  reviewOf : record.reviewOf = thread.reviewOf
  taskType : record.taskType = thread.taskType
  context : record.context = request.context
  repoPath : record.repoPath = request.repoPath.map paths.resolve

theorem id_of_createRunWorker (h : createRunWorker paths attempt thread request = .ok record) :
    record.id = thread.id := by
  unfold createRunWorker createWorktreeAndProcess at h
  split at h
  · cases h
    rfl
  · simp only at h
    split at h
    · cases h
    next started hstarted =>
      have hid : started.id = thread.id := by
        split at hstarted
        · split at hstarted
          · cases hstarted
            rfl
          · cases hstarted
        · cases hstarted
          rfl
      split at h
      · cases h
      · cases h
        exact hid

theorem attempted_of_createRunWorker (hworktree : thread.worktreePath = none)
    (h : createRunWorker paths attempt thread request = .ok record) :
    Attempted paths thread request record := by
  unfold createRunWorker at h
  split at h
  next hrepo =>
    cases h
    exact ⟨rfl, rfl, rfl, rfl, rfl, by rw [hrepo]; rfl⟩
  next repo hrepo =>
    simp only [createWorktreeAndProcess, hworktree] at h
    by_cases hprompt : hasText request.promptOverride = true
    · -- A prompt of its own needs a worktree that is there.
      have hnone : hasText (none : Option String) = false := rfl
      simp only [hprompt, hnone, if_true, Bool.false_eq_true, if_false] at h
      cases h
    · simp only [hprompt, Bool.false_eq_true, if_false] at h
      split at h
      · cases h
      · cases h
        exact ⟨rfl, rfl, rfl, rfl, rfl, by rw [hrepo]; rfl⟩

end Records

/-- What a thread with a delegation event is registered with. -/
structure Creation.Registers (creation : Creation) (thread : RegisteredThread)
    (original : SpawnCall) : Prop where
  description : thread.description = original.description
  reviewOf : thread.reviewOf = none
  context : thread.context = original.request.context
  repoPath : thread.repoPath = none
  worktreePath : thread.worktreePath = none
  taskType : respawnTaskType thread creation.announcement.join = creation.asked.1

/-- A thread with a delegation event, as its record tells of the call. -/
structure Recorded (paths : Paths) (id : String) (launch : Launch) (original : SpawnCall) :
    Prop where
  id : launch.thread.id = id
  description : launch.thread.description = original.description
  reviewOf : launch.thread.reviewOf = none
  context : launch.thread.context = original.request.context
  repoPath : launch.thread.repoPath
    = if launch.prepared then original.request.repoPath.map paths.resolve else none
  taskType : respawnTaskType launch.thread launch.creation.announcement.join
    = launch.creation.asked.1

theorem register_id (creation : Creation) (sessionId id : String) :
    (creation.register sessionId id).id = id := by
  cases creation <;> rfl

theorem fireScheduledWorker_eq_ok {env : BackendContext} {task : ScheduledTaskConfig}
    {description : String} {backendOverride promptOverride : Option String} {call : SpawnCall}
    (h : fireScheduledWorker env task description backendOverride promptOverride = .ok call) :
    ∃ effective, ∃ resolved : String × Option String,
      effectiveBackend env.cfg task backendOverride = .ok effective ∧ call =
      { description := description
        requestedBackend := some effective
        request :=
          { repoPath := task.repo
            promptOverride := promptOverride
            resolvedBackend := resolved.1
            resolvedModel := resolved.2
            taskType := .implement } } := by
  simp only [fireScheduledWorker, bind, Except.bind] at h
  split at h
  · cases h
  next effective heffective =>
    split at h
    · cases h
    next resolved _ =>
      cases h
      exact ⟨effective, resolved, heffective, rfl⟩

theorem registers_of_announcement {creation : Creation} {env : BackendContext}
    {original : SpawnCall} {invocation : Option DelegateInvocationMetadata}
    (hannouncement : creation.announcement = some invocation)
    (hcall : creation.call env = .ok original) (sessionId id : String) :
    creation.Registers (creation.register sessionId id) original := by
  cases creation with
  | delegate delegation =>
    simp only [Creation.call, bind, Except.bind] at hcall
    split at hcall
    · cases hcall
    · cases hcall
      exact ⟨rfl, rfl, rfl, rfl, rfl, delegation.told.taskType⟩
  | scheduledPrompt task =>
    obtain ⟨_, _, -, rfl⟩ := fireScheduledWorker_eq_ok hcall
    exact ⟨rfl, rfl, rfl, rfl, rfl, rfl⟩
  | scheduledLoop task actionType prompt =>
    obtain ⟨_, _, -, rfl⟩ := fireScheduledWorker_eq_ok hcall
    exact ⟨rfl, rfl, rfl, rfl, rfl, rfl⟩
  | step task stepIndex chainRoot previousResult =>
    obtain ⟨_, _, -, rfl⟩ := fireScheduledWorker_eq_ok hcall
    exact ⟨rfl, rfl, rfl, rfl, rfl, rfl⟩
  | reviewer => cases hannouncement
  | iteration => cases hannouncement

/-! ## What holds at the crash -/

/-- The thread is announced with an invocation: its worker could be called for. -/
def Launch.Announces (launch : Launch) (invocation : Option DelegateInvocationMetadata) : Prop :=
  launch.creation.announcement = some invocation
    ∧ ∃ original, launch.creation.call launch.env = .ok original

namespace LaunchState

/-- The record is the registered one, or the one an attempt saved. -/
def Staged (paths : Paths) (sessionId id : String) (launch : Launch) : Prop :=
  if launch.prepared then
    ∃ attempt call, launch.creation.call launch.env = .ok call
      ∧ createRunWorker paths attempt (launch.creation.register sessionId id) call.request
        = .ok launch.thread
  else launch.thread = launch.creation.register sessionId id

/-- What holds in every state. -/
structure Inv (paths : Paths) (s : LaunchState) : Prop where
  staged : ∀ id launch, s.launches id = some launch → Staged paths s.sessionId id launch
  told : ∀ id invocation, .taskDelegated id invocation ∈ s.chat →
    ∃ launch, s.launches id = some launch ∧ launch.Announces invocation

variable {paths : Paths} {s t : LaunchState}

theorem put_launches_self (id : String) (launch : Launch) :
    (s.put id launch).launches id = some launch := Function.update_self ..

theorem put_launches_of_ne {id other : String} (launch : Launch) (h : other ≠ id) :
    (s.put id launch).launches other = s.launches other := Function.update_of_ne h ..

theorem Inv.put (h : Inv paths s) {id : String} {launch : Launch}
    (hstaged : Staged paths s.sessionId id launch)
    (hsame : ∀ old, s.launches id = some old →
      launch.creation = old.creation ∧ launch.env = old.env) :
    Inv paths (s.put id launch) where
  staged other new hnew := by
    by_cases hid : other = id
    · subst hid
      rw [put_launches_self] at hnew
      cases hnew
      exact hstaged
    · rw [put_launches_of_ne launch hid] at hnew
      exact h.staged other new hnew
  told other invocation hrow := by
    obtain ⟨old, hold, hannounces⟩ := h.told other invocation hrow
    by_cases hid : other = id
    · subst hid
      obtain ⟨hcreation, henv⟩ := hsame old hold
      refine ⟨launch, put_launches_self other launch, ?_⟩
      rw [Launch.Announces, hcreation, henv]
      exact hannounces
    · exact ⟨old, by rw [put_launches_of_ne launch hid, hold], hannounces⟩

theorem Inv.setChat (h : Inv paths s) {chat : List ChatRow}
    (hrows : ∀ id invocation, .taskDelegated id invocation ∈ chat →
      .taskDelegated id invocation ∈ s.chat ∨ ∃ launch, s.launches id = some launch
        ∧ launch.Announces invocation) :
    Inv paths { s with chat := chat } where
  staged := h.staged
  told id invocation hrow := by
    rcases hrows id invocation hrow with hold | hnew
    · exact h.told id invocation hold
    · exact hnew

theorem inv_empty (sessionId : String) : Inv paths { sessionId := sessionId } where
  staged _ _ h := nomatch h
  told _ _ h := nomatch h

/-- **Every step keeps the records and the events true.** -/
theorem Inv.step (h : Inv paths s) {a : LaunchAction} (hstep : s.step paths a = some t) :
    Inv paths t := by
  cases a with
  | create creation env id =>
    simp only [LaunchState.step] at hstep
    split at hstep
    next hfresh =>
      cases hstep
      refine h.put (by simp [Staged]) fun old hold => ?_
      rw [hfresh.1] at hold
      cases hold
    next => cases hstep
  | announce id =>
    simp only [LaunchState.step] at hstep
    split at hstep
    · cases hstep
    next launch hlaunch =>
      split at hstep
      next call invocation hcall hannouncement =>
        cases hstep
        refine h.setChat fun other row hrow => ?_
        rcases List.mem_append.mp hrow with hold | hnew
        · exact .inl hold
        · rw [List.mem_singleton] at hnew
          cases hnew
          exact .inr ⟨launch, hlaunch, hannouncement, call, hcall⟩
      · cases hstep
  | prepare id attempt =>
    simp only [LaunchState.step] at hstep
    split at hstep
    · cases hstep
    next launch hlaunch =>
      split at hstep
      · cases hstep
      next call hcall =>
        split at hstep
        · cases hstep
        next record hrecord =>
          split at hstep
          · cases hstep
          next hprepared =>
            cases hstep
            have hregistered := h.staged id launch hlaunch
            rw [Staged, if_neg hprepared] at hregistered
            rw [hregistered] at hrecord
            refine h.put ?_ fun old hold => ?_
            · simp only [Staged, if_true]
              exact ⟨attempt, call, hcall, hrecord⟩
            · rw [hlaunch] at hold
              cases hold
              exact ⟨rfl, rfl⟩
  | start id =>
    simp only [LaunchState.step] at hstep
    split at hstep
    · cases hstep
    next launch hlaunch =>
      split at hstep
      next hprepared =>
        cases hstep
        refine h.put (h.staged id launch hlaunch) fun old hold => ?_
        rw [hlaunch] at hold
        cases hold
        exact ⟨rfl, rfl⟩
      · cases hstep
  | say =>
    cases hstep
    refine h.setChat fun id invocation hrow => .inl ?_
    rcases List.mem_append.mp hrow with hold | hnew
    · exact hold
    · rw [List.mem_singleton] at hnew
      cases hnew
  | rotate n =>
    cases hstep
    exact h.setChat fun _ _ hrow => .inl (List.mem_of_mem_drop hrow)

theorem Inv.run {as : List LaunchAction} {sessionId : String}
    (h : (system paths).run { sessionId := sessionId } as = some s) : Inv paths s :=
  (system paths).run_invariant (fun _ _ _ hs hstep => Inv.step hs hstep) (inv_empty sessionId) as h

/-- **A worker that is announced is on record with what its call says**, and with its
repository once an attempt was saved. -/
theorem Inv.recorded (h : Inv paths s) {id : String} {launch : Launch}
    {invocation : Option DelegateInvocationMetadata} {original : SpawnCall}
    (hlaunch : s.launches id = some launch)
    (hannouncement : launch.creation.announcement = some invocation)
    (hcall : launch.creation.call launch.env = .ok original) :
    Recorded paths id launch original := by
  have hregisters := registers_of_announcement hannouncement hcall s.sessionId id
  have hid := register_id launch.creation s.sessionId id
  have hstaged := h.staged id launch hlaunch
  unfold Staged at hstaged
  split at hstaged
  next hprepared =>
    obtain ⟨attempt, call, hcall', hrecord⟩ := hstaged
    rw [hcall] at hcall'
    cases hcall'
    have hattempted := attempted_of_createRunWorker hregisters.worktreePath hrecord
    refine ⟨?_, ?_, ?_, hattempted.context, ?_, ?_⟩
    · rw [hattempted.id, hid]
    · rw [hattempted.description, hregisters.description]
    · rw [hattempted.reviewOf, hregisters.reviewOf]
    · rw [hattempted.repoPath, if_pos hprepared]
    · rw [respawnTaskType, hattempted.taskType]
      exact hregisters.taskType
  next hprepared =>
    refine ⟨?_, ?_, ?_, ?_, ?_, ?_⟩
    · rw [hstaged, hid]
    · rw [hstaged, hregisters.description]
    · rw [hstaged, hregisters.reviewOf]
    · rw [hstaged, hregisters.context]
    · rw [hstaged, if_neg hprepared, hregisters.repoPath]
    · rw [hstaged]
      exact hregisters.taskType

end LaunchState

/-! ## The event that is found -/

theorem mem_of_invocationOf {threadId : String} {chatEvents : List ChatRow}
    {invocation : Option DelegateInvocationMetadata}
    (h : invocationOf threadId chatEvents = some invocation) :
    .taskDelegated threadId invocation ∈ chatEvents := by
  obtain ⟨row, hrow, hread⟩ := List.exists_of_findSome?_eq_some h
  cases row with
  | other => cases hread
  | taskDelegated id found =>
    by_cases hid : id = threadId
    · subst hid
      simp only [if_true, Option.some.injEq] at hread
      subst hread
      exact List.mem_reverse.mp hrow
    · simp only [if_neg hid] at hread
      cases hread

theorem invocationOf_eq_some {threadId : String} {chatEvents : List ChatRow}
    {invocation : Option DelegateInvocationMetadata}
    (hsame : ∀ found, .taskDelegated threadId found ∈ chatEvents → found = invocation)
    (hmem : ∃ found, .taskDelegated threadId found ∈ chatEvents) :
    invocationOf threadId chatEvents = some invocation := by
  cases hfound : invocationOf threadId chatEvents with
  | some found => rw [hsame found (mem_of_invocationOf hfound)]
  | none =>
    obtain ⟨found, hrow⟩ := hmem
    have hread := List.findSome?_eq_none_iff.mp hfound _ (List.mem_reverse.mpr hrow)
    simp at hread

/-! ## When the two agree -/

theorem named_some {text : String} (h : text ≠ "") :
    (some text).filter (· != "") = some text := by
  simp [h]

section Agreement

variable {paths : Paths} {boot : BackendContext} {launch : Launch} {id : String}
  {original : SpawnCall} {resolved : String × Option String}

/-- A delegation is restored, unless its repository is the empty path and was not put
on record. -/
theorem agrees_delegate_iff {delegation : Delegation}
    (hcreation : launch.creation = .delegate delegation)
    (hcall : launch.creation.call launch.env = .ok original)
    (hrecorded : Recorded paths id launch original) :
    Agrees paths boot launch.thread original
        (respawnCall launch.thread (some delegation.req.invocationEventPayload) resolved)
      ↔ delegation.req.repoPath ≠ some "" ∨ launch.prepared = true := by
  obtain ⟨req, told⟩ := delegation
  have htaskType : respawnTaskType launch.thread (some req.invocationEventPayload) = req.taskType :=
    told.taskType
  rw [hcreation] at hcall
  simp only [Creation.call, bind, Except.bind] at hcall
  split at hcall
  · cases hcall
  next chosen _ =>
    cases hcall
    have hrepo := hrecorded.repoPath
    constructor
    · intro hagrees
      have hpath := hagrees.repoPath
      simp only [respawnCall, Option.bind_some, told.repoPath] at hpath
      by_contra hnot
      rw [not_or, not_not] at hnot
      rw [hrepo, if_neg hnot.2, hnot.1] at hpath
      cases hpath
    · intro hkept
      refine ⟨hrecorded.description, hrecorded.context, ?_, ?_, htaskType, told.keepWorktree, rfl,
        .inr rfl, .inr rfl, ?_⟩
      · simp only [respawnCall, Option.bind_some, told.repoPath, hrepo]
        -- The invocation names the repository, or else the record does.
        cases hpath : req.repoPath with
        | none => cases launch.prepared <;> rfl
        | some path =>
          by_cases hempty : path = ""
          · subst hempty
            have hprepared : launch.prepared = true := by
              rcases hkept with hne | hprepared
              · exact absurd hpath hne
              · exact hprepared
            have hempty : (some "").filter (· != "") = none := rfl
            rw [hempty, Option.none_or, if_pos hprepared]
            exact congrArg some (paths.resolve_resolve "")
          · rw [named_some hempty]
            rfl
      · simp only [SpawnRequest.namedBase, respawnCall, Option.bind_some, told.baseBranch]
        by_cases hnamed : req.baseBranch.filter (· != "") = none
        · right
          rw [hnamed]
          exact ⟨rfl, rfl⟩
        · left
          obtain ⟨base, hbase⟩ := Option.ne_none_iff_exists'.mp hnamed
          have hne : base ≠ "" := by
            simpa using (Option.filter_eq_some_iff.mp hbase).2
          rw [hbase, Option.some_or, named_some hne]
      · show boot.resolveFor (respawnTaskType launch.thread (some req.invocationEventPayload))
          req.invocationEventPayload.backend = boot.resolveFor req.taskType req.backend
        rw [htaskType, told.backend]

/-- A scheduled worker is restored, if its prompt is its description, its repository
is on record and its backend is the session's. -/
theorem agrees_scheduled_iff {task : ScheduledTaskConfig} {description : String}
    {backendOverride promptOverride : Option String}
    (hannouncement : launch.creation.announcement = some none)
    (hasked : launch.creation.asked = (.implement, none))
    (hcall : fireScheduledWorker launch.env task description backendOverride promptOverride
      = .ok original)
    (hrecorded : Recorded paths id launch original) :
    Agrees paths boot launch.thread original (respawnCall launch.thread none resolved)
      ↔ (promptOverride.filter (· != "")).getD description = description
        ∧ launch.KeepsTask boot task backendOverride := by
  obtain ⟨effective, chosen, heffective, rfl⟩ := fireScheduledWorker_eq_ok hcall
  have htaskType : respawnTaskType launch.thread none = .implement := by
    have htype := hrecorded.taskType
    rw [hannouncement, hasked] at htype
    exact htype
  have hrepo := hrecorded.repoPath
  have hdescription : launch.thread.description = description := hrecorded.description
  constructor
  · intro hagrees
    have hpath := hagrees.repoPath
    have hprompt := hagrees.prompt
    have hbackend := hagrees.backend
    refine ⟨?_, ?_, effective, heffective, ?_⟩
    · exact hprompt.symm.trans hdescription
    · by_contra hnot
      rw [not_or] at hnot
      obtain ⟨repo, hsome⟩ := Option.ne_none_iff_exists'.mp hnot.1
      simp [respawnCall, hrepo, hnot.2, hsome] at hpath
    · simpa [respawnCall, htaskType, BackendContext.resolveFor] using hbackend
  · rintro ⟨hprompt, hkeeps⟩
    obtain ⟨found, hfound, hsame⟩ := hkeeps.backend
    rw [heffective] at hfound
    cases hfound
    refine ⟨?_, hrecorded.context, ?_, .inr ⟨rfl, rfl⟩, htaskType, rfl, rfl, .inr rfl, .inr rfl, ?_⟩
    · exact hdescription.trans hprompt.symm
    · show launch.thread.repoPath.map paths.resolve = task.repo.map paths.resolve
      rw [hrepo]
      cases hpath : task.repo with
      | none => cases launch.prepared <;> rfl
      | some repo =>
        have hprepared : launch.prepared = true := by
          rcases hkeeps.repo with hnone | hprepared
          · rw [hpath] at hnone
            cases hnone
          · exact hprepared
        rw [if_pos hprepared]
        simp [paths.resolve_resolve]
    · simpa [respawnCall, htaskType, BackendContext.resolveFor] using hsame

end Agreement

/-! ## Every thread a crash leaves behind -/

/-- What the boot does with a thread: it is respawned as it was asked for, or it is
finalized as failed. -/
def RightlyReconciled (paths : Paths) (boot : BackendContext) (chatEvents : List ChatRow)
    (launch : Launch) : Prop :=
  match reconcileNeverStarted boot chatEvents launch.thread with
  | .respawned call => ∃ original, launch.creation.call launch.env = .ok original
      ∧ Agrees paths boot launch.thread original call
  | .finalized status => status = .failed

section Boot

variable {paths : Paths} {boot : BackendContext} {chatEvents : List ChatRow} {launch : Launch}

theorem rightlyReconciled_of_none
    (h : maybeRespawn boot chatEvents launch.thread = none) :
    RightlyReconciled paths boot chatEvents launch := by
  rw [RightlyReconciled, reconcileNeverStarted, h]
  rfl

theorem rightlyReconciled_iff_of_some {original call : SpawnCall}
    (hcall : launch.creation.call launch.env = .ok original)
    (h : maybeRespawn boot chatEvents launch.thread = some call) :
    RightlyReconciled paths boot chatEvents launch
      ↔ Agrees paths boot launch.thread original call := by
  rw [RightlyReconciled, reconcileNeverStarted, h]
  constructor
  · rintro ⟨found, hfound, hagrees⟩
    rw [hcall] at hfound
    cases hfound
    exact hagrees
  · exact fun hagrees => ⟨original, hcall, hagrees⟩

end Boot

namespace LaunchState

variable {paths : Paths} {boot : BackendContext} {s : LaunchState} {id : String} {launch : Launch}

theorem Inv.invocationOf (h : Inv paths s) (hlaunch : s.launches id = some launch)
    (hannounced : ∃ found, .taskDelegated id found ∈ s.chat) :
    ∃ invocation, launch.Announces invocation
      ∧ Respawn.invocationOf id s.chat = some invocation := by
  have hsame : ∀ found, .taskDelegated id found ∈ s.chat → launch.Announces found := by
    intro found hrow
    obtain ⟨other, hother, hannounces⟩ := h.told id found hrow
    rw [hlaunch] at hother
    cases hother
    exact hannounces
  obtain ⟨found, hrow⟩ := hannounced
  refine ⟨found, hsame found hrow, invocationOf_eq_some (fun other hother => ?_) ⟨found, hrow⟩⟩
  have hannouncement := (hsame other hother).1
  rw [(hsame found hrow).1] at hannouncement
  exact (Option.some.inj hannouncement).symm

theorem asked_of_announces {invocation : Option DelegateInvocationMetadata}
    {original : SpawnCall} (hannouncement : launch.creation.announcement = some invocation)
    (hrecorded : Recorded paths id launch original) :
    boot.resolveFor (respawnTaskType launch.thread invocation) (invocation.bind (·.backend))
      = boot.resolveFor launch.creation.asked.1 launch.creation.asked.2 := by
  have htaskType := hrecorded.taskType
  rw [hannouncement] at htaskType
  have hjoin : respawnTaskType launch.thread invocation = launch.creation.asked.1 := htaskType
  have hbackend : invocation.bind (·.backend) = launch.creation.asked.2 := by
    cases hcreation : launch.creation with
    | delegate delegation =>
      rw [hcreation] at hannouncement
      cases hannouncement
      exact delegation.told.backend
    | scheduledPrompt | scheduledLoop | step =>
      rw [hcreation] at hannouncement
      cases hannouncement
      rfl
    | reviewer | iteration =>
      rw [hcreation] at hannouncement
      cases hannouncement
  rw [hjoin, hbackend]

theorem Inv.thread_id (h : Inv paths s) (hlaunch : s.launches id = some launch) :
    launch.thread.id = id := by
  have hstaged := h.staged id launch hlaunch
  unfold Staged at hstaged
  split at hstaged
  · obtain ⟨attempt, call, -, hrecord⟩ := hstaged
    rw [id_of_createRunWorker hrecord, register_id]
  · rw [hstaged, register_id]

/-- **What is respawned**: a thread the boot respawns is called for with what its
event and its record say. -/
theorem Inv.maybeRespawn_eq_some (h : Inv paths s) (hlaunch : s.launches id = some launch)
    (hrespawnable : Respawnable boot s.chat launch) :
    ∃ invocation original resolved, launch.creation.announcement = some invocation
      ∧ launch.creation.call launch.env = .ok original
      ∧ Recorded paths id launch original
      ∧ maybeRespawn boot s.chat launch.thread
        = some (respawnCall launch.thread invocation resolved) := by
  have hannounced := hrespawnable.announced
  rw [h.thread_id hlaunch] at hannounced
  obtain ⟨invocation, ⟨hannouncement, original, hcall⟩, hfound⟩ := h.invocationOf hlaunch hannounced
  have hrecorded := h.recorded hlaunch hannouncement hcall
  obtain ⟨resolved, hresolved⟩ := hrespawnable.resolves
  refine ⟨invocation, original, resolved, hannouncement, hcall, hrecorded, ?_⟩
  rw [maybeRespawn, hrespawnable.notReviewer, hrespawnable.notIteration, hrecorded.id, hfound]
  simp only [Bool.or_self, Bool.false_eq_true, if_false]
  rw [asked_of_announces hannouncement hrecorded, hresolved]

theorem Inv.respawnable (h : Inv paths s) (hlaunch : s.launches id = some launch)
    {call : SpawnCall} (hcall : maybeRespawn boot s.chat launch.thread = some call) :
    Respawnable boot s.chat launch := by
  unfold maybeRespawn at hcall
  split at hcall
  · cases hcall
  next hrefused =>
    rw [Bool.or_eq_true, not_or, Bool.not_eq_true, Bool.not_eq_true] at hrefused
    split at hcall
    · cases hcall
    next invocation hfound =>
      have hrow := mem_of_invocationOf hfound
      rw [h.thread_id hlaunch] at hrow hfound
      obtain ⟨known, ⟨hannouncement, original, hmade⟩, hknown⟩ :=
        h.invocationOf hlaunch ⟨invocation, hrow⟩
      rw [hfound] at hknown
      cases hknown
      have hrecorded := h.recorded hlaunch hannouncement hmade
      split at hcall
      · cases hcall
      next resolved hresolved =>
        rw [asked_of_announces hannouncement hrecorded] at hresolved
        refine ⟨hrefused.1, hrefused.2, ⟨invocation, ?_⟩, resolved, hresolved⟩
        rw [hrecorded.id]
        exact hrow

theorem agrees_iff {invocation : Option DelegateInvocationMetadata} {original : SpawnCall}
    {resolved : String × Option String}
    (hannouncement : launch.creation.announcement = some invocation)
    (hcall : launch.creation.call launch.env = .ok original)
    (hrecorded : Recorded paths id launch original) :
    Agrees paths boot launch.thread original (respawnCall launch.thread invocation resolved)
      ↔ launch.Restorable boot := by
  unfold Launch.Restorable
  split
  next delegation hcreation =>
    rw [hcreation] at hannouncement
    cases hannouncement
    exact agrees_delegate_iff hcreation hcall hrecorded
  next task hcreation =>
    rw [hcreation] at hcall hannouncement
    cases hannouncement
    rw [agrees_scheduled_iff (by rw [hcreation]; rfl) (by rw [hcreation]; rfl) hcall hrecorded]
    exact and_iff_right rfl
  next task actionType prompt hcreation =>
    rw [hcreation] at hcall hannouncement
    cases hannouncement
    rw [agrees_scheduled_iff (by rw [hcreation]; rfl) (by rw [hcreation]; rfl) hcall hrecorded]
    exact and_iff_right rfl
  next task stepIndex chainRoot previousResult hcreation =>
    rw [hcreation] at hcall hannouncement
    cases hannouncement
    rw [agrees_scheduled_iff (by rw [hcreation]; rfl) (by rw [hcreation]; rfl) hcall hrecorded]
    refine and_congr_left' ?_
    -- A prompt that is empty gives way to the description.
    by_cases hempty : (spawnStep task stepIndex chainRoot previousResult).prompt = ""
    · rw [hempty]
      exact iff_of_true rfl (.inl rfl)
    · rw [named_some hempty, or_iff_right hempty]
      rfl
  next hcreation =>
    rw [hcreation] at hannouncement
    cases hannouncement
  next hcreation =>
    rw [hcreation] at hannouncement
    cases hannouncement

end LaunchState

/-- **What the boot does is right exactly if** what was asked for can be read off the
record and the event, or the thread is not respawned. -/
theorem LaunchState.Inv.rightlyReconciled_iff {paths : Paths} {s : LaunchState} (h : Inv paths s)
    {id : String} {launch : Launch} (hlaunch : s.launches id = some launch)
    (boot : BackendContext) :
    RightlyReconciled paths boot s.chat launch
      ↔ launch.Restorable boot ∨ ¬ Respawnable boot s.chat launch := by
  by_cases hrespawnable : Respawnable boot s.chat launch
  · obtain ⟨invocation, original, resolved, hannouncement, hcall, hrecorded, hmade⟩ :=
      h.maybeRespawn_eq_some hlaunch hrespawnable
    rw [rightlyReconciled_iff_of_some hcall hmade,
      LaunchState.agrees_iff hannouncement hcall hrecorded]
    exact (or_iff_left (not_not.mpr hrespawnable)).symm
  · refine iff_of_true ?_ (.inr hrespawnable)
    cases hmade : maybeRespawn boot s.chat launch.thread with
    | none => exact rightlyReconciled_of_none hmade
    | some call => exact absurd (h.respawnable hlaunch hmade) hrespawnable

/-- Paths without links, taken from the root. -/
def rootPaths : Paths where
  resolve path := String.ofList ('/' :: path.toList.dropWhile (· = '/'))
  resolve_resolve path := by
    show String.ofList ('/' :: List.dropWhile (· = '/')
      (String.ofList ('/' :: path.toList.dropWhile (· = '/'))).toList) = _
    rw [String.toList_ofList, List.dropWhile_cons_of_pos (by decide), List.dropWhile_idempotent]
  resolve_ne path h := by
    have hlist := congrArg String.toList h
    simp at hlist

/-- One backend, and a session bound to it. -/
def oneBackend : BackendContext where
  cfg := { options := [⟨"claude", .ccClaude, some "sonnet"⟩] }
  session := some (some "claude")

/-- A delegation from the command line. -/
def handoff : DelegateArgs where
  taskSpec := "# Goal\nTidy the parser."
  taskSpecFile := "/tmp/spec.md"
  repo := some "/srv/parser"
  baseBranch := some "main"
  keepWorktree := false

section Runs

variable {paths : Paths} {sessionId : String} {as : List LaunchAction} {s : LaunchState}
  {id : String} {launch : Launch}

end Runs

/-! ## A step that is respawned with its name -/

/-- A task of two steps. -/
def nightly : ScheduledTaskConfig where
  name := "nightly"
  steps := [⟨"collect", "Collect the numbers of the day.", none⟩,
    ⟨"report", "Write the report.", none⟩]

end Respawn
