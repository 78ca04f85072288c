import CharlieBot.FinalizeEffects
import CharlieBot.Lib.Transition
import CharlieBot.Runs
import Mathlib.Data.List.Nodup

/-!
# The review chain

A worker that is done is reviewed, or the master is told at once. A reviewer that
fails is replaced by one on another backend, as long as there is a backend
that was not tried; when the review is done, or no other reviewer is to be
had, the master is told what worker and reviewer came to.

Whether a reviewer is started anew is decided by whether one exists, and the
only one left out of that question is the thread that just ended. The second
reviewer that fails therefore finds the first, and takes it for its
replacement; and a worker whose reviewer cannot be started at all tells nobody
(`swallowed_secondReviewer`, `swallowed_worker`). Along the runs that meet
neither case every thread that ends leads to a fresh reviewer or to one call
that tells the master, and no chain ends untold (`told_of_run`).
-/

/-! ## Backends -/

structure BackendOption where
  id : String
  type : BackendType
  model : Option String := none

/-- The `backends` section of the configuration. -/
structure BackendsConfig where
  preference : List String := []
  options : List BackendOption := []

def backendTypeAllowsMissingModel (type : BackendType) : Bool :=
  type = .antigravity || type = .tuiCli

namespace BackendsConfig

variable (cfg : BackendsConfig)

def getBackendOption (backendId : String) : Option BackendOption :=
  cfg.options.find? (·.id = backendId)

def requireBackendOption (backendId subject : String) : Except String BackendOption :=
  match cfg.getBackendOption backendId with
  | some option => .ok option
  | none => .error (subject ++ "backend '" ++ backendId ++ "' is not in backends.options")

def resolvePreferenceOption (optionId : String) : Except String BackendOption := do
  let option ← cfg.requireBackendOption optionId "backends.preference entry "
  if backendTypeAllowsMissingModel option.type then return { option with model := none }
  else if !hasText option.model then
    throw ("backends.preference entry '" ++ optionId ++ "' has no default model")
  else return option

def requireThreadBackendModel (thread : ThreadMetadata) :
    Except String (String × Option String) :=
  match thread.backend.filter (· != "") with
  | none => .error ("thread '" ++ thread.id ++ "' missing backend metadata")
  | some backend =>
    if hasText thread.model then .ok (backend, thread.model)
    else do
      let option ← cfg.requireBackendOption backend ("thread '" ++ thread.id ++ "' ")
      if backendTypeAllowsMissingModel option.type then return (backend, none)
      else throw ("thread '" ++ thread.id ++ "' missing model metadata")

/-- The first preference that is not the worker's backend, was not tried, and
resolves. -/
def firstUntried (workerBackend : String) (triedBackends : List String) :
    List String → Option BackendOption
  | [] => none
  | prefId :: rest =>
    if prefId = workerBackend then firstUntried workerBackend triedBackends rest
    else if prefId ∈ triedBackends then firstUntried workerBackend triedBackends rest
    else match cfg.resolvePreferenceOption prefId with
      | .ok option => some option
      | .error _ => firstUntried workerBackend triedBackends rest

end BackendsConfig

/-- A backend for a reviewer, and the backends tried with it. -/
structure ReviewerBackend where
  backend : String
  model : Option String
  triedBackends : List String

def selectReviewerBackend (cfg : BackendsConfig) (workerBackend : String)
    (workerModel : Option String) (triedBackends : List String) : Option ReviewerBackend :=
  match cfg.firstUntried workerBackend triedBackends cfg.preference with
  | some option => some ⟨option.id, option.model, triedBackends ++ [option.id]⟩
  | none =>
    if cfg.preference ≠ [] ∧ workerBackend ∈ triedBackends then none
    else some ⟨workerBackend, workerModel, triedBackends ++ [workerBackend]⟩

/-! ## The reviewer of a thread -/

structure ReviewRead where
  cfg : BackendsConfig
  /-- Whether the record of the original thread is there. -/
  originalFound : Bool := true
  originalEvents : String := ""
  worktreeIsDir : Bool := true
  /-- `git_current_branch`. -/
  currentBranch : Except String String
  /-- The prompt, with what the logs say of the worker. -/
  prompt : Except String String
  sessionFound : Bool := true
  /-- The id of the thread that is created. -/
  reviewThread : Except String String
  /-- Whether its record is saved. -/
  saved : Except String Unit := .ok ()
  /-- `finalize_master_woke`. -/
  masterWoke : Bool := false

/-- `validate_review_prerequisites`: the repository, the branch and the worktree. -/
def validateReviewPrerequisites (originalThread : ThreadMetadata) (read : ReviewRead) :
    Option (String × String × String) :=
  match originalThread.repoPath.filter (· != ""), originalThread.branchName.filter (· != ""),
      originalThread.worktreePath.filter (· != "") with
  | some repoPath, some branchName, some worktreePath =>
    if read.worktreeIsDir then some (repoPath, branchName, worktreePath) else none
  | _, _, _ => none

structure ReviewSpawnContext where
  repoPath : String
  branchName : String
  wtPath : String
  baseBranch : String
  reviewer : ReviewerBackend

/-- `original_thread.base_branch`, or the branch the repository is on. -/
def reviewBaseBranch (originalThread : ThreadMetadata) (read : ReviewRead) :
    Except String String :=
  match originalThread.baseBranch.filter (· != "") with
  | some baseBranch => .ok baseBranch
  | none => read.currentBranch

def resolveReviewSpawnContext (originalThread : ThreadMetadata) (triedBackends : List String)
    (read : ReviewRead) : Except String (Option ReviewSpawnContext) :=
  if triedBackends.length > read.cfg.preference.length then .ok none
  else match validateReviewPrerequisites originalThread read with
    | none => .ok none
    | some (repoPath, branchName, wtPath) => do
      let baseBranch ← reviewBaseBranch originalThread read
      let worker ← read.cfg.requireThreadBackendModel originalThread
      return (selectReviewerBackend read.cfg worker.1 worker.2 triedBackends).map
        fun reviewer => ⟨repoPath, branchName, wtPath, baseBranch, reviewer⟩

def shortDesc (description : String) : String :=
  let firstLine := Text.strip (description.toList.takeWhile (· ≠ '\n'))
  if firstLine.length > 120 then String.ofList (firstLine.take 120) ++ "..."
  else String.ofList firstLine

/-- What a worker is started with. -/
structure SpawnRequest where
  repoPath : Option String
  promptOverride : Option String
  resolvedBackend : String
  resolvedModel : Option String

def reviewerMetadata (originalThread : ThreadMetadata) (ctx : ReviewSpawnContext)
    (reviewThread : String) : ThreadMetadata :=
  { id := reviewThread
    sessionId := originalThread.sessionId
    description := "Review: " ++ match originalThread.context.filter (· != "") with
      | some context => context
      | none => shortDesc originalThread.description
    reviewOf := some originalThread.id
    repoPath := some ctx.repoPath
    branchName := some ctx.branchName
    worktreePath := some ctx.wtPath
    triedBackends := ctx.reviewer.triedBackends }

/-- What `spawn_review_worker` comes to. -/
inductive SpawnAnswer where
  /-- A reviewer exists. -/
  | present
  | refused
  /-- A reviewer was created and started. -/
  | spawned (thread : ThreadMetadata) (request : SpawnRequest)
  /-- It raised, and may have left a record behind. -/
  | raised (created : Option ThreadMetadata) (error : String)

def spawnReviewWorker (threads : List ThreadMetadata) (originalThread : ThreadMetadata)
    (triedBackends : List String) (excludeThreadId : Option String) (read : ReviewRead) :
    SpawnAnswer :=
  if reviewerThreadExists threads originalThread.id excludeThreadId then .present
  else match resolveReviewSpawnContext originalThread triedBackends read with
    | .error error => .raised none error
    | .ok none => .refused
    | .ok (some ctx) =>
      match read.prompt with
      | .error error => .raised none error
      | .ok reviewPrompt =>
        if !read.sessionFound then .refused
        else match read.reviewThread with
          | .error error => .raised none error
          | .ok id =>
            let reviewThread := reviewerMetadata originalThread ctx id
            match read.saved with
            | .error error => .raised (some reviewThread) error
            | .ok () =>
              .spawned reviewThread ⟨some ctx.repoPath, some reviewPrompt, ctx.reviewer.backend,
                ctx.reviewer.model⟩

/-- `_retry_failed_reviewer`; without the original thread it is as if no reviewer
was to be had. -/
def retryFailedReviewer (threads : List ThreadMetadata) (threadMeta : ThreadMetadata)
    (originalThread : Option ThreadMetadata) (read : ReviewRead) : SpawnAnswer :=
  match originalThread with
  | none => .refused
  | some originalThread =>
    spawnReviewWorker threads originalThread threadMeta.triedBackends (some threadMeta.id) read

/-! ## The end of a thread -/

/-- **What the end of a thread leads to.** -/
structure ReviewEffects where
  /-- The reviewers that were started. -/
  spawned : List (ThreadMetadata × SpawnRequest) := []
  /-- The calls that tell the master. -/
  triggered : List String := []
  /-- A record that was created, of a reviewer that is not started. -/
  created : Option ThreadMetadata := none
  /-- The threads whose worktree is removed. -/
  cleaned : List String := []
  raised : Option String := none

def triggerMasterJudged (summary : String) (read : ReviewRead) : ReviewEffects :=
  { triggered := if read.masterWoke then [] else [summary] }

def SpawnAnswer.effects : SpawnAnswer → ReviewEffects
  | .present => {}
  | .refused => {}
  | .spawned thread request => { spawned := [(thread, request)] }
  | .raised created error => { created := created, raised := some error }

/-- What the master is told when a review is done. -/
def combinedSummary (originalEvents eventsSummary : String) : String :=
  "**Original worker result:**\n" ++ originalEvents ++ "\n\n**Review result:**\n" ++ eventsSummary

/-- The summary of a thread's events, or a verifier's report. -/
def SummaryRead.events (summary : SummaryRead) : String :=
  summary.verifyReport.getD summary.eventsSummary

def maybeSpawnReviewer (threads : List ThreadMetadata) (threadMeta : ThreadMetadata)
    (exitCode : ℤ) (eventsSummary fullSummary : String) (read : ReviewRead) : ReviewEffects :=
  match threadMeta.reviewOf.filter (· != "") with
  | none =>
    if exitCode = 0 then
      if !threadMeta.requireReview then triggerMasterJudged fullSummary read
      else (spawnReviewWorker threads threadMeta [] (some threadMeta.id) read).effects
    else triggerMasterJudged fullSummary read
  | some reviewOf =>
    let originalThread := if read.originalFound then threads.find? (·.id = reviewOf) else none
    let combined := combinedSummary read.originalEvents eventsSummary
    if exitCode ≠ 0 then
      match retryFailedReviewer threads threadMeta originalThread read with
      | .refused => triggerMasterJudged combined read
      | answer => answer.effects
    else
      { triggerMasterJudged combined read with
        cleaned := (originalThread.filter (!·.keepWorktree)).toList.map ThreadMetadata.id }

/-! ## The threads of a session -/

/-- A thread that ended, and what that led to. -/
structure FinishRecord where
  thread : ThreadMetadata
  /-- The result the master is to be told. -/
  result : String
  effects : ReviewEffects

/-- **The threads of a session.** -/
structure ReviewState where
  threads : List ThreadMetadata := []
  runs : List String := []
  finishes : List FinishRecord := []

inductive ReviewAction where
  /-- A worker is started. -/
  | delegate (thread : ThreadMetadata)
  /-- A thread ends. -/
  | finish (id : String) (outcome : WorkerRunOutcome) (summary : SummaryRead) (read : ReviewRead)

def finishedStatus (outcome : WorkerRunOutcome) (cancelled : Bool) : ThreadStatus :=
  if cancelled then .cancelled
  else if outcome.quotaExhausted then .failed
  else if outcome.error ≠ "" then .failed
  else if outcome.exitCode = 0 then .completed
  else .failed

/-- The result of a thread: its own, or that of the worker and its review. -/
def resultSummary (thread : ThreadMetadata) (outcome : WorkerRunOutcome) (summary : SummaryRead)
    (read : ReviewRead) : String :=
  if hasText thread.reviewOf then combinedSummary read.originalEvents summary.events
  else fullSummary thread outcome summary

namespace ReviewState

variable (s : ReviewState)

def find (id : String) : Option ThreadMetadata := s.threads.find? (·.id = id)

/-- What the end of a thread leads to. -/
def effectsOf (thread : ThreadMetadata) (outcome : WorkerRunOutcome) (summary : SummaryRead)
    (read : ReviewRead) : ReviewEffects :=
  maybeSpawnReviewer s.threads thread outcome.exitCode summary.events
    (fullSummary thread outcome summary) read

def finish (thread : ThreadMetadata) (outcome : WorkerRunOutcome) (summary : SummaryRead)
    (read : ReviewRead) : ReviewState :=
  let effects := s.effectsOf thread outcome summary read
  let status := finishedStatus outcome summary.cancelled
  { threads := s.threads.map (fun t => if t.id = thread.id then { t with status } else t)
      ++ effects.spawned.map Prod.fst ++ effects.created.toList
    runs := s.runs.erase thread.id ++ effects.spawned.map (·.1.id)
    finishes := s.finishes
      ++ [⟨thread, resultSummary thread outcome summary read, effects⟩] }

def IsFresh (id : String) : Prop := id ≠ "" ∧ ∀ t ∈ s.threads, t.id ≠ id

instance (id : String) : Decidable (s.IsFresh id) := by unfold IsFresh; infer_instance

def step : ReviewAction → Option ReviewState
  | .delegate thread =>
    if s.IsFresh thread.id ∧ hasText thread.reviewOf = false then
      some { s with threads := s.threads ++ [thread], runs := s.runs ++ [thread.id] }
    else none
  | .finish id outcome summary read =>
    match s.find id with
    | none => none
    | some thread =>
      -- ids are made up anew for every thread
      if id ∈ s.runs ∧ ∀ fresh ∈ read.reviewThread.toOption, s.IsFresh fresh then
        some (s.finish thread outcome summary read)
      else none

def system : TransitionSystem ReviewState ReviewAction := ⟨step⟩

end ReviewState

/-! ## What is claimed -/

/-- The worker at the head of a thread's chain. -/
def ThreadMetadata.chain (thread : ThreadMetadata) : String :=
  (thread.reviewOf.filter (· != "")).getD thread.id

/-- The backends that reviewers of a chain were started on. -/
def backendsTried (finishes : List FinishRecord) (chain : String) : List String :=
  finishes.flatMap fun f =>
    (f.effects.spawned.filter (·.1.chain = chain)).map (·.2.resolvedBackend)

/-- **A thread that ended is answered**: by one fresh reviewer on a backend that was
not tried before, or by one call that tells the master its result. -/
def FinishRecord.Answered (f : FinishRecord) (before : List FinishRecord) : Prop :=
  (∃ thread request, f.effects.spawned = [(thread, request)] ∧ f.effects.triggered = [] ∧
    thread.chain = f.thread.chain ∧
    request.resolvedBackend ∉ backendsTried before f.thread.chain) ∨
  f.effects.spawned = [] ∧ f.effects.triggered = [f.result]

/-- **No chain is swallowed**: every thread that ended is answered, and of a chain a
reviewer runs, or the master was told. -/
def ReviewState.Told (s : ReviewState) : Prop :=
  (∀ before f after, s.finishes = before ++ f :: after → f.Answered before) ∧
  ∀ f ∈ s.finishes,
    (∃ t ∈ s.threads, t.id ∈ s.runs ∧ hasText t.reviewOf = true ∧ t.chain = f.thread.chain) ∨
    ∃ g ∈ s.finishes, g.thread.chain = f.thread.chain ∧ g.effects.triggered ≠ []

/-- **A reviewer of a thread can be had**: it has a repository, a branch and a
worktree, the session is there, and there is a backend left. -/
structure Spawnable (originalThread : ThreadMetadata) (triedBackends : List String)
    (read : ReviewRead) : Prop where
  tries : triedBackends.length ≤ read.cfg.preference.length
  repoPath : hasText originalThread.repoPath = true
  branchName : hasText originalThread.branchName = true
  worktreePath : hasText originalThread.worktreePath = true
  worktree : read.worktreeIsDir = true
  session : read.sessionFound = true
  backend : ∀ worker ∈ originalThread.backend, worker ∉ triedBackends ∨
    ∃ prefId ∈ read.cfg.preference, prefId ≠ worker ∧ prefId ∉ triedBackends ∧
      (read.cfg.resolvePreferenceOption prefId).isOk = true

/-- **Nothing raises** on the way to a reviewer of a thread. -/
structure ReadsSucceed (originalThread : ThreadMetadata) (read : ReviewRead) : Prop where
  baseBranch : hasText originalThread.baseBranch = true ∨ read.currentBranch.isOk = true
  backend : (read.cfg.requireThreadBackendModel originalThread).isOk = true
  prompt : read.prompt.isOk = true
  reviewThread : read.reviewThread.isOk = true
  saved : read.saved.isOk = true

namespace ReviewState

variable (s : ReviewState)

/-- The thread for which a reviewer is to be started at the end of another. -/
def reviewTarget (thread : ThreadMetadata) (exitCode : ℤ) (read : ReviewRead) :
    Option ThreadMetadata :=
  match thread.reviewOf.filter (· != "") with
  | none => if exitCode = 0 ∧ thread.requireReview = true then some thread else none
  | some reviewOf => if exitCode ≠ 0 ∧ read.originalFound = true then s.find reviewOf else none

/-- The backends that were tried when a thread ends. -/
def triedAt (thread : ThreadMetadata) : List String :=
  if hasText thread.reviewOf then thread.triedBackends else []

/-- **No chain goes wrong at the end of a thread**: where a reviewer is to be started
there is none but the thread that ended, nothing raises, and the reviewer of
a worker can be had; and where the master is to be told, no output of the
master stands behind the summary. -/
def Meets : ReviewAction → Prop
  | .delegate _ => True
  | .finish id outcome _ read => ∀ thread ∈ s.find id,
    (s.reviewTarget thread outcome.exitCode read = none → read.masterWoke = false) ∧
    ∀ originalThread ∈ s.reviewTarget thread outcome.exitCode read,
      reviewerThreadExists s.threads originalThread.id (some thread.id) = false ∧
      ReadsSucceed originalThread read ∧
      (hasText thread.reviewOf = false ∨ read.masterWoke = true →
        Spawnable originalThread (triedAt thread) read)

end ReviewState

/-! ## The backend of a reviewer -/

section Select

variable {cfg : BackendsConfig} {worker : String} {tried : List String}

theorem id_of_resolvePreferenceOption {prefId : String} {option : BackendOption}
    (h : cfg.resolvePreferenceOption prefId = .ok option) : option.id = prefId := by
  have hid : ∀ o, cfg.requireBackendOption prefId "backends.preference entry " = .ok o →
      o.id = prefId := by
    intro o ho
    unfold BackendsConfig.requireBackendOption at ho
    split at ho
    · next o' ho' =>
      cases ho
      unfold BackendsConfig.getBackendOption at ho'
      have hfound := List.find?_some ho'
      exact of_decide_eq_true hfound
    · cases ho
  unfold BackendsConfig.resolvePreferenceOption at h
  cases hreq : cfg.requireBackendOption prefId "backends.preference entry " with
  | error e =>
    rw [hreq] at h
    cases h
  | ok o =>
    rw [hreq] at h
    change (if backendTypeAllowsMissingModel o.type then _ else _) = _ at h
    split at h
    · cases h
      exact hid o hreq
    · split at h
      · cases h
      · cases h
        exact hid _ hreq

theorem firstUntried_some {prefs : List String} {option : BackendOption}
    (h : cfg.firstUntried worker tried prefs = some option) :
    option.id ∈ prefs ∧ option.id ≠ worker ∧ option.id ∉ tried ∧
      (cfg.resolvePreferenceOption option.id).isOk = true := by
  induction prefs with
  | nil => cases h
  | cons prefId rest ih =>
    have hrest : cfg.firstUntried worker tried rest = some option →
        option.id ∈ prefId :: rest ∧ option.id ≠ worker ∧ option.id ∉ tried ∧
          (cfg.resolvePreferenceOption option.id).isOk = true := by
      intro hrest
      obtain ⟨hmem, hne, hnot, hok⟩ := ih hrest
      exact ⟨List.mem_cons_of_mem _ hmem, hne, hnot, hok⟩
    unfold BackendsConfig.firstUntried at h
    split at h
    · exact hrest h
    · next hne =>
      split at h
      · exact hrest h
      · next hnot =>
        split at h
        · next o ho =>
          cases h
          obtain rfl := id_of_resolvePreferenceOption ho
          refine ⟨List.mem_cons_self, hne, hnot, ?_⟩
          rw [ho]
          rfl
        · exact hrest h

theorem firstUntried_none {prefs : List String} (h : cfg.firstUntried worker tried prefs = none) :
    ∀ prefId ∈ prefs, prefId ≠ worker → prefId ∉ tried →
      (cfg.resolvePreferenceOption prefId).isOk = false := by
  induction prefs with
  | nil => exact fun _ hmem => absurd hmem List.not_mem_nil
  | cons p rest ih =>
    intro prefId hmem hne hnot
    unfold BackendsConfig.firstUntried at h
    rcases List.mem_cons.mp hmem with rfl | hmem
    · rw [if_neg hne, if_neg hnot] at h
      split at h
      · cases h
      · next e he =>
        rw [he]
        rfl
    · refine ih ?_ prefId hmem hne hnot
      split at h
      · exact h
      · split at h
        · exact h
        · split at h
          · cases h
          · exact h

theorem not_mem_of_fallback (hlen : tried.length ≤ cfg.preference.length)
    (h : ¬(cfg.preference ≠ [] ∧ worker ∈ tried)) : worker ∉ tried := by
  intro hmem
  have hpref : cfg.preference = [] := by
    by_contra hne
    exact h ⟨hne, hmem⟩
  rw [hpref, List.length_nil, Nat.le_zero, List.length_eq_zero_iff] at hlen
  rw [hlen] at hmem
  exact List.not_mem_nil hmem

/-- **A backend that was not tried is selected**, and counts as tried. -/
theorem selectReviewerBackend_some {model : Option String} {r : ReviewerBackend}
    (hlen : tried.length ≤ cfg.preference.length)
    (h : selectReviewerBackend cfg worker model tried = some r) :
    r.backend ∉ tried ∧ r.triedBackends = tried ++ [r.backend] := by
  unfold selectReviewerBackend at h
  split at h
  · next option hoption =>
    cases h
    exact ⟨(firstUntried_some hoption).2.2.1, rfl⟩
  · split at h
    · cases h
    · next hnot =>
      cases h
      exact ⟨not_mem_of_fallback hlen hnot, rfl⟩

theorem selectReviewerBackend_isSome {model : Option String}
    (hlen : tried.length ≤ cfg.preference.length) :
    (selectReviewerBackend cfg worker model tried).isSome = true ↔
      (worker ∉ tried ∨ ∃ prefId ∈ cfg.preference, prefId ≠ worker ∧ prefId ∉ tried ∧
        (cfg.resolvePreferenceOption prefId).isOk = true) := by
  unfold selectReviewerBackend
  split
  · next option hoption =>
    exact ⟨fun _ => .inr ⟨option.id, firstUntried_some hoption⟩, fun _ => rfl⟩
  · next hnone =>
    split
    · next hboth =>
      refine ⟨nofun, fun h => ?_⟩
      rcases h with hnot | ⟨prefId, hmem, hne, hnot, hok⟩
      · exact absurd hboth.2 hnot
      · rw [firstUntried_none hnone prefId hmem hne hnot] at hok
        cases hok
    · next hnot =>
      exact ⟨fun _ => .inl (not_mem_of_fallback hlen hnot), fun _ => rfl⟩

end Select

/-! ## The reviewer that is started -/

section Spawn

variable {threads : List ThreadMetadata} {originalThread : ThreadMetadata} {tried : List String}
  {exclude : Option String} {read : ReviewRead}

theorem filter_eq_none_of_hasText {value : Option String} (h : hasText value = false) :
    value.filter (· != "") = none := by
  cases value with
  | none => rfl
  | some text =>
    rw [hasText, Option.any_some] at h
    rw [Option.filter_some, h]
    rfl

theorem filter_eq_some_of_hasText {value : Option String} (h : hasText value = true) :
    ∃ text, value = some text ∧ text ≠ "" ∧ value.filter (· != "") = some text := by
  cases value with
  | none => cases h
  | some text =>
    rw [hasText, Option.any_some] at h
    refine ⟨text, rfl, bne_iff_ne.mp h, ?_⟩
    rw [Option.filter_some, h]
    rfl

theorem validateReviewPrerequisites_isSome :
    (validateReviewPrerequisites originalThread read).isSome = true ↔
      hasText originalThread.repoPath = true ∧ hasText originalThread.branchName = true ∧
        hasText originalThread.worktreePath = true ∧ read.worktreeIsDir = true := by
  unfold validateReviewPrerequisites
  cases hrepo : hasText originalThread.repoPath with
  | false => simp [filter_eq_none_of_hasText hrepo]
  | true =>
    obtain ⟨repo, -, -, hrepo'⟩ := filter_eq_some_of_hasText hrepo
    cases hbranch : hasText originalThread.branchName with
    | false => simp [hrepo', filter_eq_none_of_hasText hbranch]
    | true =>
      obtain ⟨branch, -, -, hbranch'⟩ := filter_eq_some_of_hasText hbranch
      cases hwt : hasText originalThread.worktreePath with
      | false => simp [hrepo', hbranch', filter_eq_none_of_hasText hwt]
      | true =>
        obtain ⟨wt, -, -, hwt'⟩ := filter_eq_some_of_hasText hwt
        simp only [hrepo', hbranch', hwt']
        cases read.worktreeIsDir <;> simp

theorem ok_of_isOk {ε α : Type*} {result : Except ε α} (h : result.isOk = true) :
    ∃ a, result = .ok a := by
  cases result with
  | error e => cases h
  | ok a => exact ⟨a, rfl⟩

theorem ReadsSucceed.reviewBaseBranch_ok (h : ReadsSucceed originalThread read) :
    ∃ base, reviewBaseBranch originalThread read = .ok base := by
  unfold reviewBaseBranch
  rcases h.baseBranch with htext | hok
  · obtain ⟨base, -, -, hbase⟩ := filter_eq_some_of_hasText htext
    exact ⟨base, by rw [hbase]⟩
  · split
    · next base _ => exact ⟨base, rfl⟩
    · exact ok_of_isOk hok

theorem backend_of_requireThreadBackendModel {cfg : BackendsConfig} {w : String × Option String}
    (h : cfg.requireThreadBackendModel originalThread = .ok w) :
    originalThread.backend = some w.1 := by
  unfold BackendsConfig.requireThreadBackendModel at h
  split at h
  · cases h
  · next backend hbackend =>
    have hsome : originalThread.backend = some backend := (Option.filter_eq_some_iff.mp hbackend).1
    split at h
    · cases h
      exact hsome
    · cases hreq : cfg.requireBackendOption backend ("thread '" ++ originalThread.id ++ "' ") with
      | error e =>
        rw [hreq] at h
        cases h
      | ok o =>
        rw [hreq] at h
        change (if backendTypeAllowsMissingModel o.type then _ else _) = _ at h
        split at h
        · cases h
          exact hsome
        · cases h

/-- **What a reviewer is started with**, where nothing raises: there is
something exactly when it can be had, but for the session. -/
theorem resolveReviewSpawnContext_ok (hreads : ReadsSucceed originalThread read) :
    ∃ ctx, resolveReviewSpawnContext originalThread tried read = .ok ctx ∧
      (ctx.isSome = true ∧ read.sessionFound = true ↔ Spawnable originalThread tried read) ∧
      ∀ c ∈ ctx, c.reviewer.backend ∉ tried ∧
        c.reviewer.triedBackends = tried ++ [c.reviewer.backend] := by
  unfold resolveReviewSpawnContext
  split
  · next hlen =>
    exact ⟨none, rfl, ⟨fun h => (by cases h.1), fun h => absurd h.tries (Nat.not_le_of_lt hlen)⟩,
      fun _ hc => (by cases hc)⟩
  · next hlen =>
    have hlen : tried.length ≤ read.cfg.preference.length := Nat.le_of_not_lt hlen
    have hprereq := @validateReviewPrerequisites_isSome originalThread read
    split
    · next hnone =>
      rw [hnone] at hprereq
      refine ⟨none, rfl, ⟨fun h => (by cases h.1), fun h => ?_⟩, fun _ hc => (by cases hc)⟩
      exact absurd (hprereq.mpr ⟨h.repoPath, h.branchName, h.worktreePath, h.worktree⟩) nofun
    · next repo branch wt hsome =>
      rw [hsome] at hprereq
      obtain ⟨hrepo, hbranch, hwt, hdir⟩ := hprereq.mp rfl
      obtain ⟨base, hbase⟩ := hreads.reviewBaseBranch_ok
      obtain ⟨worker, hworker⟩ := ok_of_isOk hreads.backend
      have hbackend := backend_of_requireThreadBackendModel hworker
      rw [hbase, hworker]
      refine ⟨_, rfl, ?_, fun c hc => ?_⟩
      · rw [Option.isSome_map, selectReviewerBackend_isSome hlen]
        constructor
        · rintro ⟨hleft, hsession⟩
          refine ⟨hlen, hrepo, hbranch, hwt, hdir, hsession, fun w hw => ?_⟩
          rw [hbackend] at hw
          cases hw
          exact hleft
        · exact fun h => ⟨h.backend worker.1 hbackend, h.session⟩
      · obtain ⟨reviewer, hreviewer, rfl⟩ := Option.map_eq_some_iff.mp hc
        exact selectReviewerBackend_some hlen hreviewer

/-- **A reviewer is started where it can be had**, on a backend that was not
tried. -/
theorem spawnReviewWorker_of_spawnable
    (hnone : reviewerThreadExists threads originalThread.id exclude = false)
    (hreads : ReadsSucceed originalThread read) (h : Spawnable originalThread tried read) :
    ∃ thread request, spawnReviewWorker threads originalThread tried exclude read
        = .spawned thread request ∧
      thread.reviewOf = some originalThread.id ∧ read.reviewThread.toOption = some thread.id ∧
      request.resolvedBackend ∉ tried ∧ request.resolvedBackend ∈ thread.triedBackends := by
  obtain ⟨ctx, hctx, hiff, hfresh⟩ := @resolveReviewSpawnContext_ok originalThread tried read hreads
  obtain ⟨c, rfl⟩ := Option.isSome_iff_exists.mp (hiff.mpr h).1
  obtain ⟨hnot, htried⟩ := hfresh c rfl
  unfold spawnReviewWorker
  rw [hnone, hctx, h.session]
  obtain ⟨prompt, hprompt⟩ := ok_of_isOk hreads.prompt
  obtain ⟨id, hid⟩ := ok_of_isOk hreads.reviewThread
  obtain ⟨_, hsaved⟩ := ok_of_isOk hreads.saved
  rw [hprompt, hid, hsaved]
  refine ⟨_, _, rfl, rfl, rfl, hnot, ?_⟩
  show c.reviewer.backend ∈ c.reviewer.triedBackends
  rw [htried]
  exact List.mem_append_right _ (List.mem_singleton_self _)

theorem spawnReviewWorker_of_not_spawnable
    (hnone : reviewerThreadExists threads originalThread.id exclude = false)
    (hreads : ReadsSucceed originalThread read) (h : ¬Spawnable originalThread tried read) :
    spawnReviewWorker threads originalThread tried exclude read = .refused := by
  obtain ⟨ctx, hctx, hiff, -⟩ := @resolveReviewSpawnContext_ok originalThread tried read hreads
  unfold spawnReviewWorker
  rw [hnone, hctx]
  obtain ⟨prompt, hprompt⟩ := ok_of_isOk hreads.prompt
  cases ctx with
  | none => rfl
  | some c =>
    have hsession : read.sessionFound = false := by
      by_contra hsession
      exact h (hiff.mp ⟨rfl, eq_true_of_ne_false hsession⟩)
    rw [hprompt, hsession]
    rfl

end Spawn

/-! ## The end of a thread -/

namespace ReviewState

variable {s s' : ReviewState} {thread originalThread : ThreadMetadata}
  {outcome : WorkerRunOutcome} {summary : SummaryRead} {read : ReviewRead}

theorem find_some {id : String} (h : s.find id = some thread) :
    thread ∈ s.threads ∧ thread.id = id :=
  ⟨List.mem_of_find?_eq_some h, of_decide_eq_true (List.find?_some h :)⟩

theorem reviewTarget_some {exitCode : ℤ}
    (h : s.reviewTarget thread exitCode read = some originalThread) :
    originalThread.id = thread.chain ∧ (originalThread = thread ∨ originalThread ∈ s.threads) := by
  unfold reviewTarget at h
  split at h
  · next hnone =>
    split at h
    · cases h
      refine ⟨?_, .inl rfl⟩
      rw [ThreadMetadata.chain, hnone, Option.getD_none]
    · cases h
  · next reviewOf hsome =>
    split at h
    · obtain ⟨hmem, hid⟩ := find_some h
      refine ⟨?_, .inr hmem⟩
      rw [ThreadMetadata.chain, hsome, Option.getD_some, hid]
    · cases h

theorem effectsOf_of_target_none
    (h : s.reviewTarget thread outcome.exitCode read = none) :
    (s.effectsOf thread outcome summary read).spawned = [] ∧
    (s.effectsOf thread outcome summary read).triggered
      = (if read.masterWoke then [] else [resultSummary thread outcome summary read]) ∧
    (s.effectsOf thread outcome summary read).created = none := by
  unfold effectsOf maybeSpawnReviewer
  unfold reviewTarget at h
  cases htext : hasText thread.reviewOf with
  | false =>
    rw [filter_eq_none_of_hasText htext] at h ⊢
    have hresult : resultSummary thread outcome summary read = fullSummary thread outcome summary := by
      rw [resultSummary, htext]
      rfl
    rw [hresult]
    simp only at h ⊢
    split
    · next hzero =>
      rw [if_pos]
      · exact ⟨rfl, rfl, rfl⟩
      · by_contra hreview
        rw [if_pos ⟨hzero, by simpa using hreview⟩] at h
        cases h
    · exact ⟨rfl, rfl, rfl⟩
  | true =>
    obtain ⟨reviewOf, -, -, hsome⟩ := filter_eq_some_of_hasText htext
    rw [hsome] at h ⊢
    have hresult : resultSummary thread outcome summary read
        = combinedSummary read.originalEvents summary.events := by
      rw [resultSummary, htext]
      rfl
    rw [hresult]
    simp only at h ⊢
    split
    · next hfailed =>
      have horiginal : (if read.originalFound then s.threads.find? (·.id = reviewOf) else none)
          = none := by
        split
        · next hfound =>
          rw [if_pos ⟨hfailed, hfound⟩] at h
          exact h
        · rfl
      rw [horiginal]
      exact ⟨rfl, rfl, rfl⟩
    · exact ⟨rfl, rfl, rfl⟩

/-- Where a reviewer is to be started, that is tried; and where none is to be had
the master is told of a review, but not of a worker. -/
theorem effectsOf_of_target_some
    (h : s.reviewTarget thread outcome.exitCode read = some originalThread) :
    s.effectsOf thread outcome summary read
      = match spawnReviewWorker s.threads originalThread (triedAt thread) (some thread.id) read with
        | .refused => if hasText thread.reviewOf then
            triggerMasterJudged (resultSummary thread outcome summary read) read else {}
        | answer => answer.effects := by
  unfold effectsOf maybeSpawnReviewer
  unfold reviewTarget at h
  cases htext : hasText thread.reviewOf with
  | false =>
    rw [filter_eq_none_of_hasText htext] at h ⊢
    simp only at h ⊢
    split at h
    · next hboth =>
      cases h
      rw [if_pos hboth.1, hboth.2, triedAt, htext]
      simp only [Bool.not_true, Bool.false_eq_true, if_false]
      split
      · next hanswer => rw [hanswer]; rfl
      · rfl
    · cases h
  | true =>
    obtain ⟨reviewOf, -, -, hsome⟩ := filter_eq_some_of_hasText htext
    rw [hsome] at h ⊢
    have hresult : resultSummary thread outcome summary read
        = combinedSummary read.originalEvents summary.events := by
      rw [resultSummary, htext]
      rfl
    rw [hresult, triedAt, htext]
    simp only [if_true] at h ⊢
    split at h
    · next hboth =>
      rw [if_pos hboth.1, if_pos hboth.2, show s.threads.find? (·.id = reviewOf) = _ from h]
      rfl
    · cases h

/-- **What holds of the threads of a session.** -/
structure Inv (s : ReviewState) : Prop where
  ids : (s.threads.map ThreadMetadata.id).Nodup
  nonempty : ∀ t ∈ s.threads, t.id ≠ ""
  /-- The record of a reviewer says that its backend was tried. -/
  tried : ∀ f ∈ s.finishes, ∀ p ∈ f.effects.spawned, ∃ t ∈ s.threads,
    t.reviewOf = some p.1.chain ∧ p.2.resolvedBackend ∈ t.triedBackends
  told : s.Told

theorem inv_empty : Inv {} where
  ids := List.nodup_nil
  nonempty _ h := absurd h List.not_mem_nil
  tried _ h := absurd h List.not_mem_nil
  told := by
    refine ⟨fun before f after h => ?_, fun _ h => absurd h List.not_mem_nil⟩
    exact absurd h.symm (by simp)

/-- **What the end of a thread leads to**, where no chain goes wrong. -/
theorem Inv.effects_cases (h : Inv s) {id : String} (hfind : s.find id = some thread)
    (hmeets : s.Meets (.finish id outcome summary read)) :
    (∃ r request, (s.effectsOf thread outcome summary read).spawned = [(r, request)] ∧
      (s.effectsOf thread outcome summary read).triggered = [] ∧
      (s.effectsOf thread outcome summary read).created = none ∧
      r.reviewOf = some thread.chain ∧ thread.chain ≠ "" ∧
      read.reviewThread.toOption = some r.id ∧ request.resolvedBackend ∉ triedAt thread ∧
      request.resolvedBackend ∈ r.triedBackends ∧
      reviewerThreadExists s.threads thread.chain (some thread.id) = false) ∨
    (s.effectsOf thread outcome summary read).spawned = [] ∧
      (s.effectsOf thread outcome summary read).triggered
        = [resultSummary thread outcome summary read] ∧
      (s.effectsOf thread outcome summary read).created = none := by
  obtain ⟨hquiet, hstarts⟩ := hmeets thread hfind
  cases htarget : s.reviewTarget thread outcome.exitCode read with
  | none =>
    obtain ⟨hspawned, htriggered, hcreated⟩ := @effectsOf_of_target_none s thread outcome summary read htarget
    rw [hquiet htarget] at htriggered
    exact .inr ⟨hspawned, htriggered, hcreated⟩
  | some originalThread =>
    obtain ⟨hnone, hreads, hspawnable⟩ := hstarts originalThread htarget
    obtain ⟨hchain, horiginal⟩ := reviewTarget_some htarget
    have hne : thread.chain ≠ "" := by
      rw [← hchain]
      rcases horiginal with rfl | hmem
      · exact h.nonempty _ (find_some hfind).1
      · exact h.nonempty _ hmem
    rw [effectsOf_of_target_some htarget]
    by_cases hcan : Spawnable originalThread (triedAt thread) read
    · obtain ⟨r, request, hanswer, hreviewOf, hid, hnot, hin⟩ :=
        spawnReviewWorker_of_spawnable hnone hreads hcan
      rw [hanswer]
      rw [hchain] at hreviewOf hnone
      exact .inl ⟨r, request, rfl, rfl, rfl, hreviewOf, hne, hid, hnot, hin, hnone⟩
    · rw [spawnReviewWorker_of_not_spawnable hnone hreads hcan]
      cases htext : hasText thread.reviewOf with
      | false => exact absurd (hspawnable (.inl htext)) hcan
      | true =>
        cases hwoke : read.masterWoke with
        | true => exact absurd (hspawnable (.inr hwoke)) hcan
        | false =>
          refine .inr ⟨rfl, ?_, rfl⟩
          simp only [triggerMasterJudged, hwoke, if_true, Bool.false_eq_true, if_false]

theorem chain_of_reviewOf {t : ThreadMetadata} {chain : String} (h : t.reviewOf = some chain)
    (hne : chain ≠ "") : t.chain = chain ∧ hasText t.reviewOf = true := by
  have htext : (chain != "") = true := bne_iff_ne.mpr hne
  constructor
  · rw [ThreadMetadata.chain, h, Option.filter_some, htext]
    rfl
  · rw [h, hasText, Option.any_some, htext]

/-- A backend that a reviewer of the chain was started on counts as tried, where the
thread that ended is the only reviewer there is. -/
theorem Inv.mem_triedAt (h : Inv s) (hmem : thread ∈ s.threads) (hne : thread.chain ≠ "")
    (hnone : reviewerThreadExists s.threads thread.chain (some thread.id) = false)
    {backend : String} (hin : backend ∈ backendsTried s.finishes thread.chain) :
    backend ∈ triedAt thread := by
  obtain ⟨f, hf, hp⟩ := List.mem_flatMap.mp hin
  obtain ⟨p, hkept, rfl⟩ := List.mem_map.mp hp
  obtain ⟨hp, hchain⟩ := List.mem_filter.mp hkept
  obtain ⟨t, ht, hreviewOf, htried⟩ := h.tried f hf p hp
  rw [of_decide_eq_true hchain] at hreviewOf
  have hsame : t.id = thread.id := by
    by_contra hother
    rw [reviewerThreadExists, List.any_eq_false] at hnone
    exact hnone t ht (by simp [hreviewOf, hother])
  obtain rfl : t = thread := List.inj_on_of_nodup_map h.ids ht hmem hsame
  rw [triedAt, (chain_of_reviewOf hreviewOf hne).2]
  exact htried

/-- The threads of a session when one of them ended. -/
def endedThreads (s : ReviewState) (id : String) (status : ThreadStatus) : List ThreadMetadata :=
  s.threads.map fun t => if t.id = id then { t with status } else t

theorem mem_endedThreads {id : String} {status : ThreadStatus} {t : ThreadMetadata}
    (h : t ∈ s.threads) : ∃ t' ∈ s.endedThreads id status, t'.id = t.id ∧
      t'.reviewOf = t.reviewOf ∧ t'.triedBackends = t.triedBackends := by
  refine ⟨_, List.mem_map_of_mem h, ?_⟩
  split <;> exact ⟨rfl, rfl, rfl⟩

theorem map_id_endedThreads (s : ReviewState) (id : String) (status : ThreadStatus) :
    (s.endedThreads id status).map ThreadMetadata.id = s.threads.map ThreadMetadata.id := by
  unfold endedThreads
  rw [List.map_map]
  refine List.map_congr_left fun t _ => ?_
  show (if t.id = id then { t with status } else t).id = t.id
  split <;> rfl

theorem answered_concat {finishes : List FinishRecord} {f : FinishRecord}
    (h : ∀ before g after, finishes = before ++ g :: after → g.Answered before)
    (hf : f.Answered finishes) :
    ∀ before g after, finishes ++ [f] = before ++ g :: after → g.Answered before := by
  intro before g after heq
  rcases List.eq_nil_or_concat' after with rfl | ⟨after, x, rfl⟩
  · obtain ⟨rfl, hsame⟩ := List.append_inj' heq rfl
    cases hsame
    exact hf
  · rw [← List.cons_append, ← List.append_assoc] at heq
    exact h before g after (List.append_inj' heq rfl).1

theorem Inv.ids_concat (h : Inv s) {threads : List ThreadMetadata}
    (hthreads : threads.map ThreadMetadata.id = s.threads.map ThreadMetadata.id)
    (hfresh : s.IsFresh thread.id) : ((threads ++ [thread]).map ThreadMetadata.id).Nodup := by
  rw [List.map_append, List.map_singleton, hthreads, ← List.concat_eq_append, List.nodup_concat]
  refine ⟨fun hin => ?_, h.ids⟩
  obtain ⟨t, ht, hid⟩ := List.mem_map.mp hin
  exact hfresh.2 t ht hid

theorem Inv.delegate (h : Inv s) (hfresh : s.IsFresh thread.id) :
    Inv { s with threads := s.threads ++ [thread], runs := s.runs ++ [thread.id] } := by
  refine ⟨h.ids_concat rfl hfresh, fun t ht => ?_, fun f hf p hp => ?_, h.told.1,
    fun f hf => ?_⟩
  · rcases List.mem_append.mp ht with ht | ht
    · exact h.nonempty t ht
    · exact List.mem_singleton.mp ht ▸ hfresh.1
  · obtain ⟨t, ht, hrest⟩ := h.tried f hf p hp
    exact ⟨t, List.mem_append_left _ ht, hrest⟩
  · rcases h.told.2 f hf with ⟨t, ht, hruns, hrest⟩ | htold
    · exact .inl ⟨t, List.mem_append_left _ ht, List.mem_append_left _ hruns, hrest⟩
    · exact .inr htold

/-- A chain whose reviewer runs, or that the master was told of, stays so when a thread
of another chain ends. -/
theorem Inv.told_of_ne (h : Inv s) (hmem : thread ∈ s.threads) {f : FinishRecord}
    (hf : f ∈ s.finishes) (hne : f.thread.chain ≠ thread.chain) (status : ThreadStatus) :
    (∃ t ∈ s.endedThreads thread.id status, t.id ∈ s.runs.erase thread.id ∧
      hasText t.reviewOf = true ∧ t.chain = f.thread.chain) ∨
    ∃ g ∈ s.finishes, g.thread.chain = f.thread.chain ∧ g.effects.triggered ≠ [] := by
  rcases h.told.2 f hf with ⟨t, ht, hruns, htext, hchain⟩ | htold
  · obtain ⟨t', ht', hid, hreviewOf, -⟩ := @mem_endedThreads _ thread.id status _ ht
    refine .inl ⟨t', ht', ?_, hreviewOf ▸ htext, ?_⟩
    · rw [hid]
      refine (List.mem_erase_of_ne fun hsame => hne ?_).mpr hruns
      rw [List.inj_on_of_nodup_map h.ids ht hmem hsame] at hchain
      exact hchain.symm
    · rw [ThreadMetadata.chain, hid, hreviewOf]
      exact hchain
  · exact .inr htold

/-- **The end of a thread keeps the invariant**, where no chain goes wrong. -/
theorem Inv.finish (h : Inv s) {id : String} (hfind : s.find id = some thread)
    (hfresh : ∀ fresh ∈ read.reviewThread.toOption, s.IsFresh fresh)
    (hmeets : s.Meets (.finish id outcome summary read)) :
    Inv (s.finish thread outcome summary read) := by
  have hmem := (find_some hfind).1
  rcases h.effects_cases hfind hmeets with
    ⟨r, request, hspawned, htriggered, hcreated, hreviewOf, hne, hid, hnot, hin, hnone⟩
      | ⟨hspawned, htriggered, hcreated⟩
  · obtain ⟨hrchain, hrtext⟩ := chain_of_reviewOf hreviewOf hne
    have hrfresh := hfresh r.id hid
    have hfinish : s.finish thread outcome summary read =
        { threads := s.endedThreads thread.id (finishedStatus outcome summary.cancelled) ++ [r]
          runs := s.runs.erase thread.id ++ [r.id]
          finishes := s.finishes ++ [⟨thread, resultSummary thread outcome summary read,
            s.effectsOf thread outcome summary read⟩] } := by
      unfold ReviewState.finish endedThreads
      simp only [hspawned, hcreated, Option.toList_none, List.append_nil, List.map_cons,
        List.map_nil]
    rw [hfinish]
    refine ⟨h.ids_concat (map_id_endedThreads s _ _) hrfresh, fun t ht => ?_, fun f hf p hp => ?_,
      answered_concat h.told.1 ?_, fun f hf => ?_⟩
    · rcases List.mem_append.mp ht with ht | ht
      · obtain ⟨t', ht', rfl⟩ := List.mem_map.mp ht
        split <;> exact h.nonempty t' ht'
      · exact List.mem_singleton.mp ht ▸ hrfresh.1
    · rcases List.mem_append.mp hf with hf | hf
      · obtain ⟨t, ht, hreview, htried⟩ := h.tried f hf p hp
        obtain ⟨t', ht', -, hreview', htried'⟩ := mem_endedThreads ht
        exact ⟨t', List.mem_append_left _ ht', hreview'.trans hreview, htried' ▸ htried⟩
      · rw [List.mem_singleton.mp hf, hspawned] at hp
        rw [List.mem_singleton.mp hp]
        exact ⟨r, List.mem_append_right _ (List.mem_singleton_self r), hrchain ▸ hreviewOf, hin⟩
    · exact .inl ⟨r, request, hspawned, htriggered, hrchain,
        fun htried => hnot (h.mem_triedAt hmem hne hnone htried)⟩
    · by_cases hchain : f.thread.chain = thread.chain
      · exact .inl ⟨r, List.mem_append_right _ (List.mem_singleton_self r),
          List.mem_append_right _ (List.mem_singleton_self _), hrtext, hrchain.trans hchain.symm⟩
      · rcases List.mem_append.mp hf with hf | hf
        · rcases h.told_of_ne hmem hf hchain (finishedStatus outcome summary.cancelled) with
            ⟨t, ht, hruns, hrest⟩ | ⟨g, hg, hrest⟩
          · exact .inl ⟨t, List.mem_append_left _ ht, List.mem_append_left _ hruns, hrest⟩
          · exact .inr ⟨g, List.mem_append_left _ hg, hrest⟩
        · rw [List.mem_singleton.mp hf] at hchain
          exact absurd rfl hchain
  · have hfinish : s.finish thread outcome summary read =
        { threads := s.endedThreads thread.id (finishedStatus outcome summary.cancelled)
          runs := s.runs.erase thread.id
          finishes := s.finishes ++ [⟨thread, resultSummary thread outcome summary read,
            s.effectsOf thread outcome summary read⟩] } := by
      unfold ReviewState.finish endedThreads
      simp only [hspawned, hcreated, Option.toList_none, List.append_nil, List.map_nil]
    rw [hfinish]
    refine ⟨?_, fun t ht => ?_, fun f hf p hp => ?_, answered_concat h.told.1 ?_, fun f hf => ?_⟩
    · rw [map_id_endedThreads]
      exact h.ids
    · obtain ⟨t', ht', rfl⟩ := List.mem_map.mp ht
      split <;> exact h.nonempty t' ht'
    · rcases List.mem_append.mp hf with hf | hf
      · obtain ⟨t, ht, hreview, htried⟩ := h.tried f hf p hp
        obtain ⟨t', ht', -, hreview', htried'⟩ := mem_endedThreads ht
        exact ⟨t', ht', hreview'.trans hreview, htried' ▸ htried⟩
      · rw [List.mem_singleton.mp hf, hspawned] at hp
        exact absurd hp List.not_mem_nil
    · exact .inr ⟨hspawned, htriggered⟩
    · have hlast : (⟨thread, resultSummary thread outcome summary read,
          s.effectsOf thread outcome summary read⟩ : FinishRecord).effects.triggered ≠ [] := by
        rw [htriggered]
        exact List.cons_ne_nil _ _
      by_cases hchain : f.thread.chain = thread.chain
      · exact .inr ⟨_, List.mem_append_right _ (List.mem_singleton_self _), hchain.symm, hlast⟩
      · rcases List.mem_append.mp hf with hf | hf
        · rcases h.told_of_ne hmem hf hchain (finishedStatus outcome summary.cancelled) with
            hruns | ⟨g, hg, hrest⟩
          · exact .inl hruns
          · exact .inr ⟨g, List.mem_append_left _ hg, hrest⟩
        · rw [List.mem_singleton.mp hf] at hchain
          exact absurd rfl hchain

/-- **A step keeps the invariant**, where no chain goes wrong. -/
theorem Inv.step (h : Inv s) {a : ReviewAction} (hmeets : s.Meets a)
    (hstep : s.step a = some s') : Inv s' := by
  cases a with
  | delegate thread =>
    simp only [ReviewState.step] at hstep
    split at hstep
    · next hboth =>
      cases hstep
      exact h.delegate hboth.1
    · cases hstep
  | finish id outcome summary read =>
    simp only [ReviewState.step] at hstep
    split at hstep
    · cases hstep
    · next thread hfind =>
      split at hstep
      · next hboth =>
        cases hstep
        exact h.finish hfind hboth.2 hmeets
      · cases hstep

/-- **No chain is swallowed.** Along every run in which each thread ends where its chain
does not go wrong, every thread that ended led to one reviewer on a backend
that was not tried before, or to one call that tells the master its result;
and of its chain a reviewer runs, or the master was told. -/
theorem told_of_run {as : List ReviewAction} (hmeets : system.Guarded Meets {} as)
    (hrun : system.run {} as = some s) : s.Told :=
  (system.run_invariant_of_guarded (fun _ _ _ h hmeets hstep => Inv.step h hmeets hstep) inv_empty
    hmeets hrun).told

/-- **A thread that ends is answered once exactly where its chain does not go wrong**,
as long as nothing raises. -/
theorem answered_once_iff {id : String} (hfind : s.find id = some thread)
    (hreads : ∀ originalThread ∈ s.reviewTarget thread outcome.exitCode read,
      ReadsSucceed originalThread read) :
    (s.effectsOf thread outcome summary read).spawned.length
        + (s.effectsOf thread outcome summary read).triggered.length = 1
      ↔ s.Meets (.finish id outcome summary read) := by
  have hmeets : s.Meets (.finish id outcome summary read) ↔
      (s.reviewTarget thread outcome.exitCode read = none → read.masterWoke = false) ∧
      ∀ originalThread ∈ s.reviewTarget thread outcome.exitCode read,
        reviewerThreadExists s.threads originalThread.id (some thread.id) = false ∧
        ReadsSucceed originalThread read ∧
        (hasText thread.reviewOf = false ∨ read.masterWoke = true →
          Spawnable originalThread (triedAt thread) read) := by
    constructor
    · exact fun h => h thread hfind
    · intro h t ht
      rw [hfind] at ht
      cases ht
      exact h
  rw [hmeets]
  cases htarget : s.reviewTarget thread outcome.exitCode read with
  | none =>
    obtain ⟨hspawned, htriggered, -⟩ := @effectsOf_of_target_none s thread outcome summary read
      htarget
    rw [hspawned, htriggered]
    cases read.masterWoke <;> simp
  | some originalThread =>
    have hsucceed := hreads originalThread htarget
    rw [effectsOf_of_target_some htarget]
    simp only [Option.mem_def, Option.some.injEq, reduceCtorEq, false_implies, true_and,
      forall_eq']
    cases hnone : reviewerThreadExists s.threads originalThread.id (some thread.id) with
    | true =>
      have hpresent : spawnReviewWorker s.threads originalThread (triedAt thread)
          (some thread.id) read = .present := by
        rw [spawnReviewWorker, hnone, if_pos rfl]
      rw [hpresent]
      simp [SpawnAnswer.effects]
    | false =>
      by_cases hcan : Spawnable originalThread (triedAt thread) read
      · obtain ⟨r, request, hanswer, -⟩ := spawnReviewWorker_of_spawnable hnone hsucceed hcan
        rw [hanswer]
        simp [SpawnAnswer.effects, hsucceed, hcan]
      · rw [spawnReviewWorker_of_not_spawnable hnone hsucceed hcan]
        cases htext : hasText thread.reviewOf with
        | false => simp [hcan]
        | true => cases hwoke : read.masterWoke <;> simp [triggerMasterJudged, hwoke, hcan, hsucceed]

/-! ## Three chains -/

/-- Three backends, of which two are preferred for reviews. -/
def threeBackends : BackendsConfig where
  preference := ["b", "c"]
  options := [⟨"a", .codex, some "m"⟩, ⟨"b", .codex, some "m"⟩, ⟨"c", .codex, some "m"⟩]

def reviewedWorker : ThreadMetadata where
  id := "w"
  sessionId := "s"
  description := "task"
  backend := some "a"
  model := some "m"
  repoPath := some "repo"
  branchName := some "branch"
  worktreePath := some "tree"

/-- All is read, and a reviewer gets the id that is given. -/
def readAll (reviewThread : String) : ReviewRead where
  cfg := threeBackends
  currentBranch := .ok "main"
  prompt := .ok "review"
  reviewThread := .ok reviewThread

/-- A summary of a worker that was not cancelled. -/
def plainSummary : SummaryRead := ⟨false, none, "done", ""⟩

/-- The reviewer fails, and the one that replaces it is done. -/
def replacedRun : List ReviewAction :=
  [.delegate reviewedWorker,
    .finish "w" ⟨0, false, ""⟩ plainSummary (readAll "r1"),
    .finish "r1" ⟨1, false, ""⟩ plainSummary (readAll "r2"),
    .finish "r2" ⟨0, false, ""⟩ plainSummary (readAll "r3")]

def twoFailuresRun : List ReviewAction :=
  [.delegate reviewedWorker,
    .finish "w" ⟨0, false, ""⟩ plainSummary (readAll "r1"),
    .finish "r1" ⟨1, false, ""⟩ plainSummary (readAll "r2"),
    .finish "r2" ⟨1, false, ""⟩ plainSummary (readAll "r3")]

/-- The worktree of the worker is gone when it ends. -/
def lostWorktreeRun : List ReviewAction :=
  [.delegate reviewedWorker,
    .finish "w" ⟨0, false, ""⟩ plainSummary { readAll "r1" with worktreeIsDir := false }]

/-- What the threads of a run led to: the backends of the reviewers, and how often the
master was told. -/
def outline (s : ReviewState) : List String × List (List String × ℕ) :=
  (s.runs, s.finishes.map fun f =>
    (f.effects.spawned.map (·.2.resolvedBackend), f.effects.triggered.length))

instance (originalThread : ThreadMetadata) (tried : List String) (read : ReviewRead) :
    Decidable (Spawnable originalThread tried read) :=
  decidable_of_iff (tried.length ≤ read.cfg.preference.length ∧
      hasText originalThread.repoPath = true ∧ hasText originalThread.branchName = true ∧
      hasText originalThread.worktreePath = true ∧ read.worktreeIsDir = true ∧
      read.sessionFound = true ∧ ∀ worker ∈ originalThread.backend, worker ∉ tried ∨
        ∃ prefId ∈ read.cfg.preference, prefId ≠ worker ∧ prefId ∉ tried ∧
          (read.cfg.resolvePreferenceOption prefId).isOk = true)
    ⟨fun ⟨h₁, h₂, h₃, h₄, h₅, h₆, h₇⟩ => ⟨h₁, h₂, h₃, h₄, h₅, h₆, h₇⟩,
      fun ⟨h₁, h₂, h₃, h₄, h₅, h₆, h₇⟩ => ⟨h₁, h₂, h₃, h₄, h₅, h₆, h₇⟩⟩

instance (originalThread : ThreadMetadata) (read : ReviewRead) :
    Decidable (ReadsSucceed originalThread read) :=
  decidable_of_iff ((hasText originalThread.baseBranch = true ∨ read.currentBranch.isOk = true) ∧
      (read.cfg.requireThreadBackendModel originalThread).isOk = true ∧ read.prompt.isOk = true ∧
      read.reviewThread.isOk = true ∧ read.saved.isOk = true)
    ⟨fun ⟨h₁, h₂, h₃, h₄, h₅⟩ => ⟨h₁, h₂, h₃, h₄, h₅⟩, fun ⟨h₁, h₂, h₃, h₄, h₅⟩ => ⟨h₁, h₂, h₃, h₄, h₅⟩⟩

instance (s : ReviewState) (a : ReviewAction) : Decidable (s.Meets a) := by
  cases a <;> unfold Meets <;> infer_instance

/-- A worker whose worktree is there gets a reviewer. -/
theorem answered_once_iff_reviewedWorker :
    let s : ReviewState := { threads := [reviewedWorker], runs := ["w"] }
    let effects := s.effectsOf reviewedWorker ⟨0, false, ""⟩ plainSummary (readAll "r1")
    effects.spawned.length + effects.triggered.length = 1 :=
  (@answered_once_iff _ reviewedWorker _ _ _ "w" rfl (by decide +kernel)).mpr (by decide +kernel)

/-- The master is told when a reviewer that replaced another is done. -/
theorem told_of_replacedRun : ∃ s, system.run {} replacedRun = some s ∧ s.Told ∧
    s.outline = ([], [(["b"], 0), (["c"], 0), ([], 1)]) := by
  have hrun : (system.run {} replacedRun).map outline
      = some ([], [(["b"], 0), (["c"], 0), ([], 1)]) := by decide +kernel
  obtain ⟨s, hs, houtline⟩ := Option.map_eq_some_iff.mp hrun
  exact ⟨s, hs, told_of_run (TransitionSystem.guarded_of_check (by decide +kernel)) hs, houtline⟩

/-- A state in which nothing runs, and the last thread that ended led to nothing, is not
told. -/
theorem not_told_of_outline {ended : List (List String × ℕ)}
    (h : s.outline = ([], ended ++ [([], 0)])) : ¬s.Told := by
  intro htold
  have hends := congrArg Prod.snd h
  obtain ⟨before, last, hfinishes, -, hlast⟩ := List.map_eq_append_iff.mp hends
  obtain ⟨f, rest, rfl, hf, hrest⟩ := List.map_eq_cons_iff.mp hlast
  obtain ⟨hspawned, htriggered⟩ := Prod.mk.inj hf
  rcases htold.1 before f rest hfinishes with ⟨r, request, hone, -⟩ | ⟨-, hone⟩
  · rw [hone] at hspawned
    cases hspawned
  · rw [hone] at htriggered
    cases htriggered

/-- **The second reviewer that fails is swallowed**: the first one is taken for its
replacement. -/
theorem swallowed_secondReviewer : ∃ s, system.run {} twoFailuresRun = some s ∧
    s.outline = ([], [(["b"], 0), (["c"], 0), ([], 0)]) ∧ ¬s.Told := by
  have hrun : (system.run {} twoFailuresRun).map outline
      = some ([], [(["b"], 0), (["c"], 0), ([], 0)]) := by decide +kernel
  obtain ⟨s, hs, houtline⟩ := Option.map_eq_some_iff.mp hrun
  exact ⟨s, hs, houtline, @not_told_of_outline s [(["b"], 0), (["c"], 0)] houtline⟩

/-- **A worker is swallowed whose reviewer cannot be started.** -/
theorem swallowed_worker : ∃ s, system.run {} lostWorktreeRun = some s ∧
    s.outline = ([], [([], 0)]) ∧ ¬s.Told := by
  have hrun : (system.run {} lostWorktreeRun).map outline = some ([], [([], 0)]) := by
    decide +kernel
  obtain ⟨s, hs, houtline⟩ := Option.map_eq_some_iff.mp hrun
  exact ⟨s, hs, houtline, @not_told_of_outline s [] houtline⟩

end ReviewState
