import CharlieBot.FinalizeEffects
import CharlieBot.TurnVerdict

/-!
# What a boot does to the workers it finds

When the server boots it reads, of every worker of the boot before, what its
run left on the disk (`Runs.resolveRun`), and starts at most one recovery task:
the worker is spawned again, or its log is followed, or what is left of the log
is drained; in the end the thread gets its final status. The task may fail at
any point, and then asks once more whether the process is alive.

**A worker is not declared dead on missing evidence** (`recovery_of_run`): the
thread is failed, its process killed or a second one started only if the run's
death is proven, or it never had a process, or its output is at an end – the log
holds a result, or the error of an exhausted quota. That a result is enough is
the design of the table: a run that told its result is drained, be its process
alive or not (`failed_alive`). And a run whose result is on the disk, or
whose death is proven, gets its final status in this boot.

The processes that hold the log of a drained run are killed too. That is
decided by the process not being found alive, which it is not where its
identity is incomplete; nothing is said of them here.
-/

namespace WorkerRecovery

open Runs

/-! ## The state of a thread -/

/-- The liveness probe a recovery task is started with. -/
inductive Probe where
  /-- `lambda: False`: the log is drained. -/
  | drained
  /-- `lambda: True`: death cannot be proven. -/
  | unprovable
  /-- `run_alive_probe`. -/
  | identity
  deriving DecidableEq

inductive RecoveryPhase where
  /-- The boot has not come to it. -/
  | pending
  /-- The thread was terminal; only its effects are completed. -/
  | effects
  /-- Its run is left as it is, and reported. -/
  | reported
  /-- It was spawned again. -/
  | respawned
  /-- `resume_worker`, before it has read the thread. -/
  | mounted (probe : Probe) (reason : String)
  | following (probe : Probe) (reason : String)
  /-- The log is at its end; the last events are told. -/
  | closing (probe : Probe) (reason : String) (exitCode : ℤ)
  /-- In the `finally`, with an outcome. -/
  | judged (probe : Probe) (reason : String) (outcome : WorkerRunOutcome)
  /-- `_finalize_worker_safely`. -/
  | finalizing (outcome : WorkerRunOutcome)
  | finalized
  /-- The finalize was skipped: the process may be alive. -/
  | left
  /-- The thread could not be read. -/
  | lost
  /-- The finalize raised before it wrote the status. -/
  | unwritten

/-- What is done to a thread that a run could not take back. -/
inductive Deed where
  /-- `FAILED` is written. -/
  | failed
  /-- The recorded process is killed. -/
  | killed (pid : ℕ)
  /-- A process that holds the log is killed. -/
  | killedHolder (pid : ℕ)
  | secondProcess
  deriving DecidableEq

/-- What there is to be known of a run. -/
structure Evidence where
  /-- All of its identity is known, and no such process is there. -/
  provenDead : Bool
  /-- It has neither a process id nor a log. -/
  neverSpawned : Bool
  /-- Its log holds a result. -/
  resultOnDisk : Bool
  /-- Its log holds the error of an exhausted quota. -/
  quotaOnDisk : Bool
  deriving DecidableEq

/-- **A thread, its run, and its recovery.** -/
structure Recovery where
  status : ThreadStatus
  pid : Option ℕ
  pidStart : Option String
  startedAt : Option ℤ
  /-- `None` where the backend is unset or unknown. -/
  backendType : Option BackendType
  raw : Option RawLog
  host : Host
  phase : RecoveryPhase := .pending
  /-- How many recovery tasks were started. -/
  tasks : ℕ := 0
  /-- What was done, with what could be known at the time. -/
  deeds : List (Deed × Evidence) := []
  /-- The boot found a result or a proven death, and no final status. -/
  owed : Bool := false

inductive RecoveryAction where
  /-- `_reconcile_one`: whether `_maybe_respawn` does, and which processes
  hold the log. -/
  | reconcile (now : ℤ) (respawns : Bool) (holders : List ℕ)
  /-- `get_thread`. -/
  | threadRead (found : Bool)
  /-- `tail_follow_events` ends, after a result or because the process is
  gone. -/
  | loopEnds (timedOut : Bool)
  | emitted
  /-- An event of the log is the error of an exhausted quota. -/
  | quota
  /-- The task raises or is cancelled. -/
  | raises (error : String)
  | gate
  /-- The status is written, where a verifier's report may be amiss. -/
  | finalize (trailerError : Option String)
  | finalizeRaises
  | grow (events : List Event) (mtime : ℤ)
  /-- Processes come and go. -/
  | hostChanges (host : Host)
  /-- The user cancels the thread. -/
  | cancel

/-- The recovery task's own steps. -/
def RecoveryAction.isTask : RecoveryAction → Bool
  | .threadRead _ | .loopEnds _ | .emitted | .quota | .raises _ | .gate | .finalize _
  | .finalizeRaises => true
  | _ => false

/-- `_WorkerRunOutcome.failed`. -/
def failed (outcome : WorkerRunOutcome) : Bool := outcome.exitCode ≠ 0 && !outcome.quotaExhausted

/-- A failure that says nothing more takes the reason the run was resolved
with. -/
def backfill (outcome : WorkerRunOutcome) (reason : String) : WorkerRunOutcome :=
  if failed outcome ∧ outcome.error = "" ∧ reason ≠ "" then { outcome with error := reason }
  else outcome

@[simp] theorem failed_backfill (outcome : WorkerRunOutcome) (reason : String) :
    failed (backfill outcome reason) = failed outcome := by
  unfold backfill
  split <;> rfl

/-- The outcome of a run whose verifier's report may be amiss. -/
def judgeTrailer (outcome : WorkerRunOutcome) : Option String → WorkerRunOutcome
  | none => outcome
  | some error =>
    if outcome.quotaExhausted then outcome
    else { outcome with
      exitCode := -1
      error := if outcome.error = "" then error else outcome.error ++ "; " ++ error }

def quotaErrorPatterns : List String :=
  ["quota exceeded", "rate limit", "resource_exhausted", "429", "quota"]

/-- The events `_process_event` raises `QuotaExhaustedException` for, when no
relay watches. -/
def raisesQuota (event : Event) : Bool :=
  let text (key : String) := (event.getD key (.str "")).toText.toLower.toList
  event.hasType "rate_limit_event"
      && ((event.getD "rate_limit_info" (.obj [])).asDict.any fun info =>
        (info.get "status").isText "rejected")
    || event.hasType ET.error
      && quotaErrorPatterns.any fun p =>
        Text.contains p.toList (text "message") || Text.contains p.toList (text "content")

namespace Recovery

variable (s : Recovery)

def events : List Event := (s.raw.map RawLog.events).getD []

def evidence : Evidence where
  provenDead := (missingLivenessFields s.pid s.pidStart s.startedAt).isEmpty
    && !isRunAlive s.host s.pid s.pidStart s.startedAt
  neverSpawned := s.raw.isNone && s.pid.isNone
  resultOnDisk := (summarizeResult s.events).isSome
  quotaOnDisk := s.events.any raisesQuota

/-- A deed, with what can be known now. -/
def record (d : Deed) : Recovery := { s with deeds := s.deeds ++ [(d, s.evidence)] }

/-- `resolve_run`; a backend that is not known is covered. -/
def resolve (now : ℤ) : RunResolution :=
  resolveRun s.raw s.pid s.pidStart s.startedAt (s.backendType.getD .ccClaude) s.host now

def livenessProbe : Probe :=
  if (missingLivenessFields s.pid s.pidStart s.startedAt).isEmpty then .identity else .unprovable

def isAlive : Probe → Bool
  | .drained => false
  | .unprovable => true
  | .identity => isRunAlive s.host s.pid s.pidStart s.startedAt

/-- The two ends of `tail_follow_events`: no growth after a result, or the
process gone. -/
def loopEnds (probe : Probe) (timedOut : Bool) : Bool :=
  if timedOut then s.evidence.resultOnDisk else !s.isAlive probe

/-- The recorded process is killed, where the probe says that it is alive. -/
def killIfAlive (probe : Probe) : Recovery :=
  match s.pid with
  | none => s
  | some pid => if s.isAlive probe then s.record (.killed pid) else s

/-- A recovery task is started. -/
def mount (probe : Probe) (reason : String) : Recovery :=
  { s with phase := .mounted probe reason, tasks := s.tasks + 1 }

/-- `leftover_holders`, and their end. -/
def killHolders (resolution : RunResolution) (holders : List ℕ) : Recovery :=
  if isRunAlive s.host s.pid s.pidStart s.startedAt
      || (resolution.outcome != .completed && resolution.reason != diedWithoutResultReason) then s
  else (holders.filter fun h => some h ≠ s.pid && h ≠ 0 && h ≠ 1).foldl
    (fun s h => s.record (.killedHolder h)) s

/-- `_reconcile_one`. -/
def reconcile (now : ℤ) (respawns : Bool) (holders : List ℕ) : Recovery :=
  if s.status.isTerminal then { s with phase := .effects }
  else
    let s := { s with owed := s.evidence.resultOnDisk || s.evidence.provenDead }
    let resolution := s.resolve now
    match resolution.outcome with
    | .neverStarted =>
      if respawns then
        { s.record .secondProcess with phase := .respawned, tasks := s.tasks + 1 }
      else s.mount .drained ""
    | .running =>
      if resolution.reason = uncoveredAliveReason ∨ resolution.reason = rawMissingAliveReason then
        { s with phase := .reported }
      else s.mount s.livenessProbe ""
    | .stalled => s.mount s.livenessProbe ""
    | .completed => (s.mount .drained resolution.reason).killHolders resolution holders
    | .died => (s.mount .drained resolution.reason).killHolders resolution holders

/-- `resume_worker`'s `finally`, up to the finalize. -/
def gate (probe : Probe) (reason : String) (outcome : WorkerRunOutcome) : Recovery :=
  let outcome := backfill outcome reason
  if failed outcome && s.isAlive probe then { s with phase := .left }
  else { s with phase := .finalizing outcome }

/-- `_finalize_worker`: the status. -/
def finalize (outcome : WorkerRunOutcome) (trailerError : Option String) : Recovery :=
  let outcome := judgeTrailer outcome trailerError
  if s.status = .cancelled then { s with phase := .finalized }
  else if outcome.quotaExhausted = false ∧ outcome.error = "" ∧ outcome.exitCode = 0 then
    { s with status := .completed, phase := .finalized }
  else { s.record .failed with status := .failed, phase := .finalized }

def step : RecoveryAction → Option Recovery
  | .reconcile now respawns holders =>
    match s.phase with
    | .pending => some (s.reconcile now respawns holders)
    | _ => none
  | .threadRead found =>
    match s.phase with
    | .mounted probe reason =>
      some { s with phase := if found then .following probe reason else .lost }
    | _ => none
  | .loopEnds timedOut =>
    match s.phase with
    | .following probe reason =>
      if s.loopEnds probe timedOut then
        some { s.killIfAlive probe with phase := .closing probe reason (TurnVerdict.scanExitCode s.events) }
      else none
    | _ => none
  | .emitted =>
    match s.phase with
    | .closing probe reason exitCode =>
      some { s with phase := .judged probe reason ⟨exitCode, false, ""⟩ }
    | _ => none
  | .quota =>
    match s.phase with
    | .following probe reason =>
      if s.evidence.quotaOnDisk then
        some { s.killIfAlive probe with phase := .judged probe reason ⟨-1, true, ""⟩ }
      else none
    | _ => none
  | .raises error =>
    match s.phase with
    | .following probe reason | .closing probe reason _ =>
      some { s with phase := .judged probe reason ⟨-1, false, error⟩ }
    | _ => none
  | .gate =>
    match s.phase with
    | .judged probe reason outcome => some (s.gate probe reason outcome)
    | _ => none
  | .finalize trailerError =>
    match s.phase with
    | .finalizing outcome => some (s.finalize outcome trailerError)
    | _ => none
  | .finalizeRaises =>
    match s.phase with
    | .finalizing _ => some { s with phase := .unwritten }
    | _ => none
  | .grow events mtime =>
    s.raw.map fun log => { s with raw := some ⟨log.events ++ events, mtime⟩ }
  | .hostChanges host =>
    -- A process that is gone does not come back: a later one starts later.
    if host.bootTime = s.host.bootTime
        ∧ (isRunAlive host s.pid s.pidStart s.startedAt →
          isRunAlive s.host s.pid s.pidStart s.startedAt) then
      some { s with host := host }
    else none
  | .cancel => if s.status.isTerminal then none else some { s with status := .cancelled }

def system : TransitionSystem Recovery RecoveryAction := ⟨step⟩

end Recovery

/-! ## What a deed needs -/

/-- The evidence is enough: the run is proven dead, or was never spawned, or
its output is at an end. -/
def Evidence.Suffices (e : Evidence) : Prop :=
  e.provenDead ∨ e.neverSpawned ∨ e.resultOnDisk ∨ e.quotaOnDisk

/-- What a deed needs. Of the processes that hold the log nothing is said. -/
def Deed.Justified (e : Evidence) : Deed → Prop
  | .failed => e.Suffices
  | .killed _ => e.Suffices
  | .secondProcess => e.neverSpawned
  | .killedHolder _ => True

/-- The task drains the log, or is past it. -/
def RecoveryPhase.drains : RecoveryPhase → Prop
  | .mounted probe _ | .following probe _ | .closing probe _ _ | .judged probe _ _ =>
    probe = .drained
  | .finalizing _ | .finalized | .lost | .unwritten => True
  | _ => False

/-- How many steps a task has left at most. -/
def RecoveryPhase.rank : RecoveryPhase → ℕ
  | .mounted _ _ => 5
  | .following _ _ => 4
  | .closing _ _ _ => 3
  | .judged _ _ _ => 2
  | .finalizing _ => 1
  | _ => 0

namespace Recovery

/-- Evidence is only added to. -/
structure Extends (s s' : Recovery) : Prop where
  missing : missingLivenessFields s'.pid s'.pidStart s'.startedAt
    = missingLivenessFields s.pid s.pidStart s.startedAt
  provenDead : s.evidence.provenDead → s'.evidence.provenDead
  neverSpawned : s.evidence.neverSpawned → s'.evidence.neverSpawned
  resultOnDisk : s.evidence.resultOnDisk → s'.evidence.resultOnDisk
  quotaOnDisk : s.evidence.quotaOnDisk → s'.evidence.quotaOnDisk

variable {s s' : Recovery}

theorem Extends.suffices (h : s.Extends s') (hs : s.evidence.Suffices) :
    s'.evidence.Suffices :=
  hs.imp h.provenDead (Or.imp h.neverSpawned (Or.imp h.resultOnDisk h.quotaOnDisk))

/-- What a probe that a task was started with vouches for. -/
def ProbeOk (s : Recovery) : Probe → Prop
  | .drained => s.evidence.provenDead ∨ s.evidence.neverSpawned ∨ s.evidence.resultOnDisk
  | .unprovable => True
  | .identity => missingLivenessFields s.pid s.pidStart s.startedAt = []

def PhaseOk (s : Recovery) : RecoveryPhase → Prop
  | .mounted probe _ | .following probe _ => s.ProbeOk probe
  | .closing probe _ exitCode => s.ProbeOk probe ∧ (exitCode = 0 → s.evidence.resultOnDisk)
  | .judged probe _ outcome => s.ProbeOk probe
      ∧ (failed outcome = false → s.evidence.resultOnDisk ∨ s.evidence.quotaOnDisk)
  | .finalizing _ => s.evidence.Suffices
  | .finalized => s.status.isTerminal
  | _ => True

theorem Extends.probeOk (h : s.Extends s') {probe : Probe} (hp : s.ProbeOk probe) :
    s'.ProbeOk probe := by
  cases probe with
  | drained => exact hp.imp h.provenDead (Or.imp h.neverSpawned h.resultOnDisk)
  | unprovable => trivial
  | identity => exact h.missing.trans hp

theorem Extends.phaseOk (h : s.Extends s') (hstatus : s.status.isTerminal → s'.status.isTerminal)
    {phase : RecoveryPhase} (hp : s.PhaseOk phase) : s'.PhaseOk phase := by
  cases phase with
  | mounted probe reason | following probe reason => exact h.probeOk hp
  | closing probe reason exitCode => exact ⟨h.probeOk hp.1, fun h0 => h.resultOnDisk (hp.2 h0)⟩
  | judged probe reason outcome =>
    exact ⟨h.probeOk hp.1, fun hf => (hp.2 hf).imp h.resultOnDisk h.quotaOnDisk⟩
  | finalizing outcome => exact h.suffices hp
  | finalized => exact hstatus hp
  | pending | effects | reported | respawned | left | lost | unwritten => trivial

/-- **The invariant of a recovery.** -/
structure Inv (s : Recovery) : Prop where
  deeds : ∀ d ∈ s.deeds, d.1.Justified d.2
  phase : s.PhaseOk s.phase
  tasks : s.tasks ≤ 1
  pending : s.phase = .pending → s.tasks = 0 ∧ s.owed = false
  owed : s.owed → s.tasks = 1 ∧ s.phase.drains

/-! ## The table -/

theorem isSome_summarizeResult_append {es fs : List Event}
    (h : (summarizeResult es).isSome) : (summarizeResult (es ++ fs)).isSome := by
  induction fs using List.reverseRecOn with
  | nil => rwa [List.append_nil]
  | append_singleton fs f ih =>
    rw [← List.append_assoc, summarizeResult, List.foldl_append]
    show (if f.hasType ET.result then some f
      else summarizeResult (es ++ fs)).isSome = true
    split
    · rfl
    · exact ih

theorem result_of_completed {now : ℤ} (h : (s.resolve now).outcome = .completed) :
    s.evidence.resultOnDisk := by
  cases hraw : s.raw with
  | none =>
    simp only [resolve, resolveRun, hraw] at h
    split_ifs at h
  | some log =>
    show (summarizeResult s.events).isSome = true
    have hevents : s.events = log.events := by rw [events, hraw]; rfl
    rw [hevents]
    by_contra hnone
    simp only [resolve, resolveRun, hraw, Option.bind_some, if_neg hnone] at h
    split_ifs at h

theorem provenDead_iff : s.evidence.provenDead = true
    ↔ missingLivenessFields s.pid s.pidStart s.startedAt = []
      ∧ isRunAlive s.host s.pid s.pidStart s.startedAt = false := by
  rw [evidence, Bool.and_eq_true, List.isEmpty_iff, Bool.not_eq_true']

theorem died_of_provenDead (now : ℤ) (h : s.evidence.provenDead)
    (hresult : s.evidence.resultOnDisk = false) : (s.resolve now).outcome = .died := by
  obtain ⟨hmissing, hdead⟩ := provenDead_iff.mp h
  have hpid : s.pid.isNone = false := by
    cases hp : s.pid with
    | none => rw [hp] at hmissing; simp [missingLivenessFields] at hmissing
    | some pid => rfl
  have hnone : (s.raw.bind fun log => summarizeResult log.events) = none := by
    cases hraw : s.raw with
    | none => rfl
    | some log =>
      rw [evidence, events, hraw] at hresult
      exact Option.isNone_iff_eq_none.mp (by simpa using hresult)
  unfold resolve resolveRun
  simp only [hpid, Bool.and_false, Bool.false_eq_true, if_false, hmissing, hdead, hnone,
    List.isEmpty_nil, Bool.not_true, Bool.or_false, Option.isNone_none, Bool.and_true]
  split
  · rfl
  · split
    · rfl
    · simp

/-- **A run that left a result or is proven dead is drained.** -/
theorem drained_of_owed (now : ℤ) (h : s.evidence.resultOnDisk ∨ s.evidence.provenDead) :
    (s.resolve now).outcome = .completed ∨ (s.resolve now).outcome = .died := by
  cases hresult : s.evidence.resultOnDisk with
  | true =>
    refine .inl ?_
    cases hraw : s.raw with
    | none =>
      rw [evidence, events, hraw] at hresult
      cases hresult
    | some log =>
      rw [evidence, events, hraw] at hresult
      rw [resolve, hraw]
      exact completed_of_result hresult
  | false =>
    refine .inr (died_of_provenDead now (h.resolve_left ?_) hresult)
    rw [hresult]
    decide

/-! ## The steps -/

theorem Extends.of_eq (hmissing : missingLivenessFields s'.pid s'.pidStart s'.startedAt
      = missingLivenessFields s.pid s.pidStart s.startedAt)
    (he : s'.evidence = s.evidence) : s.Extends s' := by
  refine ⟨hmissing, ?_, ?_, ?_, ?_⟩ <;> rw [he] <;> exact id

theorem Inv.setPhase (h : s.Inv) {phase : RecoveryPhase} (hok : s.PhaseOk phase)
    (hpending : phase ≠ .pending) (howed : s.owed → phase.drains) :
    Inv { s with phase := phase } where
  deeds := h.deeds
  phase := Extends.phaseOk (s := s) (Extends.of_eq rfl rfl) id hok
  tasks := h.tasks
  pending hp := absurd hp hpending
  owed ho := ⟨(h.owed ho).1, howed ho⟩

theorem Inv.record (h : s.Inv) {d : Deed} (hd : d.Justified s.evidence) :
    Inv (s.record d) where
  deeds d' hd' := by
    rcases List.mem_append.mp hd' with hd' | hd'
    · exact h.deeds d' hd'
    · rw [List.mem_singleton.mp hd']
      exact hd
  phase := Extends.phaseOk (s := s) (Extends.of_eq rfl rfl) id h.phase
  tasks := h.tasks
  pending := h.pending
  owed := h.owed

theorem killIfAlive_cases (s : Recovery) (probe : Probe) :
    s.killIfAlive probe = s
      ∨ ∃ pid, s.isAlive probe = true ∧ s.killIfAlive probe = s.record (.killed pid) := by
  unfold killIfAlive
  split
  · exact .inl rfl
  next pid _ =>
    by_cases halive : s.isAlive probe = true
    · exact .inr ⟨pid, halive, if_pos halive⟩
    · exact .inl (if_neg halive)

/-- **The log is at its end, or the quota**: the process may be killed. -/
theorem Inv.kill (h : s.Inv) {probe : Probe} {phase : RecoveryPhase}
    (hkill : s.isAlive probe = true → s.evidence.Suffices) (hok : s.PhaseOk phase)
    (hpending : phase ≠ .pending) (howed : s.owed → phase.drains) :
    Inv { s.killIfAlive probe with phase := phase } := by
  rcases s.killIfAlive_cases probe with heq | ⟨pid, halive, heq⟩
  · rw [heq]
    exact h.setPhase hok hpending howed
  · rw [heq]
    have hrec : Inv (s.record (.killed pid)) := h.record (hkill halive)
    exact hrec.setPhase (Extends.phaseOk (s := s) (Extends.of_eq rfl rfl) id hok) hpending howed

theorem result_of_scanExitCode (h : TurnVerdict.scanExitCode s.events = 0) :
    s.evidence.resultOnDisk := by
  show (summarizeResult s.events).isSome = true
  unfold TurnVerdict.scanExitCode at h
  split at h
  next result hresult => rw [hresult]; rfl
  next => exact absurd h (by decide)

/-- **A probe that says dead is evidence.** -/
theorem suffices_of_probe {probe : Probe} (hok : s.ProbeOk probe)
    (hdead : s.isAlive probe = false) : s.evidence.Suffices := by
  cases probe with
  | drained => exact hok.imp id (Or.imp id .inl)
  | unprovable => cases hdead
  | identity => exact .inl (provenDead_iff.mpr ⟨hok, hdead⟩)

/-- **The gate**: a thread is finalized on evidence only. -/
theorem Inv.gate (h : s.Inv) {probe : Probe} {reason : String} {outcome : WorkerRunOutcome}
    (hphase : s.phase = .judged probe reason outcome) : Inv (s.gate probe reason outcome) := by
  have hok := h.phase
  rw [hphase] at hok
  have hdrained : s.owed → probe = .drained := fun ho => by
    have hdrains := (h.owed ho).2
    rwa [hphase] at hdrains
  unfold Recovery.gate
  simp only [failed_backfill]
  by_cases hleft : (failed outcome && s.isAlive probe) = true
  · rw [if_pos hleft]
    refine h.setPhase trivial (by simp) fun ho => ?_
    rw [hdrained ho, Bool.and_eq_true] at hleft
    exact absurd hleft.2 Bool.false_ne_true
  · rw [if_neg hleft]
    refine h.setPhase ?_ (by simp) fun _ => trivial
    show s.evidence.Suffices
    cases hf : failed outcome with
    | false => exact .inr (.inr (hok.2 hf))
    | true =>
      rw [hf, Bool.true_and, Bool.not_eq_true] at hleft
      exact suffices_of_probe hok.1 hleft

/-- **The status is written on evidence only.** -/
theorem Inv.finalize (h : s.Inv) {outcome : WorkerRunOutcome}
    (hphase : s.phase = .finalizing outcome) (trailerError : Option String) :
    Inv (s.finalize outcome trailerError) := by
  have hok : s.evidence.Suffices := by
    have hok := h.phase
    rwa [hphase] at hok
  have htasks : s.owed → s.tasks = 1 := fun ho => (h.owed ho).1
  unfold Recovery.finalize
  by_cases hcancelled : s.status = .cancelled
  · rw [if_pos hcancelled]
    have hfinal : s.status.isTerminal = true := by rw [hcancelled]; rfl
    exact h.setPhase hfinal (by simp) fun _ => trivial
  · rw [if_neg hcancelled]
    split
    · exact ⟨h.deeds, rfl, h.tasks, fun hp => by simp at hp, fun ho => ⟨htasks ho, trivial⟩⟩
    · have hrec : Inv (s.record .failed) := h.record hok
      exact ⟨hrec.deeds, rfl, h.tasks, fun hp => by simp at hp, fun ho => ⟨htasks ho, trivial⟩⟩

theorem Inv.recordHolders (h : s.Inv) (holders : List ℕ) :
    Inv (holders.foldl (fun s h => s.record (.killedHolder h)) s) := by
  induction holders generalizing s with
  | nil => exact h
  | cons holder holders ih => exact ih (h.record trivial)

theorem Inv.killHolders (h : s.Inv) (resolution : RunResolution) (holders : List ℕ) :
    Inv (s.killHolders resolution holders) := by
  unfold Recovery.killHolders
  split
  · exact h
  · exact h.recordHolders _

theorem Inv.mount (h : s.Inv) (hphase : s.phase = .pending) {owed : Bool} {probe : Probe}
    {reason : String} (hok : s.ProbeOk probe) (howed : owed = true → probe = .drained) :
    Inv (Recovery.mount { s with owed } probe reason) where
  deeds := h.deeds
  phase := Extends.probeOk (s := s) (Extends.of_eq rfl rfl) hok
  tasks := by
    show s.tasks + 1 ≤ 1
    rw [(h.pending hphase).1]
  pending hp := by simp [Recovery.mount] at hp
  owed ho := ⟨by
    show s.tasks + 1 = 1
    rw [(h.pending hphase).1], howed ho⟩

theorem probeOk_livenessProbe (s : Recovery) : s.ProbeOk s.livenessProbe := by
  unfold livenessProbe
  split
  next hmissing => exact List.isEmpty_iff.mp hmissing
  next => trivial

theorem owed_of_outcome {now : ℤ} {outcome : RunOutcome}
    (houtcome : (s.resolve now).outcome = outcome) (hc : outcome ≠ .completed)
    (hd : outcome ≠ .died) : (s.evidence.resultOnDisk || s.evidence.provenDead) = false := by
  rw [Bool.eq_false_iff]
  intro howed
  rcases drained_of_owed now (by simpa using howed) with h | h
  · exact hc (houtcome.symm.trans h)
  · exact hd (houtcome.symm.trans h)

theorem Inv.reconcile (h : s.Inv) (hphase : s.phase = .pending) (now : ℤ) (respawns : Bool)
    (holders : List ℕ) : Inv (s.reconcile now respawns holders) := by
  obtain ⟨htasks, hnotowed⟩ := h.pending hphase
  unfold Recovery.reconcile
  by_cases hterminal : s.status.isTerminal = true
  · rw [if_pos hterminal]
    exact h.setPhase trivial (by simp) fun ho => by
      rw [hnotowed] at ho
      cases ho
  · rw [if_neg hterminal]
    simp only
    have hsame : ∀ owed, Recovery.resolve { s with owed } now = s.resolve now := fun _ => rfl
    rw [hsame]
    cases houtcome : (s.resolve now).outcome with
    | neverStarted =>
      have hnever : s.evidence.neverSpawned = true := by
        obtain ⟨hraw, hpid⟩ := absent_of_neverStarted houtcome
        rw [evidence, hraw, hpid]
        rfl
      have howed := owed_of_outcome houtcome (by decide) (by decide)
      simp only [howed]
      split
      · have hrec : Inv (s.record .secondProcess) := h.record hnever
        exact ⟨hrec.deeds, trivial, by show s.tasks + 1 ≤ 1; rw [htasks],
          fun hp => by simp at hp, fun ho => Bool.noConfusion ho⟩
      · exact h.mount hphase (.inr (.inl hnever)) fun ho => Bool.noConfusion ho
    | running =>
      have howed := owed_of_outcome houtcome (by decide) (by decide)
      simp only [howed]
      split
      · exact ⟨h.deeds, trivial, h.tasks, fun hp => by simp at hp, fun ho => Bool.noConfusion ho⟩
      · exact h.mount hphase s.probeOk_livenessProbe fun ho => Bool.noConfusion ho
    | stalled =>
      have howed := owed_of_outcome houtcome (by decide) (by decide)
      simp only [howed]
      exact h.mount hphase s.probeOk_livenessProbe fun ho => Bool.noConfusion ho
    | completed =>
      have hok : s.ProbeOk .drained := .inr (.inr (result_of_completed houtcome))
      exact (h.mount hphase hok fun _ => rfl).killHolders _ holders
    | died =>
      have hok : s.ProbeOk .drained := .inl (provenDead_iff.mpr (proven_of_died houtcome))
      exact (h.mount hphase hok fun _ => rfl).killHolders _ holders

theorem extends_grow {log : RawLog} (hraw : s.raw = some log) (events : List Event) (mtime : ℤ) :
    s.Extends { s with raw := some ⟨log.events ++ events, mtime⟩ } where
  missing := rfl
  provenDead := id
  neverSpawned hnever := by
    rw [evidence, hraw] at hnever
    cases hnever
  resultOnDisk hresult := by
    rw [evidence, Recovery.events, hraw] at hresult
    exact isSome_summarizeResult_append hresult
  quotaOnDisk hquota := by
    rw [evidence, Recovery.events, hraw] at hquota
    show (log.events ++ events).any raisesQuota = true
    rw [List.any_append, Bool.or_eq_true]
    exact .inl hquota

theorem extends_host {host : Host} (hgone : isRunAlive host s.pid s.pidStart s.startedAt →
    isRunAlive s.host s.pid s.pidStart s.startedAt) : s.Extends { s with host := host } where
  missing := rfl
  provenDead hdead := by
    obtain ⟨hmissing, hdead⟩ := provenDead_iff.mp hdead
    refine provenDead_iff.mpr ⟨hmissing, Bool.eq_false_iff.mpr fun halive => ?_⟩
    rw [hgone halive] at hdead
    cases hdead
  neverSpawned := id
  resultOnDisk := id
  quotaOnDisk := id

theorem Inv.environment (h : s.Inv) (hext : s.Extends s') (hdeeds : s'.deeds = s.deeds)
    (hphase : s'.phase = s.phase) (htasks : s'.tasks = s.tasks) (howed : s'.owed = s.owed)
    (hstatus : s.status.isTerminal → s'.status.isTerminal) : s'.Inv where
  deeds := by rw [hdeeds]; exact h.deeds
  phase := by rw [hphase]; exact hext.phaseOk hstatus h.phase
  tasks := by rw [htasks]; exact h.tasks
  pending := by rw [hphase, htasks, howed]; exact h.pending
  owed := by rw [hphase, htasks, howed]; exact h.owed

theorem Inv.step (h : s.Inv) {a : RecoveryAction} (hstep : s.step a = some s') : s'.Inv := by
  have hok := h.phase
  have howed := h.owed
  cases a with
  | reconcile now respawns holders =>
    simp only [Recovery.step] at hstep
    split at hstep
    next hphase =>
      cases hstep
      exact h.reconcile hphase now respawns holders
    next => cases hstep
  | threadRead found =>
    simp only [Recovery.step] at hstep
    split at hstep
    next probe reason hphase =>
      rw [hphase] at hok howed
      cases hstep
      cases found with
      | true =>
        show Inv { s with phase := .following probe reason }
        exact h.setPhase hok (by simp) fun ho => (howed ho).2
      | false =>
        show Inv { s with phase := .lost }
        exact h.setPhase trivial (by simp) fun _ => trivial
    next => cases hstep
  | loopEnds timedOut =>
    simp only [Recovery.step] at hstep
    split at hstep
    next probe reason hphase =>
      rw [hphase] at hok howed
      split at hstep
      next hends =>
        cases hstep
        refine h.kill (fun halive => ?_) ⟨hok, result_of_scanExitCode⟩ (by simp) fun ho =>
          (howed ho).2
        cases timedOut with
        | true => exact .inr (.inr (.inl hends))
        | false =>
          rw [loopEnds, halive] at hends
          exact absurd hends Bool.false_ne_true
      next => cases hstep
    next => cases hstep
  | emitted =>
    simp only [Recovery.step] at hstep
    split at hstep
    next probe reason exitCode hphase =>
      rw [hphase] at hok howed
      cases hstep
      refine h.setPhase ⟨hok.1, fun hf => .inl (hok.2 ?_)⟩ (by simp) fun ho => (howed ho).2
      simpa [failed] using hf
    next => cases hstep
  | quota =>
    simp only [Recovery.step] at hstep
    split at hstep
    next probe reason hphase =>
      rw [hphase] at hok howed
      split at hstep
      next hquota =>
        cases hstep
        exact h.kill (fun _ => .inr (.inr (.inr hquota))) ⟨hok, fun _ => .inr hquota⟩ (by simp)
          fun ho => (howed ho).2
      next => cases hstep
    next => cases hstep
  | raises error =>
    simp only [Recovery.step] at hstep
    split at hstep
    next probe reason hphase =>
      rw [hphase] at hok howed
      cases hstep
      exact h.setPhase ⟨hok, fun hf => by simp [failed] at hf⟩ (by simp) fun ho => (howed ho).2
    next probe reason exitCode hphase =>
      rw [hphase] at hok howed
      cases hstep
      exact h.setPhase ⟨hok.1, fun hf => by simp [failed] at hf⟩ (by simp) fun ho => (howed ho).2
    next => cases hstep
  | gate =>
    simp only [Recovery.step] at hstep
    split at hstep
    next probe reason outcome hphase =>
      cases hstep
      exact h.gate hphase
    next => cases hstep
  | finalize trailerError =>
    simp only [Recovery.step] at hstep
    split at hstep
    next outcome hphase =>
      cases hstep
      exact h.finalize hphase trailerError
    next => cases hstep
  | finalizeRaises =>
    simp only [Recovery.step] at hstep
    split at hstep
    next outcome hphase =>
      cases hstep
      exact h.setPhase trivial (by simp) fun _ => trivial
    next => cases hstep
  | grow events mtime =>
    obtain ⟨log, hraw, rfl⟩ := Option.map_eq_some_iff.mp hstep
    exact h.environment (extends_grow hraw events mtime) rfl rfl rfl rfl id
  | hostChanges host =>
    simp only [Recovery.step] at hstep
    split at hstep
    next hhost =>
      cases hstep
      exact h.environment (extends_host hhost.2) rfl rfl rfl rfl id
    next => cases hstep
  | cancel =>
    simp only [Recovery.step] at hstep
    split at hstep
    · cases hstep
    · cases hstep
      exact h.environment (Extends.of_eq rfl rfl) rfl rfl rfl rfl fun _ => rfl

/-! ## The recovery as a whole -/

/-- A thread as the boot finds it: any files, any host. -/
structure Fresh (s : Recovery) : Prop where
  phase : s.phase = .pending
  tasks : s.tasks = 0
  deeds : s.deeds = []
  owed : s.owed = false

theorem Fresh.inv (h : s.Fresh) : s.Inv where
  deeds d hd := by
    rw [h.deeds] at hd
    exact absurd hd List.not_mem_nil
  phase := by rw [h.phase]; trivial
  tasks := by rw [h.tasks]; exact Nat.zero_le 1
  pending _ := ⟨h.tasks, h.owed⟩
  owed ho := by
    rw [h.owed] at ho
    cases ho

theorem phase_gate (s : Recovery) (probe : Probe) (reason : String)
    (outcome : WorkerRunOutcome) : (s.gate probe reason outcome).phase = .left
      ∨ ∃ outcome', (s.gate probe reason outcome).phase = .finalizing outcome' := by
  unfold Recovery.gate
  by_cases h : (failed (backfill outcome reason) && s.isAlive probe) = true
  · rw [if_pos h]
    exact .inl rfl
  · rw [if_neg h]
    exact .inr ⟨_, rfl⟩

theorem phase_finalize (s : Recovery) (outcome : WorkerRunOutcome)
    (trailerError : Option String) : (s.finalize outcome trailerError).phase = .finalized := by
  unfold Recovery.finalize
  by_cases hcancelled : s.status = .cancelled
  · rw [if_pos hcancelled]
  · rw [if_neg hcancelled]
    split <;> rfl

theorem rank_lt_of_step {a : RecoveryAction} (ha : a.isTask = true)
    (hstep : s.step a = some s') : s'.phase.rank < s.phase.rank := by
  cases a with
  | reconcile | grow | hostChanges | cancel => cases ha
  | threadRead found =>
    simp only [Recovery.step] at hstep
    split at hstep
    next probe reason hphase =>
      cases hstep
      rw [hphase]
      cases found <;> simp [RecoveryPhase.rank]
    next => cases hstep
  | loopEnds timedOut =>
    simp only [Recovery.step] at hstep
    split at hstep
    next probe reason hphase =>
      split at hstep
      · cases hstep
        rw [hphase]
        exact Nat.lt_succ_self 3
      · cases hstep
    next => cases hstep
  | emitted =>
    simp only [Recovery.step] at hstep
    split at hstep
    next probe reason exitCode hphase =>
      cases hstep
      rw [hphase]
      exact Nat.lt_succ_self 2
    next => cases hstep
  | quota =>
    simp only [Recovery.step] at hstep
    split at hstep
    next probe reason hphase =>
      split at hstep
      · cases hstep
        rw [hphase]
        simp [RecoveryPhase.rank]
      · cases hstep
    next => cases hstep
  | raises error =>
    simp only [Recovery.step] at hstep
    split at hstep
    next probe reason hphase =>
      cases hstep
      rw [hphase]
      simp [RecoveryPhase.rank]
    next probe reason exitCode hphase =>
      cases hstep
      rw [hphase]
      exact Nat.lt_succ_self 2
    next => cases hstep
  | gate =>
    simp only [Recovery.step] at hstep
    split at hstep
    next probe reason outcome hphase =>
      cases hstep
      rw [hphase]
      rcases s.phase_gate probe reason outcome with h | ⟨outcome', h⟩
      · rw [h]
        exact Nat.zero_lt_succ 1
      · rw [h]
        exact Nat.lt_succ_self 1
    next => cases hstep
  | finalize trailerError =>
    simp only [Recovery.step] at hstep
    split at hstep
    next outcome hphase =>
      cases hstep
      rw [hphase, phase_finalize]
      exact Nat.zero_lt_succ 0
    next => cases hstep
  | finalizeRaises =>
    simp only [Recovery.step] at hstep
    split at hstep
    next outcome hphase =>
      cases hstep
      rw [hphase]
      exact Nat.zero_lt_succ 0
    next => cases hstep

/-- **A task that drains is never stuck** before it wrote the status, unless
the thread could not be read or the finalize raised. -/
theorem finalized_of_stuck (hdrains : s.phase.drains)
    (hstuck : ∀ a : RecoveryAction, a.isTask = true → s.step a = none) :
    s.phase = .finalized ∨ s.phase = .lost ∨ s.phase = .unwritten := by
  cases hphase : s.phase with
  | mounted probe reason =>
    have hnone := hstuck (.threadRead true) rfl
    simp [Recovery.step, hphase] at hnone
  | following probe reason =>
    rw [hphase] at hdrains
    have hnone := hstuck (.loopEnds false) rfl
    have hprobe : probe = .drained := hdrains
    simp [Recovery.step, hphase, hprobe, loopEnds, isAlive] at hnone
  | closing probe reason exitCode =>
    have hnone := hstuck .emitted rfl
    simp [Recovery.step, hphase] at hnone
  | judged probe reason outcome =>
    have hnone := hstuck .gate rfl
    simp [Recovery.step, hphase] at hnone
  | finalizing outcome =>
    have hnone := hstuck (.finalize none) rfl
    simp [Recovery.step, hphase] at hnone
  | finalized => exact .inl rfl
  | lost => exact .inr (.inl rfl)
  | unwritten => exact .inr (.inr rfl)
  | pending | effects | reported | respawned | left =>
    rw [hphase] at hdrains
    exact absurd hdrains id

/-- **A worker that may be alive is not declared dead.** Whatever the files of
its thread and the processes of the host, and whatever fails on the way, every
deed of a recovery is justified by what could be known when it was done, and
at most one task is started. Where the boot found a result or a proven death,
one task is started; its steps come to an end, and at their end the thread has
its final status – unless the thread could not be read, or the finalize
raised. -/
theorem recovery_of_run {as : List RecoveryAction} (hfresh : s.Fresh)
    (hrun : system.run s as = some s') :
    (∀ d ∈ s'.deeds, d.1.Justified d.2) ∧ s'.tasks ≤ 1
      ∧ (s'.owed → s'.tasks = 1
        ∧ (∀ bs t, (∀ a ∈ bs, a.isTask = true) → system.run s' bs = some t → bs.length ≤ 5)
        ∧ ((∀ a : RecoveryAction, a.isTask = true → s'.step a = none) →
          s'.status.isTerminal ∨ s'.phase = .lost ∨ s'.phase = .unwritten)) := by
  have hinv : s'.Inv := system.run_invariant (fun _ _ _ h hstep => h.step hstep)
    hfresh.inv as hrun
  refine ⟨hinv.deeds, hinv.tasks, fun howed => ⟨(hinv.owed howed).1, ?_, fun hstuck => ?_⟩⟩
  · intro bs t hbs hrun'
    have hle := TransitionSystem.length_le_of_measure
      (fun _ _ _ ha hstep => rank_lt_of_step ha hstep) hbs hrun'
    refine hle.trans ?_
    cases s'.phase <;> simp [RecoveryPhase.rank]
  · rcases finalized_of_stuck (hinv.owed howed).2 hstuck with h | h
    · have hok := hinv.phase
      rw [h] at hok
      exact .inl hok
    · exact .inr h

/-! ## Two runs -/

def oneProcess : Host := ⟨fun pid => if pid = 7 then some ("100", "S") else none, 0⟩

/-- A worker's thread, with a log of these events and this process id. -/
def worker (pid : ℕ) (events : List Event) : Recovery where
  status := .running
  pid := some pid
  pidStart := some "100"
  startedAt := some 5
  backendType := some .ccClaude
  raw := some ⟨events, 10⟩
  host := oneProcess

/-- The log is drained, and the thread is finalized. -/
def drain : List RecoveryAction :=
  [.reconcile 20 false [], .threadRead true, .loopEnds false, .emitted, .gate, .finalize none]

/-- A worker whose process is gone is failed by the one task there is. -/
theorem recovery_of_run_gone : ∃ s, system.run (worker 8 []) drain = some s
    ∧ s.status = .failed ∧ s.tasks = 1 ∧ ∀ d ∈ s.deeds, d.1.Justified d.2 := by
  have heval : (system.run (worker 8 []) drain).map (fun s => (s.status, s.owed))
      = some (.failed, true) := by decide +kernel
  obtain ⟨s, hrun, hs⟩ := Option.map_eq_some_iff.mp heval
  obtain ⟨hdeeds, -, howed⟩ := recovery_of_run ⟨rfl, rfl, rfl, rfl⟩ hrun
  exact ⟨s, hrun, congrArg Prod.fst hs, (howed (congrArg Prod.snd hs)).1, hdeeds⟩

/-- **A result is enough**: a worker whose log says that it failed is failed
while its process runs. -/
theorem failed_alive : ∃ s s', Fresh s ∧ isRunAlive s.host s.pid s.pidStart s.startedAt = true
    ∧ system.run s drain = some s' ∧ s'.host = s.host
    ∧ ∃ e, (.failed, e) ∈ s'.deeds ∧ e.provenDead = false ∧ e.neverSpawned = false := by
  have heval : (system.run (worker 7 [[("type", .str ET.result), ("is_error", .bool true)]])
      drain).map Recovery.deeds = some [(.failed, ⟨false, false, true, false⟩)] := by
    decide +kernel
  obtain ⟨s', hrun, hdeeds⟩ := Option.map_eq_some_iff.mp heval
  have hhost : s'.host = oneProcess := by
    have heq : (system.run (worker 7 [[("type", .str ET.result), ("is_error", .bool true)]])
        drain).map Recovery.host = some oneProcess := rfl
    exact TransitionSystem.eq_of_run_map heq hrun
  refine ⟨_, s', ⟨rfl, rfl, rfl, rfl⟩, by decide, hrun, hhost, ⟨false, false, true, false⟩, ?_,
    rfl, rfl⟩
  rw [hdeeds]
  exact List.mem_singleton.mpr rfl

end Recovery

end WorkerRecovery
