import CharlieBot.EventTypes

/-!
# What became of a run

A run writes its output to a raw log and leaves its process id behind. After
a restart the two are all there is: `resolveRun` reads from them whether the
run has completed, is running or silent, has died, or never started.

One rule governs the table: **a run is reported dead only when its death is
proven** – all of what identifies its process is known, and no process
answers to it (`proven_of_died`). Where anything is missing the run counts
as alive.
-/

inductive BackendType where
  | ccClaude
  | ccKimi
  | ccOpenaiCompatible
  | codex
  | charlieCode
  | gemini
  | opencode
  | antigravity
  | tuiCli
  deriving DecidableEq

namespace Runs

/-- Backend types whose events do not go through a raw log. -/
def uncoveredBackendTypes : List BackendType := [.opencode, .antigravity, .tuiCli]

def transportNotCoveredReason := "backend transport not covered by restart-safe runtime"
def legacyRawMissingReason := "raw log missing (run predates restart-safe transport)"
def diedWithoutResultReason := "process exited without a final result event"
def uncoveredAliveReason := "uncovered-alive"
def rawMissingAliveReason := "raw-missing-alive"

/-- `NO_OUTPUT_REPORT_THRESHOLD`, in seconds. -/
def noOutputReportThreshold : ℕ := 7200

inductive RunOutcome where
  | completed
  | running
  | died
  | stalled
  | neverStarted
  deriving DecidableEq

/-- An outcome and its reason. -/
structure RunResolution where
  outcome : RunOutcome
  reason : String := ""

/-- **The host as the run's reader finds it.** Times are in microseconds. -/
structure Host where
  /-- The start time and the state of a process, while there is one. -/
  readPidStat : ℕ → Option (String × String)
  bootTime : ℤ

/-- A raw log: what its events are translated to, and its last change. -/
structure RawLog where
  events : List Event
  /-- The modification time. -/
  mtime : ℤ

/-- Whether the recorded process is there. -/
def isRunAlive (host : Host) (pid : Option ℕ) (pidStart : Option String)
    (startedAt : Option ℤ) : Bool :=
  match pid, pidStart, startedAt with
  | some pid, some pidStart, some startedAt =>
    match host.readPidStat pid with
    | none => false
    | some (currentStart, state) =>
      if currentStart != pidStart || state == "Z" then false
      else decide (host.bootTime < startedAt)
  | _, _, _ => false

def missingLivenessFields (pid : Option ℕ) (pidStart : Option String)
    (startedAt : Option ℤ) : List String :=
  (if pid.isNone then ["pid"] else []) ++ (if pidStart.isNone then ["pid_start"] else [])
    ++ (if startedAt.isNone then ["started_at"] else [])

/-- The note on missing liveness fields, empty if none is. -/
def missingNote (missing : List String) : String :=
  if missing.isEmpty then ""
  else "missing liveness field(s): " ++ String.intercalate ", " missing

/-- The last `result` event, if any. -/
def summarizeResult (events : List Event) : Option Event :=
  events.foldl (fun last event => if event.hasType ET.result then some event else last) none

/-- The reason of a run that is alive and silent. -/
def stalledReason (silentMicros : ℤ) (note : String) : String :=
  let reason := "alive but no raw output for " ++ toString (silentMicros.tdiv 1000000)
    ++ "s (>" ++ toString noOutputReportThreshold ++ "s threshold)"
  if note.isEmpty then reason else reason ++ "; " ++ note

/-- **What became of a run**, from its raw log and its process. -/
def resolveRun (raw : Option RawLog) (pid : Option ℕ) (pidStart : Option String)
    (startedAt : Option ℤ) (backendType : BackendType) (host : Host) (now : ℤ) :
    RunResolution :=
  if raw.isNone && pid.isNone then { outcome := .neverStarted }
  else
    let missing := missingLivenessFields pid pidStart startedAt
    let note := missingNote missing
    let alive := isRunAlive host pid pidStart startedAt
    let effectivelyAlive := alive || !missing.isEmpty
    let result := raw.bind fun log => summarizeResult log.events
    if uncoveredBackendTypes.contains backendType && result.isNone then
      if effectivelyAlive then { outcome := .running, reason := uncoveredAliveReason }
      else { outcome := .died, reason := transportNotCoveredReason }
    else match raw with
      | none =>
        if effectivelyAlive then { outcome := .running, reason := rawMissingAliveReason }
        else { outcome := .died, reason := legacyRawMissingReason }
      | some log =>
        if result.isSome then { outcome := .completed }
        else if effectivelyAlive then
          let silentFor := now - log.mtime
          if noOutputReportThreshold * 1000000 < silentFor then
            { outcome := .stalled, reason := stalledReason silentFor note }
          else { outcome := .running, reason := note }
        else { outcome := .died, reason := diedWithoutResultReason }

variable {raw : Option RawLog} {pid : Option ℕ} {pidStart : Option String}
  {startedAt : Option ℤ} {backendType : BackendType} {host : Host} {now : ℤ}

/-- **A run is reported dead only when its death is proven**: nothing that
identifies its process is missing, and no such process is there. -/
theorem proven_of_died
    (h : (resolveRun raw pid pidStart startedAt backendType host now).outcome = .died) :
    missingLivenessFields pid pidStart startedAt = []
      ∧ isRunAlive host pid pidStart startedAt = false := by
  suffices hdead : (isRunAlive host pid pidStart startedAt
      || !(missingLivenessFields pid pidStart startedAt).isEmpty) = false by
    rw [Bool.or_eq_false_iff, Bool.not_eq_false', List.isEmpty_iff] at hdead
    exact ⟨hdead.2, hdead.1⟩
  by_contra halive
  rw [Bool.not_eq_false] at halive
  unfold resolveRun at h
  simp only [halive, if_true] at h
  split at h
  · exact RunOutcome.noConfusion h
  · split at h
    · exact RunOutcome.noConfusion h
    · split at h
      · exact RunOutcome.noConfusion h
      · split at h
        · exact RunOutcome.noConfusion h
        · split at h <;> exact RunOutcome.noConfusion h

theorem absent_of_neverStarted (h : (resolveRun raw pid pidStart startedAt backendType
    host now).outcome = .neverStarted) : raw = none ∧ pid = none := by
  by_contra hnot
  have hstarted : (raw.isNone && pid.isNone) = false := by
    rw [Bool.and_eq_false_iff, Option.isNone_eq_false_iff, Option.isNone_eq_false_iff,
      Option.isSome_iff_ne_none, Option.isSome_iff_ne_none]
    exact not_and_or.mp hnot
  unfold resolveRun at h
  simp only [hstarted, Bool.false_eq_true, if_false] at h
  split at h
  · split at h <;> exact RunOutcome.noConfusion h
  · split at h
    · split at h <;> exact RunOutcome.noConfusion h
    · split at h
      · exact RunOutcome.noConfusion h
      · split at h
        · split at h <;> exact RunOutcome.noConfusion h
        · exact RunOutcome.noConfusion h

theorem completed_of_result {log : RawLog} (h : (summarizeResult log.events).isSome) :
    (resolveRun (some log) pid pidStart startedAt backendType host now).outcome
      = .completed := by
  unfold resolveRun
  simp only [Option.isNone_some, Bool.false_and, Bool.false_eq_true, if_false,
    Option.bind_some, h, Option.isNone_eq_false_iff.mpr h, Bool.and_false, if_true]

end Runs
