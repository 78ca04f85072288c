import CharlieBot.Lib.Groups
import CharlieBot.Lib.Json
import CharlieBot.Triggers
import Mathlib.Data.List.Sort

/-!
# Watched targets

A trigger may wait for processes of this host, for processes of other hosts and for jobs of a
cluster. Each kind is watched by a loop of its own, and the report puts the lists of the loops
together: what finished, and what is still alive.

The loops for other hosts and for the cluster keep the targets in sets, and a target leaves its set
when it goes to the finished ones. The loop for this host opens every pid as often as it is listed.
**Every target is on one of the two lists, and on one only, exactly when no pid of this host is
listed at two places of which one ended and the other did not** (`sorted_iff`). A pid that is gone
at the first place and taken by another process at the second is on both (`not_sorted_reused`).
-/

namespace WatchGroups

open Groups

/-! ## Reports -/

inductive WatchKind where
  | localPid
  | remotePid
  | slurmJob
  deriving DecidableEq

def kind : WatchTarget → WatchKind
  | .localPid _ => .localPid
  | .remotePid _ _ => .remotePid
  | .slurmJob _ _ => .slurmJob

/-- A label of a report, and the target it is the label of. -/
structure Label where
  target : WatchTarget
  text : String
  deriving DecidableEq

/-- What a loop comes back with. -/
structure Lists where
  finished : List Label
  stillAlive : List Label
  deriving DecidableEq

/-- What a probe's command comes to. -/
inductive ProbeRun where
  /-- It could not be started, or took too long. -/
  | failed (error : List Char)
  | ran (stdout stderr : List Char) (returncode : ℤ)

/-! ## Processes of this host -/

/-- What `pidfd_open` comes to. -/
inductive Opened where
  | fd
  /-- `ProcessLookupError`. -/
  | gone
  /-- Another error, which nothing catches. -/
  | failed
  deriving DecidableEq

def localLabel (pid : ℕ) : Label := ⟨.localPid pid, toString pid⟩

def goneLabel (pid : ℕ) : Label := ⟨.localPid pid, toString pid ++ " (gone at start)"⟩

/-- The descriptors that are watched, each with its pid, and the labels so far. -/
structure Pidfds where
  pidfds : List (ℕ × ℕ)
  finished : List Label

/-- The pids are opened; a descriptor is known by the place its pid is listed at. -/
def openPidfds (opened : ℕ → Opened) : ℕ → List ℕ → Option Pidfds
  | _, [] => some ⟨[], []⟩
  | i, pid :: rest => do
    let s ← openPidfds opened (i + 1) rest
    match opened i with
    | .fd => some { s with pidfds := (i, pid) :: s.pidfds }
    | .gone => some { s with finished := goneLabel pid :: s.finished }
    | .failed => none

def Pidfds.onReady (s : Pidfds) (fd : ℕ) : Pidfds :=
  match s.pidfds.lookup fd with
  | none => s
  | some pid => ⟨s.pidfds.filter fun p => p.1 ≠ fd, s.finished ++ [localLabel pid]⟩

/-- `_wait_with_pidfd`; `ready` are the descriptors that become readable until the wait is over. -/
def waitWithPidfd (opened : ℕ → Opened) (ready : List ℕ) (pids : List ℕ) : Option Lists := do
  let s ← openPidfds opened 0 pids
  if s.pidfds = [] then some ⟨s.finished, []⟩
  else
    let waited := ready.foldl Pidfds.onReady s
    some ⟨waited.finished, waited.pidfds.map fun p => localLabel p.2⟩

/-! ## Processes of other hosts -/

inductive ProbeStatus where
  | alive
  | dead
  | error
  deriving DecidableEq

/-- `_ssh_probe_pid`: the last line of the output decides. -/
def sshProbePid : ProbeRun → ProbeStatus
  | .failed _ => .error
  | .ran stdout _ _ =>
    let lastLine := Text.strip ((Text.splitLines (Text.strip stdout)).getLastD [])
    if lastLine = "ALIVE".toList then .alive
    else if lastLine = "DEAD".toList then .dead
    else .error

def remoteLabel (host : String) (pid : ℕ) : Label :=
  ⟨.remotePid host pid, host ++ ":" ++ toString pid⟩

/-- A pid leaves the set of its host, and the host goes with its last one. -/
def discard (host : String) (pid : ℕ) (remaining : List (String × List ℕ)) :
    List (String × List ℕ) :=
  remaining.filterMap fun (host', pids) =>
    if host' = host then
      if pids.filter (· ≠ pid) = [] then none else some (host', pids.filter (· ≠ pid))
    else some (host', pids)

/-- The pids that are still watched, and the labels of those that ended. -/
structure Remote where
  remaining : List (String × List ℕ)
  finished : List Label

def Remote.onStatus (probe : String → ℕ → ProbeRun) (s : Remote) (target : String × ℕ) : Remote :=
  match sshProbePid (probe target.1 target.2) with
  | .dead =>
    ⟨discard target.1 target.2 s.remaining, s.finished ++ [remoteLabel target.1 target.2]⟩
  | .alive | .error => s

/-- The host and the pid of every probe. -/
def probesOf (remaining : List (String × List ℕ)) : List (String × ℕ) :=
  remaining.flatMap fun (host, pids) => pids.map fun pid => (host, pid)

/-- `_probe_remaining_remote_pids`. -/
def probeRemaining (probe : String → ℕ → ProbeRun) (s : Remote) : Remote :=
  (probesOf s.remaining).foldl (Remote.onStatus probe) s

/-- A round of probes: the clock before its sleep and behind it, and what each probe comes to. -/
structure RemoteRound where
  checked : ℤ
  woken : ℤ
  probe : String → ℕ → ProbeRun

/-- What is reported of a group that is watched no longer. -/
def Remote.report (s : Remote) : Lists :=
  ⟨s.finished, (probesOf s.remaining).map fun (host, pid) => remoteLabel host pid⟩

/-- The loop of `_wait_with_remote_probe`, round by round; nothing while it is not over. -/
def remoteLoop (fireAt : ℤ) : Remote → List RemoteRound → Option Lists
  | _, [] => none
  | s, round :: rest =>
    if fireAt ≤ round.checked then some s.report
    else if fireAt ≤ round.woken then some s.report
    else
      let probed := probeRemaining round.probe s
      if probed.remaining = [] then some probed.report else remoteLoop fireAt probed rest

def waitWithRemoteProbe (fireAt : ℤ) (rounds : List RemoteRound) (targets : List (String × ℕ)) :
    Option Lists :=
  remoteLoop fireAt ⟨collect Prod.fst (fun t => insertNew t.2) targets, []⟩ rounds

/-! ## Jobs of a cluster -/

structure Python where
  /-- `c.isdigit()`. -/
  isdigit : Char → Bool
  /-- `int(s)` of digits; nothing where it raises. -/
  int : List Char → Option ℕ

/-- The state and the exit code of every job that has a row. -/
abbrev States := ℕ → Option (List Char × List Char)

/-- The rows of `sacct`. -/
def sacctStates (py : Python) : List (List Char) → States → Option States
  | [], states => some states
  | line :: rest, states =>
    match Text.splitOnChar '|' (Text.strip line) with
    | job :: state :: exitCode :: _ =>
      if !job.isEmpty && job.all py.isdigit then do
        let id ← py.int job
        sacctStates py rest
          (Function.update states id (some (Text.strip state, Text.strip exitCode)))
      else sacctStates py rest states
    | _ => sacctStates py rest states

/-- What a probe says: the states, and why there are none. -/
structure SacctProbe where
  states : States
  error : Option (List Char)

/-- `_probe_sacct`; nothing where it raises. -/
def probeSacct (py : Python) : ProbeRun → Option SacctProbe
  | .failed error => some ⟨fun _ => none, some error⟩
  | .ran stdout stderr returncode =>
    if returncode ≠ 0 then
      some ⟨fun _ => none, some ("sacct exit ".toList ++ (toString returncode).toList
        ++ ": ".toList ++ Text.strip stderr)⟩
    else (sacctStates py (Text.splitLines stdout) fun _ => none).map (⟨·, none⟩)

def slurmActiveStates : List String :=
  ["PENDING", "RUNNING", "CONFIGURING", "COMPLETING", "REQUEUED", "RESIZING", "SUSPENDED"]

def slurmTerminalStates : List String :=
  ["COMPLETED", "FAILED", "CANCELLED", "TIMEOUT", "OUT_OF_MEMORY", "NODE_FAIL", "BOOT_FAIL",
    "DEADLINE", "PREEMPTED", "REVOKED", "SPECIAL_EXIT"]

/-- `_REMOTE_SACCT_UNREACHABLE_GRACE`, in microseconds. -/
def remoteSacctUnreachableGrace : ℤ := 900 * 1000000

/-- The text of `_slurm_label`. -/
def slurmText (host : Option String) (jobId : ℕ) : String :=
  match host with
  | none => "slurm:" ++ toString jobId
  | some host => host ++ ":slurm:" ++ toString jobId

def slurmLabel (host : Option String) (jobId : ℕ) : Label :=
  ⟨.slurmJob host jobId, slurmText host jobId⟩

def stateLabel (host : Option String) (jobId : ℕ) (state exitCode : List Char) : Label :=
  ⟨.slurmJob host jobId,
    slurmText host jobId ++ ": " ++ String.ofList state ++ " " ++ String.ofList exitCode⟩

/-- A job whose host did not answer for `dark` microseconds. -/
def unreachableLabel (host : Option String) (dark : ℤ) (error : List Char) (jobId : ℕ) : Label :=
  ⟨.slurmJob host jobId, slurmText host jobId ++ " (unreachable " ++ toString (dark / 60000000)
    ++ "m: " ++ String.ofList (((Text.splitLines error).headD []).take 120) ++ ")"⟩

/-- `state.split()[0]`. -/
def stateKey (state : List Char) : String :=
  String.ofList ((state.dropWhile Text.isSpace).takeWhile fun c => !Text.isSpace c)

/-- The jobs that are still watched, and the labels of those that ended. -/
structure Sacct where
  remaining : List ℕ
  finished : List Label

def Sacct.onRow (host : Option String) (states : States) (s : Sacct) (jobId : ℕ) : Sacct :=
  match states jobId with
  | none => s
  | some (state, exitCode) =>
    if stateKey state ∈ slurmActiveStates then s
    else if stateKey state ∉ slurmTerminalStates then s
    else ⟨s.remaining.filter (· ≠ jobId), s.finished ++ [stateLabel host jobId state exitCode]⟩

/-- `sorted(remaining)`. -/
def sorted (ids : List ℕ) : List ℕ := ids.insertionSort (· ≤ ·)

/-- A round: what the probe comes to, and the clock behind it and behind the rows. -/
structure SacctRound where
  run : ProbeRun
  probed : ℤ
  checked : ℤ

/-- What is seen of one host: the clock at the start, and the rounds. -/
structure SacctHistory where
  started : ℤ
  rounds : List SacctRound

/-- What the error of a probe ends the wait with: the time without an answer, and the error. -/
def unreachable (host : Option String) (lastSuccess : ℤ) (round : SacctRound)
    (error : Option (List Char)) : Option (ℤ × List Char) :=
  match error with
  | none => none
  | some error =>
    let darkFor := round.probed - lastSuccess
    if host.isSome ∧ remoteSacctUnreachableGrace ≤ darkFor then some (darkFor, error) else none

/-- The loop of `_wait_sacct_group`, round by round; nothing while it is not over. -/
def sacctLoop (py : Python) (fireAt : ℤ) (host : Option String) :
    Sacct → ℤ → List SacctRound → Option Lists
  | _, _, [] => none
  | s, lastSuccess, round :: rest => do
    let probe ← probeSacct py round.run
    match unreachable host lastSuccess round probe.error with
    | some (darkFor, error) =>
      some ⟨s.finished, (sorted s.remaining).map (unreachableLabel host darkFor error)⟩
    | none =>
      let read := (sorted s.remaining).foldl (Sacct.onRow host probe.states) s
      if read.remaining = [] ∨ fireAt ≤ round.checked then
        some ⟨read.finished, (sorted read.remaining).map (slurmLabel host)⟩
      else
        sacctLoop py fireAt host read
          (if probe.error = none then round.probed else lastSuccess) rest

def waitSacctGroup (py : Python) (fireAt : ℤ) (sacctAvailable : Bool) (host : Option String)
    (history : SacctHistory) (jobIds : List ℕ) : Option Lists :=
  if host = none ∧ !sacctAvailable then some ⟨[], (sorted jobIds).map (slurmLabel host)⟩
  else sacctLoop py fireAt host ⟨jobIds, []⟩ history.started history.rounds

/-! ## The wait -/

/-- `asyncio.gather` over the loops of some groups, and their lists put together. -/
def gather {κ ν : Type} (wait : κ → List ν → Option Lists) : List (κ × List ν) → Option Lists
  | [] => some ⟨[], []⟩
  | (k, group) :: rest => do
    let first ← wait k group
    let others ← gather wait rest
    some ⟨first.finished ++ others.finished, first.stillAlive ++ others.stillAlive⟩

def waitWithSacct (py : Python) (fireAt : ℤ) (sacctAvailable : Bool)
    (history : Option String → SacctHistory) (targets : List (Option String × ℕ)) : Option Lists :=
  gather (fun host => waitSacctGroup py fireAt sacctAvailable host (history host))
    (collect Prod.fst (fun t => insertNew t.2) targets)

/-- **What the probes of a wait see.** -/
structure History where
  /-- What `pidfd_open` comes to, at every place of the list. -/
  opened : ℕ → Opened
  /-- The descriptors that become readable until the deadline, in order. -/
  ready : List ℕ
  remote : List RemoteRound
  sacctAvailable : Bool
  sacct : Option String → SacctHistory

def localPid? : WatchTarget → Option ℕ
  | .localPid pid => some pid
  | _ => none

def remotePid? : WatchTarget → Option (String × ℕ)
  | .remotePid host pid => some (host, pid)
  | _ => none

def slurmJob? : WatchTarget → Option (Option String × ℕ)
  | .slurmJob host jobId => some (host, jobId)
  | _ => none

def subWaiter (py : Python) (fireAt : ℤ) (h : History) (k : WatchKind) (group : List WatchTarget) :
    Option Lists :=
  match k with
  | .localPid => waitWithPidfd h.opened h.ready (group.filterMap localPid?)
  | .remotePid => waitWithRemoteProbe fireAt h.remote (group.filterMap remotePid?)
  | .slurmJob => waitWithSacct py fireAt h.sacctAvailable h.sacct (group.filterMap slurmJob?)

def kindGroups (targets : List WatchTarget) : List (WatchKind × List WatchTarget) :=
  collect kind (fun t group => group ++ [t]) targets

structure Report extends Lists where
  reason : FireReason
  deriving DecidableEq

/-- `_existing_wait`; nothing where it is not over, or failed. A trigger without targets waits for
its time only. -/
def existingWait (py : Python) (fireAt : ℤ) (targets : List WatchTarget) (h : History) :
    Option Report :=
  if kindGroups targets = [] then some ⟨⟨[], []⟩, .timeout⟩
  else do
    let lists ← gather (subWaiter py fireAt h) (kindGroups targets)
    some ⟨lists, if lists.stillAlive = [] then .completed else .timeout⟩

/-- The report as the trigger's message shows it. -/
def Report.result (r : Report) : WaitResult :=
  ⟨r.reason, r.finished.map Label.text, r.stillAlive.map Label.text⟩

/-! ## On which list a target is -/

/-- A target has a label among the finished. -/
def Lists.Done (r : Lists) (t : WatchTarget) : Prop := ∃ l ∈ r.finished, l.target = t

/-- A target has a label among those still alive. -/
def Lists.Left (r : Lists) (t : WatchTarget) : Prop := ∃ l ∈ r.stillAlive, l.target = t

/-- The lists have the targets with `P`, and no others. -/
def Lists.Covers (r : Lists) (P : WatchTarget → Prop) : Prop := ∀ t, r.Done t ∨ r.Left t ↔ P t

/-- No target is on both lists. -/
def Lists.Apart (r : Lists) : Prop := ∀ t, r.Done t → ¬ r.Left t

theorem Lists.Covers.xor_iff {r : Lists} {P : WatchTarget → Prop} (h : r.Covers P) :
    (∀ t, P t → Xor (r.Done t) (r.Left t)) ↔ r.Apart := by
  constructor
  · intro hxor t hdone hleft
    rcases hxor t ((h t).1 (Or.inl hdone)) with ⟨-, hnot⟩ | ⟨-, hnot⟩
    · exact hnot hleft
    · exact hnot hdone
  · intro hapart t ht
    rcases (h t).2 ht with hdone | hleft
    · exact Or.inl ⟨hdone, hapart t hdone⟩
    · exact Or.inr ⟨hleft, fun hdone => hapart t hdone hleft⟩

/-! ### Lists that are put together -/

section Gather

variable {κ ν : Type} {wait : κ → List ν → Option Lists} {key : WatchTarget → κ}
  {P : WatchTarget → Prop}

theorem gather_cons_eq_some {k : κ} {group : List ν} {rest : List (κ × List ν)} {r : Lists} :
    gather wait ((k, group) :: rest) = some r ↔ ∃ first others, wait k group = some first
      ∧ gather wait rest = some others
      ∧ r = ⟨first.finished ++ others.finished, first.stillAlive ++ others.stillAlive⟩ := by
  simp only [gather, Option.bind_eq_bind, Option.bind_eq_some_iff, Option.some.injEq]
  constructor
  · rintro ⟨first, hfirst, others, hothers, rfl⟩
    exact ⟨first, others, hfirst, hothers, rfl⟩
  · rintro ⟨first, others, hfirst, hothers, rfl⟩
    exact ⟨first, hfirst, others, hothers, rfl⟩

theorem done_append {first others : Lists} {t : WatchTarget} :
    Lists.Done ⟨first.finished ++ others.finished, first.stillAlive ++ others.stillAlive⟩ t
      ↔ first.Done t ∨ others.Done t := by
  simp [Lists.Done, or_and_right, exists_or]

theorem left_append {first others : Lists} {t : WatchTarget} :
    Lists.Left ⟨first.finished ++ others.finished, first.stillAlive ++ others.stillAlive⟩ t
      ↔ first.Left t ∨ others.Left t := by
  simp [Lists.Left, or_and_right, exists_or]

theorem gather_covers {items : List (κ × List ν)} {r : Lists}
    (hwait : ∀ k group, (k, group) ∈ items → ∀ r, wait k group = some r →
      r.Covers fun t => P t ∧ key t = k)
    (h : gather wait items = some r) : r.Covers fun t => P t ∧ key t ∈ items.map Prod.fst := by
  induction items generalizing r with
  | nil =>
    cases h
    simp [Lists.Covers, Lists.Done, Lists.Left]
  | cons item rest ih =>
    obtain ⟨k, group⟩ := item
    obtain ⟨first, others, hfirst, hothers, rfl⟩ := gather_cons_eq_some.1 h
    have hk := hwait k group List.mem_cons_self first hfirst
    have hrest := ih (fun k' group' hmem => hwait k' group' (List.mem_cons_of_mem _ hmem)) hothers
    intro t
    rw [done_append, left_append, or_or_or_comm, hk t, hrest t]
    simp [and_or_left]

theorem exists_of_gather {items : List (κ × List ν)} {r : Lists} (h : gather wait items = some r)
    {k : κ} {group : List ν} (hmem : (k, group) ∈ items) : ∃ r', wait k group = some r' := by
  induction items generalizing r with
  | nil => exact absurd hmem List.not_mem_nil
  | cons item rest ih =>
    obtain ⟨k', group'⟩ := item
    obtain ⟨first, others, hfirst, hothers, rfl⟩ := gather_cons_eq_some.1 h
    rcases List.mem_cons.1 hmem with heq | hmem
    · cases heq
      exact ⟨first, hfirst⟩
    · exact ih hothers hmem

/-- Lists that are put together from groups without a common target are apart where those of
every group are. -/
theorem gather_apart_iff {items : List (κ × List ν)} {r : Lists}
    (hitems : (items.map Prod.fst).Nodup)
    (hwait : ∀ k group, (k, group) ∈ items → ∀ r, wait k group = some r →
      r.Covers fun t => P t ∧ key t = k)
    (h : gather wait items = some r) :
    r.Apart ↔ ∀ k group, (k, group) ∈ items → ∀ r, wait k group = some r → r.Apart := by
  induction items generalizing r with
  | nil =>
    cases h
    simp [Lists.Apart, Lists.Done]
  | cons item rest ih =>
    obtain ⟨k, group⟩ := item
    obtain ⟨first, others, hfirst, hothers, rfl⟩ := gather_cons_eq_some.1 h
    rw [List.map_cons, List.nodup_cons] at hitems
    have hwait' := fun k' group' hmem => hwait k' group' (List.mem_cons_of_mem (k, group) hmem)
    have hk := hwait k group List.mem_cons_self first hfirst
    have hrest := gather_covers hwait' hothers
    -- a target is of one group, so it is not on a list of this one and on a list of another
    have hsplit : ∀ t, (first.Done t ∨ first.Left t) → ¬ (others.Done t ∨ others.Left t) := by
      intro t hin hout
      exact hitems.1 (((hk t).1 hin).2 ▸ ((hrest t).1 hout).2)
    have hboth : Lists.Apart ⟨first.finished ++ others.finished,
        first.stillAlive ++ others.stillAlive⟩ ↔ first.Apart ∧ others.Apart := by
      constructor
      · intro hapart
        refine ⟨fun t hd hl => hapart t (done_append.2 (Or.inl hd)) (left_append.2 (Or.inl hl)),
          fun t hd hl => hapart t (done_append.2 (Or.inr hd)) (left_append.2 (Or.inr hl))⟩
      · rintro ⟨hf, ho⟩ t hd hl
        rcases done_append.1 hd with hd | hd <;> rcases left_append.1 hl with hl | hl
        · exact hf t hd hl
        · exact hsplit t (Or.inl hd) (Or.inr hl)
        · exact hsplit t (Or.inr hl) (Or.inl hd)
        · exact ho t hd hl
    rw [hboth, ih hitems.2 hwait' hothers]
    constructor
    · rintro ⟨hf, ho⟩ k' group' hmem r' hr'
      rcases List.mem_cons.1 hmem with heq | hmem
      · cases heq
        exact Option.some.inj (hfirst.symm.trans hr') ▸ hf
      · exact ho k' group' hmem r' hr'
    · intro hall
      exact ⟨hall k group List.mem_cons_self first hfirst,
        fun k' group' hmem => hall k' group' (List.mem_cons_of_mem _ hmem)⟩

end Gather

/-! ### Processes of this host -/

/-- What came of the pid at a place: it was gone when it was opened, or its descriptor became
readable. -/
def History.Ended (h : History) (i : ℕ) : Prop := h.opened i = .gone ∨ i ∈ h.ready

/-- **No pid is listed at two places of which one ended and the other did not.** -/
def History.Agrees (h : History) (pids : List ℕ) : Prop :=
  ∀ i j pid, pids[i]? = some pid → pids[j]? = some pid → h.Ended i → h.Ended j

theorem openPidfds_cons {opened : ℕ → Opened} {i pid : ℕ} {rest : List ℕ} {s : Pidfds}
    (h : openPidfds opened i (pid :: rest) = some s) :
    ∃ s₀, openPidfds opened (i + 1) rest = some s₀ ∧
      (opened i = .fd ∧ s = { s₀ with pidfds := (i, pid) :: s₀.pidfds } ∨
        opened i = .gone ∧ s = { s₀ with finished := goneLabel pid :: s₀.finished }) := by
  simp only [openPidfds, Option.bind_eq_bind, Option.bind_eq_some_iff] at h
  obtain ⟨s₀, hs₀, h⟩ := h
  refine ⟨s₀, hs₀, ?_⟩
  cases ho : opened i with
  | fd => exact Or.inl ⟨rfl, by simpa [ho] using h.symm⟩
  | gone => exact Or.inr ⟨rfl, by simpa [ho] using h.symm⟩
  | failed => simp [ho] at h

theorem exists_place_cons {pid : ℕ} {rest : List ℕ} {Q : ℕ → ℕ → Prop} {i : ℕ} :
    (∃ j p, (pid :: rest)[j]? = some p ∧ Q (i + j) p)
      ↔ Q i pid ∨ ∃ j p, rest[j]? = some p ∧ Q (i + 1 + j) p := by
  constructor
  · rintro ⟨j, p, hp, hq⟩
    cases j with
    | zero =>
      cases hp
      exact Or.inl hq
    | succ j =>
      refine Or.inr ⟨j, p, hp, ?_⟩
      rwa [show i + 1 + j = i + (j + 1) by omega]
  · rintro (hq | ⟨j, p, hp, hq⟩)
    · exact ⟨0, pid, rfl, hq⟩
    · refine ⟨j + 1, p, hp, ?_⟩
      rwa [show i + (j + 1) = i + 1 + j by omega]

theorem mem_pidfds_openPidfds {opened : ℕ → Opened} {pids : List ℕ} {i : ℕ} {s : Pidfds}
    (h : openPidfds opened i pids = some s) (fd pid : ℕ) :
    (fd, pid) ∈ s.pidfds
      ↔ ∃ j p, pids[j]? = some p ∧ (fd = i + j ∧ pid = p ∧ opened (i + j) = .fd) := by
  induction pids generalizing i s with
  | nil =>
    cases h
    simp
  | cons first rest ih =>
    obtain ⟨s₀, hs₀, ⟨ho, rfl⟩ | ⟨ho, rfl⟩⟩ := openPidfds_cons h
    · rw [exists_place_cons (Q := fun n p => fd = n ∧ pid = p ∧ opened n = .fd), ← ih hs₀]
      simp [ho]
    · rw [exists_place_cons (Q := fun n p => fd = n ∧ pid = p ∧ opened n = .fd), ← ih hs₀]
      simp [ho]

theorem mem_finished_openPidfds {opened : ℕ → Opened} {pids : List ℕ} {i : ℕ} {s : Pidfds}
    (h : openPidfds opened i pids = some s) (t : WatchTarget) :
    (∃ l ∈ s.finished, l.target = t)
      ↔ ∃ j p, pids[j]? = some p ∧ (opened (i + j) = .gone ∧ WatchTarget.localPid p = t) := by
  induction pids generalizing i s with
  | nil =>
    cases h
    simp
  | cons first rest ih =>
    obtain ⟨s₀, hs₀, ⟨ho, rfl⟩ | ⟨ho, rfl⟩⟩ := openPidfds_cons h
    · rw [exists_place_cons (Q := fun n p => opened n = .gone ∧ WatchTarget.localPid p = t),
        ← ih hs₀]
      simp [ho]
    · rw [exists_place_cons (Q := fun n p => opened n = .gone ∧ WatchTarget.localPid p = t),
        ← ih hs₀]
      simp [ho, goneLabel]

theorem opened_openPidfds {opened : ℕ → Opened} {pids : List ℕ} {i : ℕ} {s : Pidfds}
    (h : openPidfds opened i pids = some s) {j pid : ℕ} (hj : pids[j]? = some pid) :
    opened (i + j) = .fd ∨ opened (i + j) = .gone := by
  induction pids generalizing i j s with
  | nil => simp at hj
  | cons first rest ih =>
    obtain ⟨s₀, hs₀, hcase⟩ := openPidfds_cons h
    cases j with
    | zero => exact hcase.imp And.left And.left
    | succ j =>
      have := ih hs₀ hj
      rwa [show i + 1 + j = i + (j + 1) by omega] at this

theorem onReady_spec (s : Pidfds) (fd : ℕ)
    (hs : ∀ fd' p q, (fd', p) ∈ s.pidfds → (fd', q) ∈ s.pidfds → p = q) :
    (∀ x, x ∈ (s.onReady fd).pidfds ↔ x ∈ s.pidfds ∧ x.1 ≠ fd)
      ∧ ∀ t, (∃ l ∈ (s.onReady fd).finished, l.target = t) ↔ (∃ l ∈ s.finished, l.target = t)
        ∨ ∃ p, (fd, p) ∈ s.pidfds ∧ WatchTarget.localPid p = t := by
  unfold Pidfds.onReady
  cases hl : s.pidfds.lookup fd with
  | none =>
    have hnone : ∀ p, (fd, p) ∉ s.pidfds := fun p hp => by
      simpa using List.lookup_eq_none_iff.1 hl (fd, p) hp
    refine ⟨fun x => ⟨fun hx => ⟨hx, ?_⟩, And.left⟩, fun t => by simp [hnone]⟩
    rintro rfl
    exact hnone x.2 hx
  | some pid =>
    have hmem : (fd, pid) ∈ s.pidfds := by
      obtain ⟨l₁, l₂, heq, -⟩ := List.lookup_eq_some_iff.1 hl
      simp [heq]
    refine ⟨fun x => by simp, fun t => ?_⟩
    have honly : (∃ p, (fd, p) ∈ s.pidfds ∧ WatchTarget.localPid p = t)
        ↔ WatchTarget.localPid pid = t := by
      constructor
      · rintro ⟨p, hp, rfl⟩
        rw [hs fd pid p hmem hp]
      · exact fun heq => ⟨pid, hmem, heq⟩
    simp [honly, localLabel, or_and_right, exists_or]

theorem foldl_onReady_spec (ready : List ℕ) (s : Pidfds)
    (hs : ∀ fd' p q, (fd', p) ∈ s.pidfds → (fd', q) ∈ s.pidfds → p = q) :
    (∀ x, x ∈ (ready.foldl Pidfds.onReady s).pidfds ↔ x ∈ s.pidfds ∧ x.1 ∉ ready)
      ∧ ∀ t, (∃ l ∈ (ready.foldl Pidfds.onReady s).finished, l.target = t)
        ↔ (∃ l ∈ s.finished, l.target = t)
          ∨ ∃ fd p, (fd, p) ∈ s.pidfds ∧ fd ∈ ready ∧ WatchTarget.localPid p = t := by
  induction ready generalizing s with
  | nil => simp
  | cons fd rest ih =>
    obtain ⟨hfds, hdone⟩ := onReady_spec s fd hs
    have hs' : ∀ fd' p q, (fd', p) ∈ (s.onReady fd).pidfds → (fd', q) ∈ (s.onReady fd).pidfds →
        p = q := fun fd' p q hp hq => hs fd' p q ((hfds _).1 hp).1 ((hfds _).1 hq).1
    obtain ⟨hfds', hdone'⟩ := ih (s.onReady fd) hs'
    refine ⟨fun x => ?_, fun t => ?_⟩
    · rw [List.foldl_cons, hfds', hfds, List.mem_cons, not_or, and_assoc]
    · rw [List.foldl_cons, hdone', hdone, or_assoc]
      refine or_congr_right ⟨?_, ?_⟩
      · rintro (⟨p, hp, ht⟩ | ⟨fd', p, hp, hready, ht⟩)
        · exact ⟨fd, p, hp, List.mem_cons_self, ht⟩
        · exact ⟨fd', p, ((hfds _).1 hp).1, List.mem_cons_of_mem _ hready, ht⟩
      · rintro ⟨fd', p, hp, hready, ht⟩
        by_cases heq : fd' = fd
        · exact Or.inl ⟨p, heq ▸ hp, ht⟩
        · exact Or.inr ⟨fd', p, (hfds _).2 ⟨hp, heq⟩,
            (List.mem_cons.1 hready).resolve_left heq, ht⟩

theorem waitWithPidfd_spec {h : History} {pids : List ℕ} {r : Lists}
    (hr : waitWithPidfd h.opened h.ready pids = some r) (t : WatchTarget) :
    (r.Done t ↔ ∃ i p, pids[i]? = some p ∧ h.Ended i ∧ WatchTarget.localPid p = t)
      ∧ (r.Left t ↔ ∃ i p, pids[i]? = some p ∧ ¬ h.Ended i ∧ WatchTarget.localPid p = t) := by
  simp only [waitWithPidfd, Option.bind_eq_bind, Option.bind_eq_some_iff] at hr
  obtain ⟨s, hs, hr⟩ := hr
  have hfds := mem_pidfds_openPidfds hs
  have hgone := mem_finished_openPidfds hs t
  have hopen := fun i p => @opened_openPidfds h.opened pids 0 s hs i p
  simp only [Nat.zero_add] at hfds hgone hopen
  have hunique : ∀ fd p q, (fd, p) ∈ s.pidfds → (fd, q) ∈ s.pidfds → p = q := by
    intro fd p q hp hq
    obtain ⟨i, p', hi, rfl, rfl, -⟩ := (hfds _ _).1 hp
    obtain ⟨j, q', hj, rfl, rfl, -⟩ := (hfds _ _).1 hq
    exact Option.some.inj (hi.symm.trans hj)
  obtain ⟨hleft, hdone⟩ := foldl_onReady_spec h.ready s hunique
  have hlists : (r.Done t ↔ (∃ l ∈ s.finished, l.target = t)
        ∨ ∃ fd p, (fd, p) ∈ s.pidfds ∧ fd ∈ h.ready ∧ WatchTarget.localPid p = t)
      ∧ (r.Left t ↔ ∃ fd p, (fd, p) ∈ s.pidfds ∧ fd ∉ h.ready ∧ WatchTarget.localPid p = t) := by
    split at hr
    · next hnil =>
      cases hr
      simp [Lists.Done, Lists.Left, hnil]
    · cases hr
      refine ⟨hdone t, ?_⟩
      simp [Lists.Left, localLabel, hleft, and_assoc]
  rw [hlists.1, hlists.2, hgone]
  constructor
  · constructor
    · rintro (⟨i, p, hp, ho, ht⟩ | ⟨fd, p, hmem, hready, ht⟩)
      · exact ⟨i, p, hp, Or.inl ho, ht⟩
      · obtain ⟨i, p', hp, rfl, rfl, -⟩ := (hfds _ _).1 hmem
        exact ⟨fd, p, hp, Or.inr hready, ht⟩
    · rintro ⟨i, p, hp, hended, ht⟩
      rcases hopen i p hp with ho | ho
      · have hready : i ∈ h.ready := hended.resolve_left (by simp [ho])
        exact Or.inr ⟨i, p, (hfds _ _).2 ⟨i, p, hp, rfl, rfl, ho⟩, hready, ht⟩
      · exact Or.inl ⟨i, p, hp, ho, ht⟩
  · constructor
    · rintro ⟨fd, p, hmem, hready, ht⟩
      obtain ⟨i, p', hp, rfl, rfl, ho⟩ := (hfds _ _).1 hmem
      refine ⟨fd, p, hp, ?_, ht⟩
      simp [History.Ended, ho, hready]
    · rintro ⟨i, p, hp, hended, ht⟩
      obtain ⟨hngone, hnready⟩ := not_or.1 hended
      have ho := (hopen i p hp).resolve_right hngone
      exact ⟨i, p, (hfds _ _).2 ⟨i, p, hp, rfl, rfl, ho⟩, hnready, ht⟩

theorem waitWithPidfd_covers {h : History} {pids : List ℕ} {r : Lists}
    (hr : waitWithPidfd h.opened h.ready pids = some r) :
    r.Covers fun t => ∃ p ∈ pids, WatchTarget.localPid p = t := by
  intro t
  obtain ⟨hdone, hleft⟩ := waitWithPidfd_spec hr t
  rw [hdone, hleft]
  constructor
  · rintro (⟨i, p, hp, -, ht⟩ | ⟨i, p, hp, -, ht⟩)
    · exact ⟨p, List.mem_of_getElem? hp, ht⟩
    · exact ⟨p, List.mem_of_getElem? hp, ht⟩
  · rintro ⟨p, hp, ht⟩
    obtain ⟨i, hi⟩ := List.mem_iff_getElem?.1 hp
    by_cases hended : h.Ended i
    · exact Or.inl ⟨i, p, hi, hended, ht⟩
    · exact Or.inr ⟨i, p, hi, hended, ht⟩

theorem waitWithPidfd_apart_iff {h : History} {pids : List ℕ} {r : Lists}
    (hr : waitWithPidfd h.opened h.ready pids = some r) : r.Apart ↔ h.Agrees pids := by
  constructor
  · intro hapart i j pid hi hj hended
    by_contra hnot
    obtain ⟨hdone, hleft⟩ := waitWithPidfd_spec hr (.localPid pid)
    exact hapart _ (hdone.2 ⟨i, pid, hi, hended, rfl⟩) (hleft.2 ⟨j, pid, hj, hnot, rfl⟩)
  · intro hagrees t hd hl
    obtain ⟨hdone, hleft⟩ := waitWithPidfd_spec hr t
    obtain ⟨i, p, hi, hended, rfl⟩ := hdone.1 hd
    obtain ⟨j, q, hj, hnot, heq⟩ := hleft.1 hl
    cases heq
    exact hnot (hagrees i j p hi hj hended)

/-! ### Targets that are watched until they end -/

/-- **Every target is watched or finished, and not both.** -/
structure Sorts (P watched : WatchTarget → Prop) (finished : List Label) : Prop where
  covers : ∀ t, P t ↔ watched t ∨ ∃ l ∈ finished, l.target = t
  apart : ∀ t, watched t → ∀ l ∈ finished, l.target ≠ t

section Sorts

variable {P watched : WatchTarget → Prop} {finished : List Label}

theorem Sorts.start (h : ∀ t, P t ↔ watched t) : Sorts P watched [] :=
  ⟨fun t => by simp [h t], by simp⟩

theorem Sorts.finish (h : Sorts P watched finished) {l : Label} (hl : P l.target)
    {watched' : WatchTarget → Prop} (hw : ∀ t, watched' t ↔ watched t ∧ t ≠ l.target) :
    Sorts P watched' (finished ++ [l]) := by
  refine ⟨fun t => ?_, fun t ht l' hl' => ?_⟩
  · rw [hw]
    simp only [List.mem_append, List.mem_singleton, or_and_right, exists_or, exists_eq_left]
    by_cases heq : t = l.target
    · subst heq
      simp [hl]
    · simp [h.covers t, heq, Ne.symm heq]
  · rcases List.mem_append.1 hl' with hmem | hmem
    · exact h.apart t ((hw t).1 ht).1 l' hmem
    · rw [List.mem_singleton.1 hmem]
      exact ((hw t).1 ht).2.symm

theorem Sorts.report {r : Lists} (h : Sorts P watched r.finished)
    (hleft : ∀ t, r.Left t ↔ watched t) : r.Covers P ∧ r.Apart := by
  refine ⟨fun t => ?_, fun t => ?_⟩
  · rw [hleft, h.covers t, or_comm]
    rfl
  · rintro ⟨l, hl, rfl⟩ hw
    exact h.apart _ ((hleft _).1 hw) l hl rfl

end Sorts

/-! ### Processes of other hosts -/

/-- A pid is still watched. -/
def Remote.Watched (s : Remote) (t : WatchTarget) : Prop :=
  ∃ target ∈ probesOf s.remaining, WatchTarget.remotePid target.1 target.2 = t

theorem mem_probesOf {remaining : List (String × List ℕ)} {host : String} {pid : ℕ} :
    (host, pid) ∈ probesOf remaining ↔ ∃ pids, (host, pids) ∈ remaining ∧ pid ∈ pids := by
  simp [probesOf]

theorem mem_probesOf_discard {host host' : String} {pid pid' : ℕ}
    {remaining : List (String × List ℕ)} :
    (host', pid') ∈ probesOf (discard host pid remaining)
      ↔ (host', pid') ∈ probesOf remaining ∧ (host', pid') ≠ (host, pid) := by
  simp only [mem_probesOf, discard, List.mem_filterMap]
  constructor
  · rintro ⟨pids, ⟨⟨k, vs⟩, hmem, hif⟩, hpid⟩
    dsimp only at hif
    split_ifs at hif with hk hleft
    · cases hif
      obtain ⟨hin, hne⟩ := List.mem_filter.1 hpid
      refine ⟨⟨vs, hmem, hin⟩, fun heq => ?_⟩
      simp [(Prod.mk.inj heq).2] at hne
    · cases hif
      exact ⟨⟨pids, hmem, hpid⟩, fun heq => hk (Prod.mk.inj heq).1⟩
  · rintro ⟨⟨vs, hmem, hpid⟩, hne⟩
    by_cases hk : host' = host
    · have hin : pid' ∈ vs.filter (· ≠ pid) := by
        refine List.mem_filter.2 ⟨hpid, ?_⟩
        simpa [hk] using hne
      refine ⟨vs.filter (· ≠ pid), ⟨(host', vs), hmem, ?_⟩, hin⟩
      dsimp only
      rw [if_pos hk, if_neg (List.ne_nil_of_mem hin)]
    · exact ⟨vs, ⟨(host', vs), hmem, if_neg hk⟩, hpid⟩

theorem Remote.sorts_onStatus {P : WatchTarget → Prop} {s : Remote}
    (hs : Sorts P s.Watched s.finished) (probe : String → ℕ → ProbeRun) {target : String × ℕ}
    (hin : P (.remotePid target.1 target.2)) :
    Sorts P (s.onStatus probe target).Watched (s.onStatus probe target).finished := by
  unfold Remote.onStatus
  cases sshProbePid (probe target.1 target.2) with
  | alive => exact hs
  | error => exact hs
  | dead =>
    refine hs.finish hin fun t => ?_
    constructor
    · rintro ⟨⟨host, pid⟩, hmem, rfl⟩
      obtain ⟨hmem, hne⟩ := mem_probesOf_discard.1 hmem
      refine ⟨⟨(host, pid), hmem, rfl⟩, fun heq => hne ?_⟩
      cases heq
      rfl
    · rintro ⟨⟨⟨host, pid⟩, hmem, rfl⟩, hne⟩
      refine ⟨(host, pid), mem_probesOf_discard.2 ⟨hmem, fun heq => hne ?_⟩, rfl⟩
      cases heq
      rfl

theorem sorts_foldl_onStatus {P : WatchTarget → Prop} (probe : String → ℕ → ProbeRun)
    (targets : List (String × ℕ)) (hin : ∀ target ∈ targets, P (.remotePid target.1 target.2))
    (s : Remote) (hs : Sorts P s.Watched s.finished) :
    Sorts P (targets.foldl (Remote.onStatus probe) s).Watched
      (targets.foldl (Remote.onStatus probe) s).finished := by
  induction targets generalizing s with
  | nil => exact hs
  | cons target rest ih =>
    exact ih (fun t ht => hin t (List.mem_cons_of_mem _ ht)) _
      (s.sorts_onStatus hs probe (hin target List.mem_cons_self))

theorem sorts_probeRemaining {P : WatchTarget → Prop} (probe : String → ℕ → ProbeRun) (s : Remote)
    (hs : Sorts P s.Watched s.finished) :
    Sorts P (probeRemaining probe s).Watched (probeRemaining probe s).finished :=
  sorts_foldl_onStatus probe _ (fun target ht => (hs.covers _).2 (Or.inl ⟨target, ht, rfl⟩)) s hs

theorem Remote.report_spec {P : WatchTarget → Prop} {s : Remote}
    (hs : Sorts P s.Watched s.finished) : s.report.Covers P ∧ s.report.Apart := by
  refine Sorts.report (r := s.report) hs fun t => ?_
  simp [Lists.Left, Remote.report, Remote.Watched, remoteLabel]

theorem remoteLoop_spec {P : WatchTarget → Prop} {fireAt : ℤ} {rounds : List RemoteRound}
    {s : Remote} {r : Lists} (hs : Sorts P s.Watched s.finished)
    (h : remoteLoop fireAt s rounds = some r) : r.Covers P ∧ r.Apart := by
  induction rounds generalizing s with
  | nil => simp [remoteLoop] at h
  | cons round rest ih =>
    have hprobed := sorts_probeRemaining round.probe s hs
    simp only [remoteLoop] at h
    split_ifs at h
    · exact Option.some.inj h ▸ Remote.report_spec hs
    · exact Option.some.inj h ▸ Remote.report_spec hs
    · exact Option.some.inj h ▸ Remote.report_spec hprobed
    · exact ih hprobed h

theorem waitWithRemoteProbe_spec {fireAt : ℤ} {rounds : List RemoteRound}
    {targets : List (String × ℕ)} {r : Lists}
    (h : waitWithRemoteProbe fireAt rounds targets = some r) :
    (r.Covers fun t => ∃ target ∈ targets, WatchTarget.remotePid target.1 target.2 = t)
      ∧ r.Apart := by
  refine remoteLoop_spec (Sorts.start fun t => ?_) h
  have hmem : ∀ host pid, (host, pid) ∈ probesOf (collect Prod.fst (fun t => insertNew t.2) targets)
      ↔ (host, pid) ∈ targets := by
    intro host pid
    rw [mem_probesOf, mem_collect_insertNew]
    simp
  simp [Remote.Watched, Prod.exists, hmem]

/-! ### Jobs of a cluster -/

/-- A job is still watched. -/
def Sacct.Watched (host : Option String) (s : Sacct) (t : WatchTarget) : Prop :=
  ∃ jobId ∈ s.remaining, WatchTarget.slurmJob host jobId = t

theorem mem_sorted {jobId : ℕ} {ids : List ℕ} : jobId ∈ sorted ids ↔ jobId ∈ ids :=
  List.mem_insertionSort _

theorem Sacct.sorts_onRow {P : WatchTarget → Prop} {host : Option String} {s : Sacct}
    (hs : Sorts P (s.Watched host) s.finished) (states : States) {jobId : ℕ}
    (hin : P (.slurmJob host jobId)) :
    Sorts P ((s.onRow host states jobId).Watched host) (s.onRow host states jobId).finished := by
  unfold Sacct.onRow
  split
  · exact hs
  · next state exitCode _ =>
    by_cases hactive : stateKey state ∈ slurmActiveStates
    · rwa [if_pos hactive]
    · rw [if_neg hactive]
      by_cases hterminal : stateKey state ∉ slurmTerminalStates
      · rwa [if_pos hterminal]
      rw [if_neg hterminal]
      refine @Sorts.finish P _ _ hs (stateLabel host jobId state exitCode) hin _ fun t => ?_
      simp only [Sacct.Watched, stateLabel, List.mem_filter, decide_eq_true_eq]
      constructor
      · rintro ⟨id, ⟨hid, hne⟩, rfl⟩
        refine ⟨⟨id, hid, rfl⟩, fun heq => hne ?_⟩
        cases heq
        rfl
      · rintro ⟨⟨id, hid, rfl⟩, hne⟩
        exact ⟨id, ⟨hid, fun heq => hne (heq ▸ rfl)⟩, rfl⟩

theorem sorts_foldl_onRow {P : WatchTarget → Prop} {host : Option String} (states : States)
    (ids : List ℕ) (hin : ∀ id ∈ ids, P (.slurmJob host id)) (s : Sacct)
    (hs : Sorts P (s.Watched host) s.finished) :
    Sorts P ((ids.foldl (Sacct.onRow host states) s).Watched host)
      (ids.foldl (Sacct.onRow host states) s).finished := by
  induction ids generalizing s with
  | nil => exact hs
  | cons id rest ih =>
    exact ih (fun j hj => hin j (List.mem_cons_of_mem _ hj)) _
      (s.sorts_onRow hs states (hin id List.mem_cons_self))

theorem sorts_rows {P : WatchTarget → Prop} {host : Option String} (states : States) (s : Sacct)
    (hs : Sorts P (s.Watched host) s.finished) :
    Sorts P (((sorted s.remaining).foldl (Sacct.onRow host states) s).Watched host)
      ((sorted s.remaining).foldl (Sacct.onRow host states) s).finished :=
  sorts_foldl_onRow states _
    (fun id hid => (hs.covers _).2 (Or.inl ⟨id, mem_sorted.1 hid, rfl⟩)) s hs

theorem Sacct.report_spec {P : WatchTarget → Prop} {host : Option String} {s : Sacct}
    (hs : Sorts P (s.Watched host) s.finished) (label : ℕ → Label)
    (hlabel : ∀ id, (label id).target = .slurmJob host id) :
    Lists.Covers ⟨s.finished, (sorted s.remaining).map label⟩ P
      ∧ Lists.Apart ⟨s.finished, (sorted s.remaining).map label⟩ := by
  refine Sorts.report (r := ⟨s.finished, (sorted s.remaining).map label⟩) hs fun t => ?_
  simp [Lists.Left, Sacct.Watched, hlabel, mem_sorted]

theorem sacctLoop_spec {py : Python} {P : WatchTarget → Prop} {fireAt : ℤ} {host : Option String}
    {rounds : List SacctRound} {s : Sacct} {lastSuccess : ℤ} {r : Lists}
    (hs : Sorts P (s.Watched host) s.finished)
    (h : sacctLoop py fireAt host s lastSuccess rounds = some r) : r.Covers P ∧ r.Apart := by
  induction rounds generalizing s lastSuccess with
  | nil => simp [sacctLoop] at h
  | cons round rest ih =>
    simp only [sacctLoop, Option.bind_eq_bind, Option.bind_eq_some_iff] at h
    obtain ⟨probe, -, h⟩ := h
    cases hun : unreachable host lastSuccess round probe.error with
    | some dark =>
      simp only [hun, Option.some.injEq] at h
      exact h ▸ Sacct.report_spec hs _ fun _ => rfl
    | none =>
      have hread := sorts_rows probe.states s hs
      simp only [hun] at h
      by_cases hover : ((sorted s.remaining).foldl (Sacct.onRow host probe.states) s).remaining = []
          ∨ fireAt ≤ round.checked
      · rw [if_pos hover] at h
        exact Option.some.inj h ▸ Sacct.report_spec hread _ fun _ => rfl
      · rw [if_neg hover] at h
        exact ih hread h

theorem waitSacctGroup_spec {py : Python} {fireAt : ℤ} {sacctAvailable : Bool}
    {host : Option String} {history : SacctHistory} {jobIds : List ℕ} {r : Lists}
    (h : waitSacctGroup py fireAt sacctAvailable host history jobIds = some r) :
    (r.Covers fun t => ∃ id ∈ jobIds, WatchTarget.slurmJob host id = t) ∧ r.Apart := by
  have hstart : Sorts (fun t => ∃ id ∈ jobIds, WatchTarget.slurmJob host id = t)
      (Sacct.Watched host ⟨jobIds, []⟩) [] := Sorts.start fun _ => Iff.rfl
  unfold waitSacctGroup at h
  split_ifs at h
  · exact Option.some.inj h ▸ Sacct.report_spec hstart _ fun _ => rfl
  · exact sacctLoop_spec hstart h

def hostOf : WatchTarget → Option String
  | .slurmJob host _ => host
  | _ => none

theorem waitWithSacct_spec {py : Python} {fireAt : ℤ} {sacctAvailable : Bool}
    {history : Option String → SacctHistory} {targets : List (Option String × ℕ)} {r : Lists}
    (h : waitWithSacct py fireAt sacctAvailable history targets = some r) :
    (r.Covers fun t => ∃ target ∈ targets, WatchTarget.slurmJob target.1 target.2 = t)
      ∧ r.Apart := by
  have hkeys := fun host => mem_keys_collect (Prod.fst : Option String × ℕ → _)
    (fun t => insertNew t.2) host targets
  have hgroups := nodup_collect (Prod.fst : Option String × ℕ → _) (fun t => insertNew t.2) targets
  have hwait : ∀ host jobIds, (host, jobIds) ∈ collect Prod.fst (fun t => insertNew t.2) targets →
      ∀ r, waitSacctGroup py fireAt sacctAvailable host (history host) jobIds = some r →
        r.Covers fun t => (∃ target ∈ targets, WatchTarget.slurmJob target.1 target.2 = t)
          ∧ hostOf t = host := by
    intro host jobIds hmem r hr t
    have hids := @mem_group_iff _ _ _ _ _ _ Prod.snd _ _ _ hmem
    rw [(waitSacctGroup_spec hr).1 t]
    constructor
    · rintro ⟨id, hid, rfl⟩
      obtain ⟨target, ht, rfl, rfl⟩ := (hids id).1 hid
      exact ⟨⟨target, ht, rfl⟩, rfl⟩
    · rintro ⟨⟨target, ht, rfl⟩, rfl⟩
      exact ⟨target.2, (hids target.2).2 ⟨target, ht, rfl, rfl⟩, rfl⟩
  refine ⟨fun t => (gather_covers hwait h t).trans ⟨And.left, ?_⟩, ?_⟩
  · rintro ⟨target, ht, rfl⟩
    exact ⟨⟨target, ht, rfl⟩, (hkeys target.1).2 ⟨target, ht, rfl⟩⟩
  · exact (gather_apart_iff hgroups hwait h).2 fun host jobIds _ r hr => (waitSacctGroup_spec hr).2

/-! ### The report -/

theorem filterMap_group {β : Type} {f : WatchTarget → Option β} {k : WatchKind}
    (hf : ∀ t, kind t ≠ k → f t = none) (targets : List WatchTarget) :
    (targets.filter fun t => kind t = k).filterMap f = targets.filterMap f := by
  rw [List.filterMap_filter]
  refine List.filterMap_congr fun t _ => ?_
  by_cases hk : kind t = k
  · simp [hk]
  · simp [hk, hf t hk]

theorem exists_mem_filterMap {β : Type} {f : WatchTarget → Option β} {make : β → WatchTarget}
    {k : WatchKind} (hf : ∀ t b, f t = some b ↔ make b = t)
    (hk : ∀ t, kind t = k ↔ ∃ b, make b = t) (targets : List WatchTarget) (t : WatchTarget) :
    (∃ b ∈ targets.filterMap f, make b = t) ↔ t ∈ targets ∧ kind t = k := by
  constructor
  · rintro ⟨b, hb, rfl⟩
    obtain ⟨t, ht, hb⟩ := List.mem_filterMap.1 hb
    rw [(hf t b).1 hb]
    exact ⟨ht, (hk t).2 ⟨b, (hf t b).1 hb⟩⟩
  · rintro ⟨ht, hkind⟩
    obtain ⟨b, rfl⟩ := (hk t).1 hkind
    exact ⟨b, List.mem_filterMap.2 ⟨make b, ht, (hf _ _).2 rfl⟩, rfl⟩

theorem group_eq {k : WatchKind} {group targets : List WatchTarget}
    (h : (k, group) ∈ kindGroups targets) : group = targets.filter fun t => kind t = k := by
  have happend : ∀ ts vs : List WatchTarget, ts.foldl (fun vs t => vs ++ [t]) vs = vs ++ ts := by
    intro ts
    induction ts with
    | nil => simp
    | cons t rest ih => simp [ih]
  rw [valuesAt_of_mem (nodup_collect _ _ targets) h, valuesAt_collect, happend, List.nil_append]

/-- The loop of a kind has the targets of the kind; it has none of them twice, but where a pid of
this host is listed twice. -/
theorem subWaiter_spec {py : Python} {fireAt : ℤ} {h : History} {targets group : List WatchTarget}
    {k : WatchKind} (hgroup : (k, group) ∈ kindGroups targets) {r : Lists}
    (hr : subWaiter py fireAt h k group = some r) :
    (r.Covers fun t => t ∈ targets ∧ kind t = k)
      ∧ (r.Apart ↔ (k = .localPid → h.Agrees (targets.filterMap localPid?))) := by
  rw [group_eq hgroup] at hr
  cases k with
  | localPid =>
    rw [subWaiter, filterMap_group (fun t ht => by cases t <;> simp_all [kind, localPid?])] at hr
    have hmem := @exists_mem_filterMap _ localPid? .localPid .localPid
      (fun t b => by cases t <;> simp [localPid?, eq_comm]) (fun t => by cases t <;> simp [kind])
    exact ⟨fun t => (waitWithPidfd_covers hr t).trans (hmem targets t),
      by simp [waitWithPidfd_apart_iff hr]⟩
  | remotePid =>
    rw [subWaiter, filterMap_group (fun t ht => by cases t <;> simp_all [kind, remotePid?])] at hr
    obtain ⟨hcovers, hapart⟩ := waitWithRemoteProbe_spec hr
    have hmem := @exists_mem_filterMap _ remotePid? (fun b => .remotePid b.1 b.2)
      .remotePid (fun t b => by cases t <;> simp [remotePid?, Prod.ext_iff, eq_comm])
      (fun t => by cases t <;> simp [kind])
    exact ⟨fun t => (hcovers t).trans (hmem targets t), by simp [hapart]⟩
  | slurmJob =>
    rw [subWaiter, filterMap_group (fun t ht => by cases t <;> simp_all [kind, slurmJob?])] at hr
    obtain ⟨hcovers, hapart⟩ := waitWithSacct_spec hr
    have hmem := @exists_mem_filterMap _ slurmJob? (fun b => .slurmJob b.1 b.2)
      .slurmJob (fun t b => by cases t <;> simp [slurmJob?, Prod.ext_iff, eq_comm])
      (fun t => by cases t <;> simp [kind])
    exact ⟨fun t => (hcovers t).trans (hmem targets t), by simp [hapart]⟩

theorem mem_keys_kindGroups {k : WatchKind} {targets : List WatchTarget} :
    k ∈ (kindGroups targets).map Prod.fst ↔ ∃ t ∈ targets, kind t = k :=
  mem_keys_collect kind _ k targets

theorem kindGroups_ne_nil {targets : List WatchTarget} (h : targets ≠ []) :
    kindGroups targets ≠ [] := by
  obtain ⟨t, ht⟩ := List.exists_mem_of_ne_nil targets h
  have hkey := mem_keys_kindGroups.2 ⟨t, ht, rfl⟩
  exact fun hnil => by simp [hnil] at hkey

theorem existingWait_eq_some {py : Python} {fireAt : ℤ} {targets : List WatchTarget} {h : History}
    {report : Report} (hne : targets ≠ [])
    (hr : existingWait py fireAt targets h = some report) :
    gather (subWaiter py fireAt h) (kindGroups targets) = some report.toLists
      ∧ (report.reason = .completed ↔ report.stillAlive = []) := by
  simp only [existingWait, if_neg (kindGroups_ne_nil hne), Option.bind_eq_bind,
    Option.bind_eq_some_iff, Option.some.injEq] at hr
  obtain ⟨lists, hlists, rfl⟩ := hr
  refine ⟨hlists, ?_⟩
  dsimp only
  split_ifs with hnil <;> simp [hnil]

/-- **A report has every target it was asked for, and no others.** -/
theorem report_covers {py : Python} {fireAt : ℤ} {targets : List WatchTarget} {h : History}
    {report : Report} (hne : targets ≠ [])
    (hr : existingWait py fireAt targets h = some report) :
    report.Covers fun t => t ∈ targets := by
  obtain ⟨hgather, -⟩ := existingWait_eq_some hne hr
  have hcovers := @gather_covers _ _ _ kind (fun t => t ∈ targets) _ _
    (fun k group hmem r hr => (subWaiter_spec hmem hr).1) hgather
  refine fun t => (hcovers t).trans ⟨And.left, fun ht => ⟨ht, ?_⟩⟩
  exact mem_keys_kindGroups.2 ⟨t, ht, rfl⟩

theorem report_apart_iff {py : Python} {fireAt : ℤ} {targets : List WatchTarget} {h : History}
    {report : Report} (hne : targets ≠ [])
    (hr : existingWait py fireAt targets h = some report) :
    report.Apart ↔ h.Agrees (targets.filterMap localPid?) := by
  obtain ⟨hgather, -⟩ := existingWait_eq_some hne hr
  rw [@gather_apart_iff _ _ _ kind (fun t => t ∈ targets) _ _ (nodup_collect _ _ targets)
    (fun k group hmem r hr => (subWaiter_spec hmem hr).1) hgather]
  constructor
  · intro hall i j pid hi hj hended
    -- a pid is of a target, and so there is a loop for its kind
    obtain ⟨t, ht, hpid⟩ := List.mem_filterMap.1 (List.mem_of_getElem? hi)
    have hkind : kind t = .localPid := by cases t <;> simp_all [kind, localPid?]
    obtain ⟨⟨k, group⟩, hmem, rfl⟩ := List.mem_map.1 (mem_keys_kindGroups.2 ⟨t, ht, hkind⟩)
    obtain ⟨r, hr⟩ := exists_of_gather hgather hmem
    exact (subWaiter_spec hmem hr).2.1 (hall _ group hmem r hr) rfl i j pid hi hj hended
  · intro hagrees k group hmem r hr
    exact (subWaiter_spec hmem hr).2.2 fun _ => hagrees

/-- What a report is to say: every target is on one list, and the wait is completed when none is
left. -/
structure Report.Sorted (report : Report) (targets : List WatchTarget) : Prop where
  onOne : ∀ t ∈ targets, Xor (report.Done t) (report.Left t)
  reason : report.reason = .completed ↔ report.stillAlive = []

/-- **A report has every target on one list exactly when no pid of this host is listed at two
places of which one ended and the other did not.** -/
theorem sorted_iff (py : Python) (fireAt : ℤ) (targets : List WatchTarget) (h : History)
    (report : Report) (hne : targets ≠ [])
    (hr : existingWait py fireAt targets h = some report) :
    report.Sorted targets ↔ h.Agrees (targets.filterMap localPid?) := by
  have hxor := (report_covers hne hr).xor_iff
  rw [← report_apart_iff hne hr, ← hxor]
  exact ⟨Report.Sorted.onOne, fun honOne => ⟨honOne, (existingWait_eq_some hne hr).2⟩⟩

/-- What a report is made with where only pids of this host are watched. -/
def localOnly (opened : ℕ → Opened) (ready : List ℕ) : History :=
  ⟨opened, ready, [], false, fun _ => ⟨0, []⟩⟩

def ascii : Python where
  isdigit c := '0' ≤ c && c ≤ '9'
  int s := some (s.foldl (fun n c => 10 * n + (c.toNat - 48)) 0)

/-- Two processes, one of which ends. -/
theorem sorted_two :
    existingWait ascii 100 [.localPid 5, .localPid 7] (localOnly (fun _ => .fd) [1])
        = some ⟨⟨[localLabel 7], [localLabel 5]⟩, .timeout⟩ ∧
      (Report.Sorted ⟨⟨[localLabel 7], [localLabel 5]⟩, .timeout⟩ [.localPid 5, .localPid 7]
        ↔ (localOnly (fun _ => .fd) [1]).Agrees [5, 7]) :=
  ⟨by decide, sorted_iff ascii 100 [.localPid 5, .localPid 7] (localOnly (fun _ => .fd) [1]) _
    (by decide) (by decide)⟩

/-- **A pid that is listed twice, gone at the first place and taken again at the second, is finished
and still alive.** -/
theorem not_sorted_reused :
    ¬ ∀ (py : Python) (fireAt : ℤ) (targets : List WatchTarget) (h : History) (report : Report),
      targets ≠ [] → existingWait py fireAt targets h = some report → report.Sorted targets := by
  intro hall
  have hsorted := hall ascii 100 [.localPid 5, .localPid 5]
    (localOnly (fun i => if i = 0 then .gone else .fd) [])
    ⟨⟨[goneLabel 5], [localLabel 5]⟩, .timeout⟩ (by decide) (by decide)
  rcases hsorted.onOne (.localPid 5) List.mem_cons_self with ⟨-, hnot⟩ | ⟨-, hnot⟩
  · exact hnot ⟨localLabel 5, List.mem_singleton.2 rfl, rfl⟩
  · exact hnot ⟨goneLabel 5, List.mem_singleton.2 rfl, rfl⟩

end WatchGroups
