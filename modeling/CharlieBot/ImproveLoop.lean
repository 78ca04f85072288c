import CharlieBot.Lib.Transition

/-!
# The improve loop and its lock

A session runs one improve loop at a time. A start creates the file
`active.lock`, which fails where it exists, then reserves a directory for the
loop and saves its state as `running`; the loop's task reads the state, creates
the worktree, runs one worker after another, saves how it ended and removes the
lock. A stop looks for a loop whose state is `running` and saves it as
`stopped`, and every iteration begins by reading whether it was.

The task and the stop each save the whole state from what they read some steps
before, so the one that saves last wins: a stop that falls into the creation of
the worktree is lost, and the loop goes on (`lost_stop`). Nor does the handler
of a cancellation save a state, and the reads before the `try` leave the lock
behind when they raise. Along the runs that **avoid these steps** the lock is
held exactly while one loop is live, a stop that returned true is final, and
every loop that is over left a terminal state (`lifecycle_of_run`).
-/

/-! ## The state file and the task -/

/-- `ImproveState.status`. -/
inductive ImproveStatus where
  | running
  | stopped
  | completed
  | failed
deriving DecidableEq, Repr

/-- `ImproveState`, the content of a loop's `state.json`. -/
structure ImproveState where
  status : ImproveStatus := .running
  baseBranch : Option String := none
deriving DecidableEq, Repr

/-- **Where a loop is**: the operation its task waits for. -/
inductive ImprovePhase where
  /- `reserve_loop_state`, once the lock was created. -/
  | reserveLoopDir
  | writeGoal
  | saveRunning
  | writeLock
  /-- `clear_active_loop_lock` of the reservation that raised. -/
  | clearReserved
  /-- The reservation is over, and there is no task. -/
  | abandoned
  /- `run_improve_loop` before its `try`. -/
  | requireState
  | mkdirLoop
  | readGoal
  | createWorktree
  | saveBase
  | saveWorktreeFailed
  | clearWorktreeFailed
  | notifyWorktreeFailed
  /- The iterations: the check of the state, what comes before the worker, the worker. -/
  | checkStopped (i : ℕ)
  | prepare (i : ℕ)
  | iterate (i : ℕ)
  /- After the iterations. -/
  | finalState (blocked : Bool)
  | saveFinal
  | land
  /- `except Exception`. -/
  | loadFailed
  | saveFailed
  | notifyFailed
  /-- `except asyncio.CancelledError`. -/
  | notifyCancelled
  /- `finally`. -/
  | clearLock
  | cleanUp
  | ended
deriving DecidableEq, Repr

/-- What had begun when a stop returned true. -/
structure StopMark where
  begun : List ℕ
  workers : List ℕ
deriving DecidableEq, Repr

/-- **A loop**, from the creation of the lock on. -/
structure ImproveLoop where
  iterations : ℕ
  /-- The task reserved the loop itself, and does not read the state anew. -/
  direct : Bool
  phase : ImprovePhase := .reserveLoopDir
  /-- `state.json`. -/
  file : Option ImproveState := none
  /-- The `state` of the task, which it saves. -/
  memory : ImproveState
  /-- The iterations that passed their check. -/
  begun : List ℕ := []
  /-- The iterations whose worker was spawned. -/
  workers : List ℕ := []
  /-- The stops of the loop that returned true. -/
  stops : List StopMark := []
deriving DecidableEq, Repr

/-- How an operation goes. A cancellation finds the operation done or not. -/
inductive ImproveOutcome where
  | ok
  /-- `git_create_worktree` gives the canonical name of the base. -/
  | worktree (canonical : String)
  /-- The worker of the iteration ran into its quota. -/
  | blocked
  | raised
  | cancelled (done : Bool)
deriving DecidableEq, Repr

namespace ImprovePhase

/-- The operation is `clear_active_loop_lock`. -/
def clears : ImprovePhase → Bool
  | clearReserved | clearWorktreeFailed | clearLock => true
  | _ => false

/-- The operation is `save_loop_state`. -/
def saves : ImprovePhase → Bool
  | saveRunning | saveBase | saveWorktreeFailed | saveFinal | saveFailed => true
  | _ => false

/-- **The loop is live**: it was reserved, and its lock is still to be removed. -/
def live : ImprovePhase → Bool
  | abandoned | notifyWorktreeFailed | cleanUp | ended => false
  | _ => true

/-- Where the task, or the request that reserves, goes on when it is cancelled. -/
def cancelled : ImprovePhase → Option ImprovePhase
  | reserveLoopDir | writeGoal | saveRunning | writeLock | clearReserved => some abandoned
  | checkStopped _ | prepare _ | iterate _ | finalState _ | saveFinal | land =>
    some notifyCancelled
  | loadFailed | saveFailed | notifyFailed | notifyCancelled => some clearLock
  | requireState | mkdirLoop | readGoal | createWorktree | saveBase | saveWorktreeFailed
  | clearWorktreeFailed | notifyWorktreeFailed | clearLock | cleanUp => some ended
  | abandoned | ended => none

end ImprovePhase

namespace ImproveLoop

variable (l : ImproveLoop)

def goto (phase : ImprovePhase) : ImproveLoop := { l with phase }

/-- The task takes a state as its own. -/
def take (state : ImproveState) : ImproveLoop := { l with memory := state }

/-- `save_loop_state` of the task. -/
def save : ImproveLoop := { l with file := some l.memory }

def setStatus (status : ImproveStatus) : ImproveLoop :=
  l.take { l.memory with status }

/-- The loop of the source: `for i in range(1, iterations + 1)`. -/
def nextIteration (i : ℕ) : ImproveLoop :=
  l.goto (if i ≤ l.iterations then .checkStopped i else .finalState false)

/-- The status that the loop ends with. -/
def finalStatus (blocked : Bool) (status : ImproveStatus) : ImproveStatus :=
  if blocked then .failed else if status = .stopped then .stopped else .completed

/-- The operation is done, and the task runs to the next. A read of a state that is not
there raises. -/
def ok : Option ImproveLoop :=
  match l.phase with
  | .reserveLoopDir => some (l.goto .writeGoal)
  | .writeGoal => some ((l.setStatus .running).goto .saveRunning)
  | .saveRunning => some (l.save.goto .writeLock)
  | .writeLock => some (l.goto (if l.direct then .mkdirLoop else .requireState))
  | .clearReserved => some (l.goto .abandoned)
  | .requireState => l.file.map fun state => (l.take state).goto .mkdirLoop
  | .mkdirLoop => some (l.goto .readGoal)
  | .readGoal => some (l.goto .createWorktree)
  | .saveBase => some (l.save.nextIteration 1)
  | .saveWorktreeFailed => some (l.save.goto .clearWorktreeFailed)
  | .clearWorktreeFailed => some (l.goto .notifyWorktreeFailed)
  | .notifyWorktreeFailed => some (l.goto .ended)
  | .checkStopped i => l.file.map fun state =>
    if state.status = .stopped then l.goto (.finalState false)
    else { l with phase := .prepare i, begun := l.begun ++ [i] }
  | .prepare i => some { l with phase := .iterate i, workers := l.workers ++ [i] }
  | .iterate i => some (l.nextIteration (i + 1))
  | .finalState blocked => l.file.map fun state =>
    (l.take { state with status := finalStatus blocked state.status }).goto .saveFinal
  | .saveFinal => some (l.save.goto .land)
  | .land => some (l.goto .clearLock)
  | .loadFailed =>
    match l.file with
    | none => some (l.goto .clearLock)
    | some state => some ((l.take { state with status := .failed }).goto .saveFailed)
  | .saveFailed => some (l.save.goto .notifyFailed)
  | .notifyFailed | .notifyCancelled => some (l.goto .clearLock)
  | .clearLock => some (l.goto .cleanUp)
  | .cleanUp => some (l.goto .ended)
  | .createWorktree | .abandoned | .ended => none

def raised : Option ImproveLoop :=
  match l.phase with
  | .reserveLoopDir | .writeGoal | .saveRunning | .writeLock => some (l.goto .clearReserved)
  | .clearReserved => some (l.goto .abandoned)
  | .createWorktree | .saveBase => some ((l.setStatus .failed).goto .saveWorktreeFailed)
  | .checkStopped _ | .prepare _ | .iterate _ | .finalState _ | .saveFinal | .land =>
    some (l.goto .loadFailed)
  | .loadFailed | .saveFailed | .notifyFailed | .notifyCancelled => some (l.goto .clearLock)
  | .requireState | .mkdirLoop | .readGoal | .saveWorktreeFailed | .clearWorktreeFailed
  | .notifyWorktreeFailed | .clearLock | .cleanUp => some (l.goto .ended)
  | .abandoned | .ended => none

/-- `save_loop_state` of a stop. -/
def saveStopped (state : ImproveState) : ImproveLoop :=
  { l with file := some { state with status := .stopped } }

/-- A stop of the loop returns true. -/
def mark : ImproveLoop := { l with stops := l.stops ++ [⟨l.begun, l.workers⟩] }

/-- One operation of the task. -/
def step : ImproveOutcome → Option ImproveLoop
  | .ok => l.ok
  | .worktree canonical =>
    match l.phase with
    | .createWorktree =>
      some ((l.take { l.memory with baseBranch := some canonical }).goto .saveBase)
    | _ => none
  | .blocked =>
    match l.phase with
    | .iterate _ => some (l.goto (.finalState true))
    | _ => none
  | .raised => l.raised
  | .cancelled done => l.phase.cancelled.map (if done && l.phase.saves then l.save else l).goto

/-- The operation removes the lock. -/
def clears : ImproveOutcome → Bool
  | .ok | .cancelled true => l.phase.clears
  | _ => false

end ImproveLoop

/-! ## A session -/

/-- Where `stop_improve_loop` is. -/
inductive StopCommand where
  /-- `find_running_loop` has the states of some loops to read. -/
  | scan (loops : List ℕ)
  /-- A running loop was found, and its state is to be saved. -/
  | found (i : ℕ) (state : ImproveState)
deriving DecidableEq, Repr

/-- **The improve loops of a session**, in the order in which they were started. -/
structure ImproveSession where
  /-- `active.lock` is there. -/
  lock : Bool := false
  loops : List ImproveLoop := []
  commands : ℕ → Option StopCommand := fun _ => none

inductive ImproveAction where
  /-- `reserve_loop_state` tries to create the lock. -/
  | start (iterations : ℕ) (direct : Bool) (baseBranch : Option String)
  | loop (i : ℕ) (outcome : ImproveOutcome)
  /-- `stop_improve_loop` lists the loops that have a state. -/
  | stop (k : ℕ)
  /-- `find_running_loop` reads the next state. -/
  | readStop (k : ℕ)
  /-- `stop_improve_loop` saves the state, and returns true. -/
  | saveStop (k : ℕ)
  /-- `stop_improve_loop` raises or is cancelled, its save being done or not. -/
  | leaveStop (k : ℕ) (done : Bool)
deriving DecidableEq, Repr

namespace ImproveSession

variable (s : ImproveSession)

def setLoop (i : ℕ) (l : ImproveLoop) : ImproveSession := { s with loops := s.loops.set i l }

def setCommand (k : ℕ) (command : Option StopCommand) : ImproveSession :=
  { s with commands := Function.update s.commands k command }

/-- `load_loop_state`. -/
def load (i : ℕ) : Option ImproveState := s.loops[i]?.bind (·.file)

/-- `_find_state_loop_ids_sync`. -/
def stateLoops : List ℕ := (List.range s.loops.length).filter fun i => (s.load i).isSome

/-- One read of `find_running_loop`. -/
def scanNext (i : ℕ) (rest : List ℕ) : StopCommand :=
  match s.load i with
  | some state => if state.status = .running then .found i state else .scan rest
  | none => .scan rest

def step : ImproveAction → Option ImproveSession
  | .start iterations direct baseBranch =>
    -- where the lock exists the start is refused
    if s.lock then some s
    else some { s with
      lock := true
      loops := s.loops ++ [{ iterations, direct, memory := { baseBranch } }] }
  | .loop i outcome => do
    let l ← s.loops[i]?
    let next ← l.step outcome
    some { s.setLoop i next with lock := s.lock && !l.clears outcome }
  | .stop k =>
    match s.commands k with
    | some _ => none
    | none => some (s.setCommand k (some (.scan s.stateLoops)))
  | .readStop k =>
    match s.commands k with
    | some (.scan []) => some (s.setCommand k none)
    | some (.scan (i :: rest)) => some (s.setCommand k (some (s.scanNext i rest)))
    | _ => none
  | .saveStop k =>
    match s.commands k with
    | some (.found i state) => do
      let l ← s.loops[i]?
      some ((s.setLoop i (l.saveStopped state).mark).setCommand k none)
    | _ => none
  | .leaveStop k done =>
    match s.commands k with
    | some (.found i state) => do
      let l ← s.loops[i]?
      some ((if done then s.setLoop i (l.saveStopped state) else s).setCommand k none)
    | some (.scan _) => some (s.setCommand k none)
    | none => none

def system : TransitionSystem ImproveSession ImproveAction := ⟨step⟩

end ImproveSession

namespace ImproveLoop

variable (l : ImproveLoop)

/-! ## What is claimed of a loop -/

/-- The state file holds a status that is final. -/
def Terminal : Prop := ∃ state ∈ l.file, state.status ≠ .running

def Stopped : Prop := ∃ state ∈ l.file, state.status = .stopped

/-- **A stop is final**: behind a stop that returned true no iteration begins, no worker is
spawned but that of an iteration that had begun, and when the loop is over its status
is `stopped`. -/
def StopIsFinal : Prop :=
  ∀ m ∈ l.stops, l.begun = m.begun ∧ (m.workers = m.begun → l.workers = m.workers) ∧
    (l.phase = .ended → l.Stopped)

/-- **A loop that is over left a final status.** A reservation that failed before the state
was saved has none. -/
def LeavesTerminal : Prop :=
  (l.phase = .ended → l.Terminal) ∧ (l.phase = .abandoned → l.file = none ∨ l.Terminal)

/-! ## The steps that are avoided -/

/-- **Where an operation may raise**: within the reservation up to the save of the state,
within the `try` when no stop has returned true, and where the final status is
saved. Not where nobody removes the lock. -/
def MayRaise : Prop :=
  match l.phase with
  | .reserveLoopDir | .writeGoal | .saveRunning => True
  | .createWorktree | .saveBase | .checkStopped _ | .prepare _ | .iterate _ | .finalState _
  | .saveFinal | .land => l.stops = []
  | .writeLock | .loadFailed | .saveFailed => l.Terminal
  | .notifyWorktreeFailed | .notifyFailed | .notifyCancelled | .cleanUp => True
  | _ => False

/-- **Where the task may be cancelled**: within the `try` and its handlers when the state
file holds a final status, or the save of one is done, and where the lock is removed. -/
def MayCancel (done : Bool) : Prop :=
  match l.phase with
  | .checkStopped _ | .prepare _ | .iterate _ | .finalState _ | .loadFailed => l.Terminal
  | .saveFinal | .saveFailed => done = true ∨ l.Terminal
  | .clearReserved | .clearWorktreeFailed | .clearLock => done = true
  | .land | .notifyWorktreeFailed | .notifyFailed | .notifyCancelled | .cleanUp => True
  | _ => False

/-- **Where a stop may save**: not while the task holds a state that it is going to save
and that does not say `stopped`, and not when the loop is bound to fail. -/
def MayStop : Prop :=
  match l.phase with
  | .writeLock => l.direct = false ∨ l.memory.status = .stopped
  | .mkdirLoop | .readGoal | .createWorktree | .saveBase | .saveFinal =>
    l.memory.status = .stopped
  | .saveWorktreeFailed | .finalState true | .loadFailed | .saveFailed => False
  | _ => True

/-- The condition on an operation of the task. -/
def May : ImproveOutcome → Prop
  | .ok | .worktree _ => True
  | .blocked => l.stops = []
  | .raised => l.MayRaise
  | .cancelled done => l.MayCancel done

/-! ## What holds of a loop -/

/-- The task's state tells of the stops that returned true. -/
def Copied : Prop := l.stops ≠ [] → l.memory.status = .stopped

/-- What is known of the state file and the task's state at each operation. -/
def At : ImprovePhase → Prop
  | .reserveLoopDir | .writeGoal => l.file = none
  | .saveRunning => l.file = none ∧ l.stops = []
  | .writeLock => l.file.isSome ∧ (l.direct = true → l.Copied)
  | .clearReserved | .abandoned => l.file = none ∨ l.Terminal
  | .requireState | .checkStopped _ | .prepare _ | .iterate _ | .finalState false => l.file.isSome
  | .mkdirLoop | .readGoal | .createWorktree | .saveBase => l.file.isSome ∧ l.Copied
  | .finalState true | .loadFailed => l.file.isSome ∧ l.stops = []
  | .saveWorktreeFailed | .saveFailed =>
    l.file.isSome ∧ l.stops = [] ∧ l.memory.status = .failed
  | .saveFinal => l.file.isSome ∧ l.Copied ∧ l.memory.status ≠ .running
  | .clearWorktreeFailed | .notifyWorktreeFailed | .land | .notifyFailed | .notifyCancelled
  | .clearLock | .cleanUp | .ended => l.Terminal

/-- The workers that were spawned are those of the iterations that began. -/
def Spawned : ImprovePhase → Prop
  | .prepare i => l.begun = l.workers ++ [i]
  | .loadFailed | .saveFailed | .notifyFailed | .notifyCancelled | .clearLock | .cleanUp
  | .ended => l.workers <+: l.begun
  | _ => l.begun = l.workers

/-- **What holds of a loop.** -/
structure Inv (l : ImproveLoop) : Prop where
  /-- What a stop found begun is all that began. -/
  marks : ∀ m ∈ l.stops, l.begun = m.begun ∧ m.workers <+: l.workers
  stopped : l.stops ≠ [] → l.Stopped
  file : l.At l.phase
  spawned : l.Spawned l.phase

variable {l} {l' : ImproveLoop}

theorem Stopped.terminal (h : l.Stopped) : l.Terminal := by
  obtain ⟨state, hfile, hstopped⟩ := h
  exact ⟨state, hfile, by rw [hstopped]; exact fun h => nomatch h⟩

theorem Terminal.isSome (h : l.Terminal) : l.file.isSome := by
  obtain ⟨state, hfile, -⟩ := h
  rw [Option.mem_def.mp hfile]
  rfl

theorem terminal_save (h : l.memory.status ≠ .running) : l.save.Terminal :=
  ⟨l.memory, rfl, h⟩

theorem Copied.stopped_save (h : l.Copied) (hstops : l.stops ≠ []) : l.save.Stopped :=
  ⟨l.memory, rfl, h hstops⟩

theorem copied_of_nil (h : l.stops = []) : l.Copied := fun hne => absurd h hne

theorem Spawned.workers_le {p : ImprovePhase} (h : l.Spawned p) : l.workers <+: l.begun := by
  cases p
  case prepare i => exact ⟨[i], Eq.symm h⟩
  case loadFailed | saveFailed | notifyFailed | notifyCancelled | clearLock | cleanUp | ended =>
    exact h
  all_goals exact ⟨[], (List.append_nil _).trans (Eq.symm h)⟩

theorem Inv.goto (h : l.Inv) {p : ImprovePhase} (hfile : l.At p) (hspawned : l.Spawned p) :
    (l.goto p).Inv :=
  ⟨h.marks, h.stopped, hfile, hspawned⟩

theorem Inv.take (h : l.Inv) {state : ImproveState} {p : ImprovePhase}
    (hfile : (l.take state).At p) (hspawned : l.Spawned p) : ((l.take state).goto p).Inv :=
  ⟨h.marks, h.stopped, hfile, hspawned⟩

theorem Inv.save (h : l.Inv) (hcopied : l.Copied) {p : ImprovePhase} (hfile : l.save.At p)
    (hspawned : l.Spawned p) : (l.save.goto p).Inv :=
  ⟨h.marks, hcopied.stopped_save, hfile, hspawned⟩

theorem Inv.stops_eq_nil (h : l.Inv) (hfile : ¬l.Stopped) : l.stops = [] :=
  Classical.byContradiction fun hne => hfile (h.stopped hne)

theorem Inv.stopIsFinal (h : l.Inv) : l.StopIsFinal := by
  intro m hm
  obtain ⟨hbegun, hworkers⟩ := h.marks m hm
  refine ⟨hbegun, fun hall => ?_, fun _ => h.stopped (List.ne_nil_of_mem hm)⟩
  have hle := h.spawned.workers_le
  rw [hbegun, ← hall] at hle
  exact hle.eq_of_length (Nat.le_antisymm hle.length_le hworkers.length_le)

theorem Inv.leavesTerminal (h : l.Inv) : l.LeavesTerminal := by
  refine ⟨fun hphase => ?_, fun hphase => ?_⟩
  all_goals
    have hfile := h.file
    rw [hphase] at hfile
    exact hfile

theorem at_nextIteration (h : l.file.isSome) (i : ℕ) :
    l.At (if i ≤ l.iterations then .checkStopped i else .finalState false) := by
  split <;> exact h

theorem spawned_nextIteration (h : l.begun = l.workers) (i : ℕ) :
    l.Spawned (if i ≤ l.iterations then .checkStopped i else .finalState false) := by
  split <;> exact h

/-- The status that a loop ends with is final, and is `stopped` for one that was not
blocked and whose state says so. -/
theorem finalStatus_ne_running (blocked : Bool) (status : ImproveStatus) :
    finalStatus blocked status ≠ .running := by
  unfold finalStatus
  split
  · exact fun h => nomatch h
  · split <;> exact fun h => nomatch h

theorem Inv.ok (h : l.Inv) (hstep : l.ok = some l') : l'.Inv := by
  have hfile := h.file
  have hspawned := h.spawned
  unfold ImproveLoop.ok at hstep
  split at hstep <;> rename_i hphase <;> rw [hphase] at hfile hspawned
  case h_1 =>
    cases hstep
    exact h.goto hfile hspawned
  case h_2 =>
    cases hstep
    refine h.take ⟨hfile, h.stops_eq_nil ?_⟩ hspawned
    rintro ⟨state, hstate, -⟩
    rw [show l.file = none from hfile] at hstate
    cases hstate
  case h_3 =>
    cases hstep
    exact h.save (copied_of_nil hfile.2) ⟨rfl, fun _ => copied_of_nil hfile.2⟩ hspawned
  case h_4 =>
    cases hstep
    split
    · next hdirect => exact h.goto ⟨hfile.1, hfile.2 hdirect⟩ hspawned
    · exact h.goto hfile.1 hspawned
  case h_5 =>
    cases hstep
    exact h.goto hfile hspawned
  case h_6 =>
    obtain ⟨state, hstate, rfl⟩ := Option.map_eq_some_iff.mp hstep
    refine h.take ⟨hfile, fun hstops => ?_⟩ hspawned
    -- the state that is read is the one that the stop saved
    obtain ⟨state', hstate', hstopped⟩ := h.stopped hstops
    rw [hstate] at hstate'
    cases hstate'
    exact hstopped
  case h_7 | h_8 =>
    cases hstep
    exact h.goto hfile hspawned
  case h_9 =>
    cases hstep
    refine h.save hfile.2 (at_nextIteration rfl 1) (spawned_nextIteration hspawned 1)
  case h_10 =>
    cases hstep
    refine h.save (copied_of_nil hfile.2.1) (terminal_save ?_) hspawned
    rw [hfile.2.2]
    exact fun h => nomatch h
  case h_11 =>
    cases hstep
    exact h.goto hfile hspawned
  case h_12 =>
    cases hstep
    exact h.goto hfile (show l.Spawned .notifyWorktreeFailed from hspawned).workers_le
  case h_13 i =>
    obtain ⟨state, hstate, hnext⟩ := Option.map_eq_some_iff.mp hstep
    split at hnext
    · subst hnext
      exact h.goto hfile hspawned
    · next hrunning =>
      subst hnext
      have hnone : l.stops = [] := h.stops_eq_nil <| by
        rintro ⟨state', hstate', hstopped⟩
        rw [hstate] at hstate'
        cases hstate'
        exact hrunning hstopped
      refine ⟨fun m hm => ?_, h.stopped, hfile, ?_⟩
      · rw [show l.stops = [] from hnone] at hm
        cases hm
      · show l.begun ++ [i] = l.workers ++ [i]
        rw [show l.begun = l.workers from hspawned]
  case h_14 i =>
    cases hstep
    exact ⟨fun m hm => ⟨(h.marks m hm).1, (h.marks m hm).2.trans (List.prefix_append _ _)⟩,
      h.stopped, hfile, hspawned⟩
  case h_15 i =>
    cases hstep
    exact h.goto (at_nextIteration hfile _) (spawned_nextIteration hspawned _)
  case h_16 blocked =>
    obtain ⟨state, hstate, rfl⟩ := Option.map_eq_some_iff.mp hstep
    refine h.take ⟨?_, fun hstops => ?_, finalStatus_ne_running blocked _⟩ ?_
    · show l.file.isSome
      rw [hstate]
      rfl
    · obtain ⟨state', hstate', hstopped⟩ := h.stopped hstops
      rw [hstate] at hstate'
      cases hstate'
      cases blocked with
      | true => exact absurd hfile.2 hstops
      | false =>
        show finalStatus false state.status = .stopped
        rw [hstopped]
        rfl
    · cases blocked <;> exact hspawned
  case h_17 =>
    cases hstep
    exact h.save hfile.2.1 (terminal_save hfile.2.2) hspawned
  case h_18 =>
    cases hstep
    exact h.goto hfile (show l.Spawned .land from hspawned).workers_le
  case h_19 =>
    split at hstep
    · next hnone =>
      have hsome : l.file.isSome := hfile.1
      rw [hnone] at hsome
      cases hsome
    · cases hstep
      exact h.take ⟨hfile.1, hfile.2, rfl⟩ hspawned
  case h_20 =>
    cases hstep
    refine h.save (copied_of_nil hfile.2.1) (terminal_save ?_) hspawned
    rw [hfile.2.2]
    exact fun h => nomatch h
  case h_21 | h_22 | h_23 | h_24 =>
    cases hstep
    exact h.goto hfile hspawned
  all_goals cases hstep

theorem Inv.worktree (h : l.Inv) {canonical : String} (hphase : l.phase = .createWorktree) :
    ((l.take { l.memory with baseBranch := some canonical }).goto .saveBase).Inv := by
  have hfile := h.file
  have hspawned := h.spawned
  rw [hphase] at hfile hspawned
  exact h.take hfile hspawned

/-- **An operation that raises where it may keeps the invariant.** -/
theorem Inv.raised (h : l.Inv) (hmay : l.MayRaise) (hstep : l.raised = some l') : l'.Inv := by
  have hfile := h.file
  have hspawned := h.spawned
  have hle := h.spawned.workers_le
  unfold MayRaise at hmay
  unfold ImproveLoop.raised at hstep
  split at hstep <;> rename_i hphase <;> rw [hphase] at hfile hspawned hmay <;> cases hstep
  case h_1 => exact h.goto (.inl hfile) hspawned
  case h_2 => exact h.goto (.inl hfile) hspawned
  case h_3 => exact h.goto (.inl hfile.1) hspawned
  case h_4 => exact h.goto (.inr hmay) hspawned
  case h_6 | h_7 => exact h.take ⟨hfile.1, hmay, rfl⟩ hspawned
  case h_8 | h_9 | h_10 => exact h.goto ⟨hfile, hmay⟩ hle
  case h_11 blocked =>
    refine h.goto ⟨?_, hmay⟩ hle
    cases blocked with
    | true => exact hfile.1
    | false => exact hfile
  case h_12 => exact h.goto ⟨hfile.1, hmay⟩ hle
  case h_13 => exact h.goto ⟨hfile.isSome, hmay⟩ hle
  case h_14 | h_15 => exact h.goto hmay hle
  case h_16 | h_17 | h_23 | h_25 => exact h.goto hfile hle
  all_goals exact hmay.elim

/-- **A cancellation where it may come keeps the invariant.** -/
theorem Inv.cancelled (h : l.Inv) {done : Bool} (hmay : l.MayCancel done)
    (hstep : l.step (.cancelled done) = some l') : l'.Inv := by
  have hfile := h.file
  have hspawned := h.spawned
  have hle := h.spawned.workers_le
  unfold MayCancel at hmay
  obtain ⟨p, hp, rfl⟩ := Option.map_eq_some_iff.mp hstep
  -- what is not a save changes the phase only
  have hplain : l.phase.saves = false → l.At p → l.Spawned p →
      ((if done && l.phase.saves then l.save else l).goto p).Inv := by
    intro hsaves hat hsp
    rw [hsaves, Bool.and_false]
    exact h.goto hat hsp
  cases hphase : l.phase <;> rw [hphase] at hfile hspawned hmay hp hplain <;> cases hp
  case checkStopped | prepare | iterate | finalState | loadFailed => exact hplain rfl hmay hle
  case land | notifyFailed | notifyCancelled | notifyWorktreeFailed | clearLock | cleanUp
      | clearWorktreeFailed =>
    exact hplain rfl hfile hle
  case clearReserved => exact hplain rfl hfile hspawned
  case saveFinal =>
    cases done with
    | true => exact h.save hfile.2.1 (terminal_save hfile.2.2) hle
    | false => exact h.goto (hmay.resolve_left (fun h => nomatch h)) hle
  case saveFailed =>
    cases done with
    | true =>
      refine h.save (copied_of_nil hfile.2.1) (terminal_save ?_) hle
      rw [hfile.2.2]
      exact fun h => nomatch h
    | false => exact h.goto (hmay.resolve_left (fun h => nomatch h)) hle
  all_goals exact hmay.elim

/-- **An operation that meets its condition keeps the invariant.** -/
theorem Inv.step (h : l.Inv) {outcome : ImproveOutcome} (hmay : l.May outcome)
    (hstep : l.step outcome = some l') : l'.Inv := by
  cases outcome with
  | ok => exact h.ok hstep
  | worktree canonical =>
    simp only [ImproveLoop.step] at hstep
    split at hstep
    · next hphase =>
      cases hstep
      exact h.worktree hphase
    · cases hstep
  | blocked =>
    have hfile := h.file
    have hspawned := h.spawned
    simp only [ImproveLoop.step] at hstep
    split at hstep
    · next hphase =>
      cases hstep
      rw [hphase] at hfile hspawned
      exact h.goto ⟨hfile, hmay⟩ hspawned
    · cases hstep
  | raised => exact h.raised hmay hstep
  | cancelled done => exact h.cancelled hmay hstep

theorem Inv.saveStopped (h : l.Inv) (hsome : l.file.isSome) (state : ImproveState) :
    (l.saveStopped state).Inv := by
  have hfile := h.file
  have hterminal : (l.saveStopped state).Terminal := Stopped.terminal ⟨_, rfl, rfl⟩
  refine ⟨h.marks, fun _ => ⟨_, rfl, rfl⟩, ?_, h.spawned⟩
  show (l.saveStopped state).At l.phase
  -- before the state is saved there is none that a stop could have read
  have hnone : l.file ≠ none := Option.isSome_iff_ne_none.mp hsome
  cases hphase : l.phase <;> rw [hphase] at hfile
  case reserveLoopDir | writeGoal => exact absurd hfile hnone
  case saveRunning => exact absurd hfile.1 hnone
  case writeLock | mkdirLoop | readGoal | createWorktree | saveBase | loadFailed | saveFinal
      | saveWorktreeFailed | saveFailed => exact ⟨rfl, hfile.2⟩
  case clearReserved | abandoned => exact .inr hterminal
  case requireState | checkStopped | prepare | iterate => rfl
  case finalState blocked =>
    cases blocked with
    | true => exact ⟨rfl, hfile.2⟩
    | false => rfl
  all_goals exact hterminal

theorem Inv.mark (h : l.Inv) (hmay : l.MayStop) (hstopped : l.Stopped) : l.mark.Inv := by
  have hfile := h.file
  have hterminal := hstopped.terminal
  refine ⟨fun m hm => ?_, fun _ => hstopped, ?_, h.spawned⟩
  · rcases List.mem_append.mp hm with hm | hm
    · exact h.marks m hm
    · rw [List.mem_singleton.mp hm]
      exact ⟨rfl, List.prefix_rfl⟩
  show l.mark.At l.phase
  unfold MayStop at hmay
  obtain ⟨state, hstate, -⟩ := hstopped
  have hsome : l.file ≠ none := fun hnone => by
    rw [hnone] at hstate
    cases hstate
  cases hphase : l.phase <;> rw [hphase] at hfile hmay
  case reserveLoopDir | writeGoal => exact absurd hfile hsome
  case saveRunning => exact absurd hfile.1 hsome
  case writeLock =>
    refine ⟨hfile.1, fun hdirect _ => hmay.resolve_left fun hnot => ?_⟩
    rw [show l.direct = true from hdirect] at hnot
    cases hnot
  case clearReserved | abandoned | requireState | checkStopped | prepare | iterate => exact hfile
  case mkdirLoop | readGoal | createWorktree | saveBase => exact ⟨hfile.1, fun _ => hmay⟩
  case saveFinal => exact ⟨hfile.1, fun _ => hmay, hfile.2.2⟩
  case finalState blocked =>
    cases blocked with
    | true => exact hmay.elim
    | false => exact hfile
  case saveWorktreeFailed | loadFailed | saveFailed => exact hmay.elim
  all_goals exact hfile

theorem file_of_ok (hstep : l.ok = some l') : l'.file = l.file ∨ l'.file = some l.memory := by
  unfold ImproveLoop.ok at hstep
  split at hstep
  case h_3 | h_9 | h_10 | h_17 | h_20 =>
    cases hstep
    exact .inr rfl
  case h_6 | h_16 =>
    obtain ⟨state, -, rfl⟩ := Option.map_eq_some_iff.mp hstep
    exact .inl rfl
  case h_13 =>
    obtain ⟨state, -, hnext⟩ := Option.map_eq_some_iff.mp hstep
    split at hnext <;> subst hnext <;> exact .inl rfl
  case h_19 => split at hstep <;> cases hstep <;> exact .inl rfl
  all_goals
    cases hstep
    try exact .inl rfl

theorem file_of_step {outcome : ImproveOutcome} (hstep : l.step outcome = some l') :
    l'.file = l.file ∨ l'.file = some l.memory := by
  cases outcome with
  | ok => exact file_of_ok hstep
  | worktree canonical | blocked =>
    simp only [ImproveLoop.step] at hstep
    split at hstep <;> cases hstep
    exact .inl rfl
  | raised =>
    simp only [ImproveLoop.step, ImproveLoop.raised] at hstep
    split at hstep <;> cases hstep <;> exact .inl rfl
  | cancelled done =>
    obtain ⟨p, -, rfl⟩ := Option.map_eq_some_iff.mp hstep
    cases done && l.phase.saves with
    | true => exact .inr rfl
    | false => exact .inl rfl

theorem isSome_of_step {outcome : ImproveOutcome} (hstep : l.step outcome = some l')
    (hsome : l.file.isSome) : l'.file.isSome := by
  rcases file_of_step hstep with hfile | hfile <;> rw [hfile]
  · exact hsome
  · rfl

theorem live_of_ok (hstep : l.ok = some l') :
    l'.phase.live = (l.phase.live && !l.phase.clears) := by
  unfold ImproveLoop.ok at hstep
  split at hstep <;> rename_i hphase <;> rw [hphase]
  case h_4 | h_9 | h_15 =>
    cases hstep
    show ImprovePhase.live (if _ then _ else _) = _
    split <;> rfl
  case h_6 | h_16 =>
    obtain ⟨state, -, rfl⟩ := Option.map_eq_some_iff.mp hstep
    rfl
  case h_13 =>
    obtain ⟨state, -, hnext⟩ := Option.map_eq_some_iff.mp hstep
    split at hnext <;> subst hnext <;> rfl
  case h_19 => split at hstep <;> cases hstep <;> rfl
  all_goals
    cases hstep
    try rfl

theorem live_of_cancelled {done : Bool} (hmay : l.MayCancel done)
    (hstep : l.step (.cancelled done) = some l') :
    l'.phase.live = (l.phase.live && !(done && l.phase.clears)) := by
  unfold MayCancel at hmay
  obtain ⟨p, hp, rfl⟩ := Option.map_eq_some_iff.mp hstep
  show p.live = _
  cases hphase : l.phase <;> rw [hphase] at hmay hp
  case clearReserved | clearWorktreeFailed | clearLock =>
    cases hp
    rw [hmay]
    rfl
  case notifyWorktreeFailed | cleanUp =>
    cases hp
    rfl
  case land | notifyFailed | notifyCancelled | checkStopped | prepare | iterate | finalState
      | loadFailed | saveFinal | saveFailed =>
    cases hp
    cases done <;> rfl
  case abandoned | ended => cases hp
  all_goals exact hmay.elim

/-- **A live loop ceases to be live in the step that removes its lock**, and in no other
where the step meets its condition. -/
theorem live_of_step {outcome : ImproveOutcome} (hmay : l.May outcome)
    (hstep : l.step outcome = some l') :
    l'.phase.live = (l.phase.live && !l.clears outcome) := by
  cases outcome with
  | ok => exact live_of_ok hstep
  | worktree canonical | blocked =>
    simp only [ImproveLoop.step] at hstep
    split at hstep <;> rename_i hphase <;> cases hstep
    rw [hphase]
    rfl
  | raised =>
    simp only [May, MayRaise] at hmay
    simp only [ImproveLoop.step, ImproveLoop.raised] at hstep
    split at hstep <;> rename_i hphase <;> rw [hphase] at hmay ⊢ <;> cases hstep
    all_goals first | exact hmay.elim | rfl
  | cancelled done =>
    rw [show l.clears (.cancelled done) = (done && l.phase.clears) by cases done <;> rfl]
    exact live_of_cancelled hmay hstep

theorem clears_live {outcome : ImproveOutcome} (h : l.clears outcome = true) :
    l.phase.live = true := by
  have hclears : l.phase.clears = true := by
    unfold ImproveLoop.clears at h
    split at h
    · exact h
    · exact h
    · cases h
  cases hphase : l.phase <;> rw [hphase] at hclears <;> first | rfl | cases hclears

end ImproveLoop

namespace ImproveSession

variable (s : ImproveSession)

/-! ## What is claimed of a session -/

/-- **The life of the loops of a session.** -/
structure Lifecycle : Prop where
  /-- The lock is held exactly while one loop is live, and never more than one is. -/
  lock : s.loops.countP (·.phase.live) = s.lock.toNat
  stops : ∀ l ∈ s.loops, l.StopIsFinal
  ends : ∀ l ∈ s.loops, l.LeavesTerminal

/-- The loop whose state a stop is going to save. -/
def target (k : ℕ) : Option ImproveLoop :=
  match s.commands k with
  | some (.found i _) => s.loops[i]?
  | _ => none

/-- **The step avoids what goes wrong**: an operation of a task raises or is cancelled, and
a stop saves, only where it may. -/
def Meets : ImproveAction → Prop
  | .loop i outcome => ∀ l ∈ s.loops[i]?, l.May outcome
  | .saveStop k => ∀ l ∈ s.target k, l.MayStop
  | _ => True

/-- **What holds of a session.** -/
structure Inv (s : ImproveSession) : Prop where
  loops : ∀ l ∈ s.loops, l.Inv
  lock : s.loops.countP (·.phase.live) = s.lock.toNat
  /-- A loop that a stop found has a state. -/
  found : ∀ k i state, s.commands k = some (.found i state) → (s.load i).isSome

variable {s} {s' : ImproveSession}

theorem inv_empty : Inv {} where
  loops _ h := absurd h List.not_mem_nil
  lock := rfl
  found _ _ _ h := nomatch h

theorem Inv.lifecycle (h : s.Inv) : s.Lifecycle :=
  ⟨h.lock, fun l hl => (h.loops l hl).stopIsFinal, fun l hl => (h.loops l hl).leavesTerminal⟩

/-- A state that a loop has stays in the list when another loop, or the same with a state,
is put into its place. -/
theorem load_setLoop {i : ℕ} {l next : ImproveLoop} (hl : s.loops[i]? = some l)
    (hsome : l.file.isSome → next.file.isSome) (j : ℕ) (h : (s.load j).isSome) :
    ((s.setLoop i next).load j).isSome := by
  unfold load setLoop at *
  rw [List.getElem?_set]
  split
  · next hij =>
    subst hij
    rw [hl] at h
    have hi : i < s.loops.length := (List.getElem?_eq_some_iff.mp hl).1
    rw [if_pos hi]
    exact hsome h
  · exact h

theorem Inv.setLoop (h : s.Inv) {i : ℕ} {l next : ImproveLoop} (hl : s.loops[i]? = some l)
    (hnext : next.Inv) (hsome : l.file.isSome → next.file.isSome) (clears : Bool)
    (hlive : next.phase.live = (l.phase.live && !clears))
    (hclears : clears = true → l.phase.live = true) :
    Inv { s.setLoop i next with lock := s.lock && !clears } := by
  obtain ⟨hi, hget⟩ := List.getElem?_eq_some_iff.mp hl
  have hmem : l ∈ s.loops := List.mem_of_getElem? hl
  refine ⟨fun m hm => ?_, ?_, fun k j state hk => load_setLoop hl hsome j (h.found k j state hk)⟩
  · rcases List.mem_or_eq_of_mem_set hm with hm | rfl
    · exact h.loops m hm
    · exact hnext
  · show (s.loops.set i next).countP _ = _
    rw [List.countP_set hi, hget, h.lock, hlive]
    cases clears with
    | true =>
      have hpos : 0 < s.loops.countP (·.phase.live) :=
        List.countP_pos_iff.mpr ⟨l, hmem, hclears rfl⟩
      rw [h.lock] at hpos
      rw [hclears rfl]
      cases hlock : s.lock with
      | true => rfl
      | false =>
        rw [hlock] at hpos
        cases hpos
    | false =>
      have hle : l.phase.live.toNat ≤ s.loops.countP (·.phase.live) := by
        cases hlive : l.phase.live with
        | true => exact List.countP_pos_iff.mpr ⟨l, hmem, hlive⟩
        | false => exact Nat.zero_le _
      rw [h.lock] at hle
      cases hlivel : l.phase.live <;> rw [hlivel] at hle <;> cases hlock : s.lock <;>
        rw [hlock] at hle <;> first | rfl | cases hle

theorem Inv.setCommand (h : s.Inv) (k : ℕ) {command : Option StopCommand}
    (hfound : ∀ i state, command = some (.found i state) → (s.load i).isSome) :
    (s.setCommand k command).Inv := by
  refine ⟨h.loops, h.lock, fun k' i state hk => ?_⟩
  have hupdate : Function.update s.commands k command k' = some (.found i state) := hk
  by_cases hsame : k' = k
  · rw [hsame, Function.update_self] at hupdate
    exact hfound i state hupdate
  · rw [Function.update_of_ne hsame] at hupdate
    exact h.found k' i state hupdate

theorem Inv.saveStop (h : s.Inv) {k i : ℕ} {state : ImproveState} {l next : ImproveLoop}
    (hk : s.commands k = some (.found i state)) (hl : s.loops[i]? = some l)
    (hnext : (l.saveStopped state).Inv → next.Inv) (hsome : next.file.isSome)
    (hphase : next.phase = l.phase) : Inv ((s.setLoop i next).setCommand k none) := by
  have hfile : l.file.isSome := by
    have hload := h.found k i state hk
    rw [load, hl] at hload
    exact hload
  have hinv := (h.loops l (List.mem_of_getElem? hl)).saveStopped hfile state
  have hset := h.setLoop hl (hnext hinv) (fun _ => hsome) false
    (by rw [hphase, Bool.not_false, Bool.and_true]) (fun h => nomatch h)
  rw [Bool.not_false, Bool.and_true] at hset
  exact hset.setCommand k fun _ _ h => nomatch h

/-- **A step that meets its condition keeps the invariant.** -/
theorem Inv.step (h : s.Inv) {a : ImproveAction} (hmeets : s.Meets a)
    (hstep : s.step a = some s') : s'.Inv := by
  cases a with
  | start iterations direct baseBranch =>
    simp only [ImproveSession.step] at hstep
    split at hstep <;> cases hstep
    · exact h
    · next hfree =>
      have hlock := h.lock
      rw [eq_false_of_ne_true hfree] at hlock
      refine ⟨fun l hl => ?_, ?_, fun k i state hk => ?_⟩
      · rcases List.mem_append.mp hl with hl | hl
        · exact h.loops l hl
        · rw [List.mem_singleton.mp hl]
          exact ⟨fun _ hm => absurd hm List.not_mem_nil, fun hne => absurd rfl hne, rfl, rfl⟩
      · rw [List.countP_append, hlock]
        rfl
      · have hload := h.found k i state hk
        unfold load at hload ⊢
        cases hget : s.loops[i]? with
        | none =>
          rw [hget] at hload
          cases hload
        | some l =>
          rw [hget] at hload
          rw [List.getElem?_append_left (List.getElem?_eq_some_iff.mp hget).1, hget]
          exact hload
  | loop i outcome =>
    obtain ⟨l, hl, hstep⟩ := Option.bind_eq_some_iff.mp hstep
    obtain ⟨next, hnext, hstep⟩ := Option.bind_eq_some_iff.mp hstep
    cases hstep
    have hmay := hmeets l hl
    exact h.setLoop hl ((h.loops l (List.mem_of_getElem? hl)).step hmay hnext)
      (ImproveLoop.isSome_of_step hnext) _ (ImproveLoop.live_of_step hmay hnext)
      ImproveLoop.clears_live
  | stop k =>
    simp only [ImproveSession.step] at hstep
    split at hstep <;> cases hstep
    exact h.setCommand k fun _ _ h => nomatch h
  | readStop k =>
    simp only [ImproveSession.step] at hstep
    split at hstep
    · cases hstep
      exact h.setCommand k fun _ _ h => nomatch h
    · next i rest hscan =>
      cases hstep
      refine h.setCommand k fun j state hfound => ?_
      have hnext := Option.some.inj hfound
      unfold scanNext at hnext
      split at hnext
      · next state' hload =>
        split at hnext <;> cases hnext
        rw [hload]
        rfl
      · cases hnext
    · cases hstep
  | saveStop k =>
    simp only [ImproveSession.step] at hstep
    split at hstep
    · next i state hk =>
      obtain ⟨l, hl, hstep⟩ := Option.bind_eq_some_iff.mp hstep
      cases hstep
      have htarget : l ∈ s.target k := by
        rw [target, hk]
        exact hl
      exact h.saveStop hk hl (fun hinv => hinv.mark (hmeets l htarget) ⟨_, rfl, rfl⟩) rfl rfl
    · cases hstep
  | leaveStop k done =>
    simp only [ImproveSession.step] at hstep
    split at hstep
    · next i state hk =>
      obtain ⟨l, hl, hstep⟩ := Option.bind_eq_some_iff.mp hstep
      cases hstep
      split
      · exact h.saveStop hk hl id rfl rfl
      · exact h.setCommand k fun _ _ h => nomatch h
    · cases hstep
      exact h.setCommand k fun _ _ h => nomatch h
    · cases hstep

/-- **The life of the loops** along the runs in which no operation raises or is cancelled,
and no stop saves, where it may not: the lock is held exactly while one loop is live,
a stop that returned true is final, and a loop that is over left a final status. -/
theorem lifecycle_of_run {as : List ImproveAction} (hrun : system.run {} as = some s)
    (hmeets : system.Guarded Meets {} as) : s.Lifecycle :=
  (system.run_invariant_of_guarded (fun _ _ _ h hmeets hstep => Inv.step h hmeets hstep)
    inv_empty hmeets hrun).lifecycle

instance (l : ImproveLoop) : Decidable l.Terminal := by
  unfold ImproveLoop.Terminal
  infer_instance

instance (l : ImproveLoop) : Decidable l.MayRaise := by
  unfold ImproveLoop.MayRaise
  cases l.phase <;> infer_instance

instance (l : ImproveLoop) (done : Bool) : Decidable (l.MayCancel done) := by
  unfold ImproveLoop.MayCancel
  cases l.phase <;> infer_instance

instance (l : ImproveLoop) : Decidable l.MayStop := by
  unfold ImproveLoop.MayStop
  split <;> infer_instance

instance (l : ImproveLoop) (outcome : ImproveOutcome) : Decidable (l.May outcome) := by
  cases outcome <;> unfold ImproveLoop.May <;> infer_instance

instance (s : ImproveSession) (a : ImproveAction) : Decidable (s.Meets a) := by
  cases a <;> unfold Meets <;> infer_instance

/-- A start of a loop of one iteration, up to the worktree. -/
def startRun : List ImproveAction :=
  .start 1 false (some "main") :: List.replicate 7 (.loop 0 .ok)

/-- A stop, from its scan to its answer. -/
def stopRun : List ImproveAction := [.stop 0, .readStop 0, .saveStop 0]

/-- A loop of two iterations is stopped in the first, a second start is refused while it is
live, and a third is taken when it is over. -/
def stoppedRun : List ImproveAction :=
  .start 2 false (some "main") :: .start 1 false none :: List.replicate 7 (.loop 0 .ok)
    ++ [.loop 0 (.worktree "main"), .loop 0 .ok, .loop 0 .ok, .loop 0 .ok] ++ stopRun
    ++ List.replicate 7 (.loop 0 .ok) ++ [.start 1 false none]

/-- In `stoppedRun` the first loop ends as `stopped` after one worker. -/
theorem lifecycle_of_stoppedRun : ∃ s, system.run {} stoppedRun = some s ∧
    s.loops.map (fun l => (l.phase, l.file.map (·.status), l.workers))
      = [(.ended, some .stopped, [1]), (.reserveLoopDir, none, [])] ∧ s.Lifecycle := by
  have hrun : (system.run {} stoppedRun).map
      (fun s => s.loops.map (fun l => (l.phase, l.file.map (·.status), l.workers)))
      = some [(.ended, some .stopped, [1]), (.reserveLoopDir, none, [])] := by decide +kernel
  obtain ⟨s, hs, hends⟩ := Option.map_eq_some_iff.mp hrun
  exact ⟨s, hs, hends,
    lifecycle_of_run hs (TransitionSystem.guarded_of_check (by decide +kernel))⟩

/-- The stop falls into the creation of the worktree. -/
def lostStopRun : List ImproveAction :=
  startRun ++ stopRun ++ [.loop 0 (.worktree "main"), .loop 0 .ok, .loop 0 .ok]

/-- The worker of the iteration is cancelled. -/
def cancelledRun : List ImproveAction :=
  startRun ++ [.loop 0 (.worktree "main"), .loop 0 .ok, .loop 0 .ok, .loop 0 .ok,
    .loop 0 (.cancelled false), .loop 0 .ok, .loop 0 .ok, .loop 0 .ok]

/-- The goal is not there when the task begins. -/
def goalMissingRun : List ImproveAction :=
  .start 1 false none :: List.replicate 6 (.loop 0 .ok) ++ [.loop 0 .raised]

/-- **A stop is lost** that falls into the creation of the worktree: an iteration begins
behind it. **A cancelled loop stays `running`**, and **a loop without a goal leaves the
lock behind**. -/
theorem lifecycle_broken :
    (∃ s, system.run {} lostStopRun = some s ∧ ¬s.Lifecycle) ∧
    (∃ s, system.run {} cancelledRun = some s ∧ ¬s.Lifecycle) ∧
    ∃ s, system.run {} goalMissingRun = some s ∧ ¬s.Lifecycle := by
  refine ⟨?_, ?_, ?_⟩
  · have hrun : (system.run {} lostStopRun).map
        (fun s => s.loops.map fun l => (l.begun, l.stops)) = some [([1], [⟨[], []⟩])] := by
      decide +kernel
    obtain ⟨s, hs, hends⟩ := Option.map_eq_some_iff.mp hrun
    obtain ⟨l, hloops, hl⟩ := List.map_eq_singleton_iff.mp hends
    obtain ⟨hbegun, hstops⟩ := Prod.mk.inj hl
    refine ⟨s, hs, fun hlife => ?_⟩
    have hfinal := hlife.stops l (hloops ▸ List.mem_singleton_self l)
    have hsame := (hfinal ⟨[], []⟩ (hstops ▸ List.mem_singleton_self _)).1
    rw [hbegun] at hsame
    cases hsame
  · have hrun : (system.run {} cancelledRun).map
        (fun s => s.loops.map fun l => (l.phase, l.file.map (·.status)))
        = some [(.ended, some .running)] := by decide +kernel
    obtain ⟨s, hs, hends⟩ := Option.map_eq_some_iff.mp hrun
    obtain ⟨l, hloops, hl⟩ := List.map_eq_singleton_iff.mp hends
    obtain ⟨hphase, hfile⟩ := Prod.mk.inj hl
    refine ⟨s, hs, fun hlife => ?_⟩
    have hleaves := hlife.ends l (hloops ▸ List.mem_singleton_self l)
    obtain ⟨state, hstate, hrunning⟩ := hleaves.1 hphase
    rw [Option.mem_def.mp hstate] at hfile
    exact hrunning (Option.some.inj hfile)
  · have hrun : (system.run {} goalMissingRun).map (fun s => (s.lock, s.loops.map (·.phase)))
        = some (true, [.ended]) := by decide +kernel
    obtain ⟨s, hs, hends⟩ := Option.map_eq_some_iff.mp hrun
    obtain ⟨hlock, hphases⟩ := Prod.mk.inj hends
    obtain ⟨l, hloops, hphase⟩ := List.map_eq_singleton_iff.mp hphases
    refine ⟨s, hs, fun hlife => ?_⟩
    have hcount := hlife.lock
    rw [hlock, hloops, List.countP_singleton, hphase] at hcount
    cases hcount

end ImproveSession
