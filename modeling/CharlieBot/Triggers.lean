import CharlieBot.Lib.Transition
import Mathlib.Data.List.Pairwise

/-!
# Triggers

A trigger is a file that says when a session is to be woken. A task waits for
it, reads the file again, delivers the event and writes the file a second
time, as fired; a cancellation reads the file and writes it as cancelled, and
stops the task when it has. Neither takes a lock, every write lands some
time after it was asked for, and a restart falls anywhere.

A trigger's status is meant to be settled once: cancelled triggers deliver
nothing and fired ones deliver once. Along every run in which **nothing comes
between the delivery and the second write**, and nothing is delivered that was
cancelled, this is so (`settled_of_guarded`). The two halves of a fire are not
one step, though, and a cancellation that comes in between leaves a cancelled
trigger that was delivered (`cancelled_delivered`).
-/

/-! ## Records -/

inductive TriggerStatus where
  | pending
  | fired
  | cancelled
  deriving DecidableEq

/-- What a trigger waits for. -/
inductive WatchTarget where
  | localPid (pid : ℕ)
  | remotePid (host : String) (pid : ℕ)
  | slurmJob (host : Option String) (jobId : ℕ)
  deriving DecidableEq

/-- Why a trigger fires. -/
inductive FireReason where
  | completed
  | timeout
  deriving DecidableEq

/-- **A trigger's record.** -/
structure PendingTrigger where
  sessionId : String
  message : String
  /-- What is waited for, besides the time. -/
  watchTargets : List WatchTarget := []
  status : TriggerStatus := .pending
  firedAt : Option ℕ := none
  fireReason : Option FireReason := none
  deriving DecidableEq

/-- What the wait comes back with. -/
structure WaitResult where
  /-- Why it ended. -/
  reason : FireReason
  finished : List String
  stillAlive : List String
  deriving DecidableEq

def FireReason.text : FireReason → String
  | .completed => "completed"
  | .timeout => "timeout"

def formatSuffix (result : WaitResult) : String :=
  let finishedPart := ", ".intercalate result.finished
  let alivePart := ", ".intercalate result.stillAlive
  match result.reason with
  | .completed => " (finished: " ++ finishedPart ++ ")"
  | .timeout =>
    if finishedPart = "" then " (still alive: " ++ alivePart ++ ")"
    else " (finished: " ++ finishedPart ++ "; still alive: " ++ alivePart ++ ")"

/-- The text of the event. -/
def triggerMessage (fresh : PendingTrigger) (result : WaitResult) : String :=
  if fresh.watchTargets = [] then "[Scheduled trigger fired] " ++ fresh.message
  else "[Scheduled trigger fired | " ++ result.reason.text ++ "] " ++ fresh.message
    ++ formatSuffix result

/-- The record of a trigger that is given up. -/
def PendingTrigger.cancel (trigger : PendingTrigger) : PendingTrigger :=
  { trigger with status := .cancelled }

def PendingTrigger.fire (trigger : PendingTrigger) (now : ℕ) (reason : FireReason) :
    PendingTrigger :=
  { trigger with status := .fired, firedAt := some now, fireReason := some reason }

/-! ## Calls in progress -/

abbrev TriggerId := String

inductive CreateOp where
  /-- The write is asked for; its caller may be gone. -/
  | saving (trigger : PendingTrigger) (callerGone : Bool)
  /-- It landed; the task is not started. -/
  | saved (trigger : PendingTrigger)

inductive CancelOp where
  /-- The record was read, and its write is asked for. -/
  | saving (tid : TriggerId) (record : PendingTrigger) (callerGone : Bool)
  /-- It landed; the task is not stopped. -/
  | saved (tid : TriggerId)

/-- Where a trigger's task is. -/
inductive Waiter where
  | waiting
  /-- The record was read again. -/
  | reloaded (fresh : PendingTrigger) (result : WaitResult)
  /-- The session's successors were looked up. -/
  | resolved (fresh : PendingTrigger) (result : WaitResult)
  /-- The last of them is there to be woken. -/
  | deliverable (fresh : PendingTrigger) (result : WaitResult)
  /-- The event is delivered; the master is being woken. -/
  | delivered (fresh : PendingTrigger) (result : WaitResult)
  /-- The last write is asked for; the task may be gone. -/
  | saving (record : PendingTrigger) (taskGone : Bool)
  | saved

/-- An event in a session. -/
structure TriggerDelivery where
  tailId : String
  message : String

inductive DeliverResult where
  | delivered (tailId : String)
  /-- The session at the end of the chain is gone. -/
  | missing
  /-- It failed, before the event was there or behind it. -/
  | raised (persisted : Option String)
  deriving DecidableEq

/-- **The triggers of a server.** -/
structure TriggerState where
  records : TriggerId → Option PendingTrigger := fun _ => none
  creates : TriggerId → Option CreateOp := fun _ => none
  waiters : TriggerId → Option Waiter := fun _ => none
  cancels : ℕ → Option CancelOp := fun _ => none
  /-- The ids that were given. -/
  used : TriggerId → Bool := fun _ => false
  /-- Every status a file had, in order. -/
  history : TriggerId → List TriggerStatus := fun _ => []
  /-- Every event that was delivered, in order. -/
  deliveries : TriggerId → List TriggerDelivery := fun _ => []

inductive TriggerAction where
  /-- `create_trigger`, up to its write. -/
  | create (tid : TriggerId) (trigger : PendingTrigger) (dormant : Bool)
  | landCreate (tid : TriggerId)
  | startTask (tid : TriggerId)
  /-- The caller stops; a write that was asked for may still land. -/
  | failCreate (tid : TriggerId) (lands : Bool)
  /-- `cancel_trigger`, up to its write. -/
  | cancel (op : ℕ) (tid : TriggerId)
  | landCancel (op : ℕ)
  | cancelTask (op : ℕ)
  | failCancel (op : ℕ) (lands : Bool)
  /-- The wait ends, and the record is read again. -/
  | waitDone (tid : TriggerId) (result : WaitResult)
  /-- The watchdog ends the wait. -/
  | dormancyWin (tid : TriggerId)
  | resolveChain (tid : TriggerId) (found : Bool)
  | checkDormant (tid : TriggerId) (dormant : Bool)
  | deliver (tid : TriggerId) (result : DeliverResult)
  /-- `trigger_master` is through. -/
  | masterWoken (tid : TriggerId) (now : ℕ)
  | landWaiter (tid : TriggerId)
  | finishWaiter (tid : TriggerId)
  | failWaiter (tid : TriggerId)
  /-- `list_triggers`. -/
  | list (sessionId : String)
  /-- A crash or a restart, and `recover_pending`. -/
  | restart

namespace TriggerState

def land (s : TriggerState) (tid : TriggerId) (record : PendingTrigger) : TriggerState :=
  { s with
    records := Function.update s.records tid (some record)
    history := Function.update s.history tid (s.history tid ++ [record.status]) }

def setCreate (s : TriggerState) (tid : TriggerId) (op : Option CreateOp) : TriggerState :=
  { s with creates := Function.update s.creates tid op }

def setWaiter (s : TriggerState) (tid : TriggerId) (w : Option Waiter) : TriggerState :=
  { s with waiters := Function.update s.waiters tid w }

def setCancel (s : TriggerState) (op : ℕ) (c : Option CancelOp) : TriggerState :=
  { s with cancels := Function.update s.cancels op c }

/-- An event is in a session. -/
def addDelivery (s : TriggerState) (tid : TriggerId) (d : TriggerDelivery) : TriggerState :=
  { s with deliveries := Function.update s.deliveries tid (s.deliveries tid ++ [d]) }

/-- `_reload_pending`: the record, where it is pending. -/
def reloadPending (s : TriggerState) (tid : TriggerId) : Option PendingTrigger :=
  (s.records tid).filter (·.status = .pending)

/-- `_cancel_undeliverable`, up to its write. -/
def cancelUndeliverable (s : TriggerState) (tid : TriggerId) (fresh : PendingTrigger) :
    TriggerState := s.setWaiter tid (some (.saving fresh.cancel false))

/-- Where a task is when it was stopped: a write that was asked for lands. -/
def stopped : Waiter → Option Waiter
  | .saving record _ => some (.saving record true)
  | _ => none

/-- `recover_pending`: every pending trigger has a task again. -/
def recoverPending (s : TriggerState) : TriggerState :=
  { s with
    creates := fun _ => none
    cancels := fun _ => none
    waiters := fun tid => (s.reloadPending tid).map fun _ => .waiting }

def step (s : TriggerState) : TriggerAction → Option TriggerState
  | .create tid trigger dormant =>
    if dormant then some s
    else if s.used tid then none
    else
      let trigger := { trigger with status := .pending, firedAt := none, fireReason := none }
      some ({ s with used := Function.update s.used tid true }.setCreate tid
        (some (.saving trigger false)))
  | .landCreate tid =>
    match s.creates tid with
    | some (.saving trigger callerGone) =>
      some ((s.land tid trigger).setCreate tid
        (if callerGone then none else some (.saved trigger)))
    | _ => none
  | .startTask tid =>
    match s.creates tid with
    | some (.saved _) => some ((s.setCreate tid none).setWaiter tid (some .waiting))
    | _ => none
  | .failCreate tid lands =>
    match s.creates tid with
    | some (.saving trigger false) =>
      some (s.setCreate tid (if lands then some (.saving trigger true) else none))
    | some (.saved _) => some (s.setCreate tid none)
    | _ => none
  | .cancel op tid =>
    match s.cancels op with
    | some _ => none
    | none =>
      match s.records tid with
      | none => some s
      | some trigger =>
        if trigger.status = .pending then
          some (s.setCancel op (some (.saving tid trigger.cancel false)))
        else some s
  | .landCancel op =>
    match s.cancels op with
    | some (.saving tid record callerGone) =>
      some ((s.land tid record).setCancel op (if callerGone then none else some (.saved tid)))
    | _ => none
  | .cancelTask op =>
    match s.cancels op with
    | some (.saved tid) =>
      some ((s.setWaiter tid ((s.waiters tid).bind stopped)).setCancel op none)
    | _ => none
  | .failCancel op lands =>
    match s.cancels op with
    | some (.saving tid record false) =>
      some (s.setCancel op (if lands then some (.saving tid record true) else none))
    | some (.saved _) => some (s.setCancel op none)
    | _ => none
  | .waitDone tid result =>
    match s.waiters tid with
    | some .waiting =>
      some (s.setWaiter tid ((s.reloadPending tid).map fun fresh => .reloaded fresh result))
    | _ => none
  | .dormancyWin tid =>
    match s.waiters tid with
    | some .waiting =>
      match s.reloadPending tid with
      | none => some (s.setWaiter tid none)
      | some fresh => some (s.cancelUndeliverable tid fresh)
    | _ => none
  | .resolveChain tid found =>
    match s.waiters tid with
    | some (.reloaded fresh result) =>
      if found then some (s.setWaiter tid (some (.resolved fresh result)))
      else some (s.cancelUndeliverable tid fresh)
    | _ => none
  | .checkDormant tid dormant =>
    match s.waiters tid with
    | some (.resolved fresh result) =>
      if dormant then some (s.cancelUndeliverable tid fresh)
      else some (s.setWaiter tid (some (.deliverable fresh result)))
    | _ => none
  | .deliver tid outcome =>
    match s.waiters tid with
    | some (.deliverable fresh result) =>
      match outcome with
      | .delivered tailId =>
        some ((s.addDelivery tid ⟨tailId, triggerMessage fresh result⟩).setWaiter tid
          (some (.delivered fresh result)))
      | .missing => some (s.cancelUndeliverable tid fresh)
      | .raised none => some (s.setWaiter tid none)
      | .raised (some tailId) =>
        some ((s.addDelivery tid ⟨tailId, triggerMessage fresh result⟩).setWaiter tid none)
    | _ => none
  | .masterWoken tid now =>
    match s.waiters tid with
    | some (.delivered fresh result) =>
      some (s.setWaiter tid (some (.saving (fresh.fire now result.reason) false)))
    | _ => none
  | .landWaiter tid =>
    match s.waiters tid with
    | some (.saving record taskGone) =>
      some ((s.land tid record).setWaiter tid (if taskGone then none else some .saved))
    | _ => none
  | .finishWaiter tid =>
    match s.waiters tid with
    | some .saved => some (s.setWaiter tid none)
    | _ => none
  | .failWaiter tid =>
    match s.waiters tid with
    | some (.saving _ true) => none
    | some _ => some (s.setWaiter tid none)
    | none => none
  | .list _ => some s
  | .restart => some s.recoverPending

def system : TransitionSystem TriggerState TriggerAction := ⟨step⟩

/-- **A trigger is settled once**: behind a status other than pending only that
status is written, a cancelled trigger has delivered nothing, and a fired one
has delivered once. -/
def SettledOnce (s : TriggerState) (tid : TriggerId) : Prop :=
  (s.history tid).Pairwise (fun a b => a ≠ .pending → b = a)
    ∧ ∀ record, s.records tid = some record →
      (record.status = .cancelled → s.deliveries tid = [])
        ∧ (record.status = .fired → (s.deliveries tid).length = 1)

end TriggerState

/-- Whether the event is delivered and the last write has not landed. -/
def Waiter.hasDelivered : Waiter → Bool
  | .delivered _ _ => true
  | .saving record _ => record.status = .fired
  | _ => false

/-! ## One trigger -/

/-- **What a server has of one trigger.** -/
structure TriggerView where
  record : Option PendingTrigger
  create : Option CreateOp
  waiter : Option Waiter
  used : Bool
  history : List TriggerStatus
  deliveries : List TriggerDelivery

namespace TriggerView

def status (v : TriggerView) : Option TriggerStatus := v.record.map (·.status)

/-- Whether the task has delivered the event, and has not written it. -/
def hasDelivered (v : TriggerView) : Bool := v.waiter.any Waiter.hasDelivered

def land (v : TriggerView) (record : PendingTrigger) : TriggerView :=
  { v with record := some record, history := v.history ++ [record.status] }

/-- **What holds of a trigger.** -/
structure Inv (v : TriggerView) : Prop where
  settled : v.history.Pairwise fun a b => a ≠ .pending → b = a
  /-- The file has the last status written. -/
  last : v.history.getLast? = v.status
  /-- What fired, or is about to, was delivered once. -/
  once : v.status = some .fired ∨ v.hasDelivered = true → v.deliveries.length = 1
  /-- Nothing else was. -/
  undelivered : v.status ≠ some .fired → v.hasDelivered = false → v.deliveries = []
  cancelled : v.status = some .cancelled → v.hasDelivered = false
  fired : v.status = some .fired → v.waiter = none ∨ v.waiter = some .saved
  /-- The last write settles it. -/
  saving : ∀ record taskGone, v.waiter = some (.saving record taskGone) →
    record.status ≠ .pending
  /-- While it is created it has no task. -/
  creating : v.create ≠ none → v.waiter = none ∧ v.status ≠ some .fired
  /-- And no file before the first write. -/
  fresh : ∀ trigger callerGone, v.create = some (.saving trigger callerGone) →
    trigger.status = .pending ∧ v.record = none
  /-- Without a file it has no task. -/
  absent : v.record = none → v.waiter = none
  /-- An id that was not given has no file. -/
  unused : v.used = false → v.record = none ∧ v.create = none

variable {v : TriggerView}

/-- **A write behind one of the same status, or of pending, settles it once.** -/
theorem Inv.settled_concat (h : v.Inv) {st : TriggerStatus}
    (hst : v.status = none ∨ v.status = some .pending ∨ v.status = some st) :
    (v.history ++ [st]).Pairwise fun a b => a ≠ .pending → b = a := by
  rw [List.pairwise_append]
  refine ⟨h.settled, List.pairwise_singleton _ _, fun a ha b hb hne => ?_⟩
  rw [List.mem_singleton.mp hb]
  -- whatever was written settled it as the last did
  have hlast : v.status = some a := by
    rw [← h.last]
    obtain ⟨before, behind, hsplit⟩ := List.append_of_mem ha
    have hpair := h.settled
    rw [hsplit, List.pairwise_append, List.pairwise_cons] at hpair
    rw [hsplit]
    cases hbehind : behind.getLast? with
    | none =>
      rw [List.getLast?_eq_none_iff.mp hbehind, List.getLast?_concat]
    | some b =>
      have hb : b ∈ behind := List.mem_of_getLast? hbehind
      rw [List.getLast?_append, List.getLast?_cons, hbehind]
      exact congrArg some (hpair.2.1.1 b hb hne)
  rcases hst with hst | hst | hst
  · rw [hst] at hlast
    cases hlast
  · rw [hst] at hlast
    cases hlast
    exact absurd rfl hne
  · rw [hst] at hlast
    exact Option.some.inj hlast

theorem Inv.landCancel (h : v.Inv) {record : PendingTrigger}
    (hrecord : record.status = .cancelled) (hexists : v.record ≠ none)
    (hnone : v.deliveries = []) : (v.land record).Inv := by
  have hnot : ¬ (v.status = some .fired ∨ v.hasDelivered = true) := fun hd => by
    have honce := h.once hd
    rw [hnone] at honce
    cases honce
  have hfired : v.status ≠ some .fired := fun hf => hnot (Or.inl hf)
  have hdelivered : v.hasDelivered = false := eq_false_of_ne_true fun hd => hnot (Or.inr hd)
  have hstatus : (v.land record).status = some .cancelled := congrArg some hrecord
  have hst : v.status = none ∨ v.status = some .pending ∨ v.status = some record.status := by
    rw [hrecord]
    cases hs : v.status with
    | none => exact Or.inl rfl
    | some st =>
      cases st with
      | pending => exact Or.inr (Or.inl rfl)
      | cancelled => exact Or.inr (Or.inr rfl)
      | fired => exact absurd hs hfired
  exact {
    settled := h.settled_concat hst
    last := List.getLast?_concat
    once := fun hd => by
      rcases hd with hd | hd
      · rw [hstatus] at hd
        cases hd
      · exact absurd (Or.inr hd) hnot
    undelivered := fun _ _ => hnone
    cancelled := fun _ => hdelivered
    fired := fun hf => by
      rw [hstatus] at hf
      cases hf
    saving := h.saving
    creating := fun hc => ⟨(h.creating hc).1, fun hf => by
      rw [hstatus] at hf
      cases hf⟩
    fresh := fun trigger gone hc => absurd (h.fresh trigger gone hc).2 hexists
    absent := fun hr => by cases hr
    unused := fun hu => absurd (h.unused hu).1 hexists }

theorem Inv.landWaiter (h : v.Inv) {record : PendingTrigger} {taskGone : Bool}
    (hwaiter : v.waiter = some (.saving record taskGone)) (gone : Bool) :
    ({ v.land record with waiter := if gone then none else some .saved } : TriggerView).Inv := by
  have hnotFired : v.status ≠ some .fired := fun hf => by
    rcases h.fired hf with hw | hw <;> rw [hwaiter] at hw <;> cases hw
  have hdelivered : v.hasDelivered = decide (record.status = .fired) := by
    rw [hasDelivered, hwaiter]
    rfl
  have hexists : v.record ≠ none := fun hr => by
    rw [h.absent hr] at hwaiter
    cases hwaiter
  have hcreate : v.create = none := by
    by_contra hc
    rw [(h.creating hc).1] at hwaiter
    cases hwaiter
  have hst : v.status = none ∨ v.status = some .pending ∨ v.status = some record.status := by
    cases hs : v.status with
    | none => exact Or.inl rfl
    | some st =>
      cases st with
      | pending => exact Or.inr (Or.inl rfl)
      | fired => exact absurd hs hnotFired
      | cancelled =>
        have hnot := h.cancelled hs
        rw [hdelivered, decide_eq_false_iff_not] at hnot
        cases hrecord : record.status with
        | pending => exact absurd hrecord (h.saving record taskGone hwaiter)
        | fired => exact absurd hrecord hnot
        | cancelled => exact Or.inr (Or.inr rfl)
  have hnone : ∀ g : Bool, (if g then none else some Waiter.saved : Option Waiter).any
      Waiter.hasDelivered = false := by
    intro g
    cases g <;> rfl
  exact {
    settled := h.settled_concat hst
    last := List.getLast?_concat
    once := fun hd => by
      rcases hd with hd | hd
      · refine h.once (Or.inr ?_)
        rw [hdelivered]
        exact decide_eq_true (Option.some.inj hd)
      · exact absurd ((hnone gone).symm.trans hd) Bool.false_ne_true
    undelivered := fun hst _ => h.undelivered hnotFired (by
      rw [hdelivered]
      exact decide_eq_false fun hrecord => hst (congrArg some hrecord))
    cancelled := fun _ => hnone gone
    fired := fun _ => by cases gone <;> simp
    saving := fun r g hw => by cases gone <;> cases hw
    creating := fun hc => absurd hcreate hc
    fresh := fun trigger g hc => by
      rw [show v.create = _ from hc] at hcreate
      cases hcreate
    absent := fun hr => by cases hr
    unused := fun hu => absurd (h.unused hu).1 hexists }

theorem Inv.landCreate (h : v.Inv) {trigger : PendingTrigger} {callerGone : Bool}
    (hcreate : v.create = some (.saving trigger callerGone)) (hused : v.used = true)
    (gone : Bool) :
    ({ v.land trigger with create := if gone then none else some (.saved trigger) } :
      TriggerView).Inv := by
  obtain ⟨hpending, hnone⟩ := h.fresh trigger callerGone hcreate
  have hwaiter := h.absent hnone
  have hstatus : v.status = none := by rw [status, hnone, Option.map_none]
  have hdelivered : v.hasDelivered = false := by rw [hasDelivered, hwaiter]; rfl
  have hne : some trigger.status ≠ some .fired := by
    rw [hpending]
    decide
  exact {
    settled := h.settled_concat (Or.inl hstatus)
    last := List.getLast?_concat
    once := fun hd => by
      rcases hd with hd | hd
      · exact absurd hd hne
      · exact absurd (hdelivered.symm.trans hd) Bool.false_ne_true
    undelivered := fun _ _ => h.undelivered (by rw [hstatus]; exact fun hs => by cases hs)
      hdelivered
    cancelled := fun _ => hdelivered
    fired := fun _ => Or.inl hwaiter
    saving := fun r g hw => by
      rw [show v.waiter = _ from hw] at hwaiter
      cases hwaiter
    creating := fun _ => ⟨hwaiter, hne⟩
    fresh := fun t g hc => by cases gone <;> cases hc
    absent := fun hr => by cases hr
    unused := fun hu => by
      rw [show v.used = _ from hu] at hused
      cases hused }

theorem Inv.setWaiter (h : v.Inv) {w : Waiter} (hwaiter : v.waiter = some w)
    (hw : w ≠ .saved) {w' : Option Waiter}
    (hdelivered : w'.any Waiter.hasDelivered = w.hasDelivered)
    (hsaving : ∀ record taskGone, w' = some (.saving record taskGone) →
      record.status ≠ .pending) :
    ({ v with waiter := w' } : TriggerView).Inv := by
  have hsame : ({ v with waiter := w' } : TriggerView).hasDelivered = v.hasDelivered := by
    show w'.any _ = v.waiter.any _
    rw [hdelivered, hwaiter]
    rfl
  have hnotFired : v.status ≠ some .fired := fun hf => by
    rcases h.fired hf with hw' | hw' <;> rw [hwaiter] at hw'
    · cases hw'
    · exact hw (Option.some.inj hw')
  have hcreate : v.create = none := by
    by_contra hc
    rw [(h.creating hc).1] at hwaiter
    cases hwaiter
  exact {
    settled := h.settled
    last := h.last
    once := fun hd => h.once (by rw [← hsame]; exact hd)
    undelivered := fun hf hd => h.undelivered hf (by rw [← hsame]; exact hd)
    cancelled := fun hc => by
      rw [hsame]
      exact h.cancelled hc
    fired := fun hf => absurd hf hnotFired
    saving := hsaving
    creating := fun hc => absurd hcreate hc
    fresh := h.fresh
    absent := fun hr => by
      rw [h.absent hr] at hwaiter
      cases hwaiter
    unused := h.unused }

theorem Inv.endWaiter (h : v.Inv) (hdelivered : v.hasDelivered = false) :
    ({ v with waiter := none } : TriggerView).Inv where
  settled := h.settled
  last := h.last
  once := fun hd => by
    rcases hd with hd | hd
    · exact h.once (Or.inl hd)
    · cases hd
  undelivered := fun hf _ => h.undelivered hf hdelivered
  cancelled := fun _ => rfl
  fired := fun _ => Or.inl rfl
  saving := fun _ _ hw => by cases hw
  creating := fun hc => ⟨rfl, (h.creating hc).2⟩
  fresh := h.fresh
  absent := fun _ => rfl
  unused := h.unused

theorem Inv.deliver (h : v.Inv) {fresh : PendingTrigger} {result : WaitResult}
    (hwaiter : v.waiter = some (.deliverable fresh result))
    (hpending : ∀ record, v.record = some record → record.status = .pending) (d : TriggerDelivery) :
    ({ v with
      waiter := some (.delivered fresh result)
      deliveries := v.deliveries ++ [d] } : TriggerView).Inv := by
  have hexists : v.record ≠ none := fun hr => by
    rw [h.absent hr] at hwaiter
    cases hwaiter
  obtain ⟨record, hrecord⟩ := Option.ne_none_iff_exists'.mp hexists
  have hstatus : v.status = some .pending := by
    rw [status, hrecord, Option.map_some, hpending record hrecord]
  have hcreate : v.create = none := by
    by_contra hc
    rw [(h.creating hc).1] at hwaiter
    cases hwaiter
  have hnot : v.hasDelivered = false := by
    rw [hasDelivered, hwaiter]
    rfl
  exact {
    settled := h.settled
    last := h.last
    once := fun _ => by
      have hnone := h.undelivered (by rw [hstatus]; exact fun hs => by cases hs) hnot
      rw [List.length_append, hnone]
      rfl
    undelivered := fun _ hd => by cases hd
    cancelled := fun hc => by
      rw [show v.status = _ from hc] at hstatus
      cases hstatus
    fired := fun hf => by
      rw [show v.status = _ from hf] at hstatus
      cases hstatus
    saving := fun _ _ hw => by cases hw
    creating := fun hc => absurd hcreate hc
    fresh := h.fresh
    absent := fun hr => absurd hr hexists
    unused := h.unused }

theorem Inv.startTask (h : v.Inv) {trigger : PendingTrigger}
    (hcreate : v.create = some (.saved trigger)) (hexists : v.record ≠ none) :
    ({ v with create := none, waiter := some .waiting } : TriggerView).Inv := by
  have hc : v.create ≠ none := by
    rw [hcreate]
    exact Option.some_ne_none _
  obtain ⟨hwaiter, hnotFired⟩ := h.creating hc
  have hnot : v.hasDelivered = false := by
    rw [hasDelivered, hwaiter]
    rfl
  exact {
    settled := h.settled
    last := h.last
    once := fun hd => by
      rcases hd with hd | hd
      · exact absurd hd hnotFired
      · cases hd
    undelivered := fun hf _ => h.undelivered hf hnot
    cancelled := fun _ => rfl
    fired := fun hf => absurd hf hnotFired
    saving := fun _ _ hw => by cases hw
    creating := fun hc => absurd rfl hc
    fresh := fun _ _ hc => by cases hc
    absent := fun hr => absurd hr hexists
    unused := fun hu => ⟨(h.unused hu).1, rfl⟩ }

theorem Inv.setCreate (h : v.Inv) (hcreate : v.create ≠ none) {op : Option CreateOp}
    (hfresh : ∀ trigger callerGone, op = some (.saving trigger callerGone) →
      trigger.status = .pending ∧ v.record = none) :
    ({ v with create := op } : TriggerView).Inv :=
  { h with
    creating := fun _ => h.creating hcreate
    fresh := hfresh
    unused := fun hu => absurd (h.unused hu).2 hcreate }

/-- **A restart** leaves the file, and starts a task where it is pending. -/
theorem Inv.restart (h : v.Inv) (hnot : v.hasDelivered = false) {w : Option Waiter}
    (hw : ∀ w', w = some w' → w' = .waiting ∧ v.status = some .pending) :
    ({ v with create := none, waiter := w } : TriggerView).Inv := by
  have hdelivered : w.any Waiter.hasDelivered = false := by
    cases hcase : w with
    | none => rfl
    | some w' => rw [(hw w' hcase).1]; rfl
  exact {
    settled := h.settled
    last := h.last
    once := fun hd => by
      rcases hd with hd | hd
      · exact h.once (Or.inl hd)
      · exact absurd (hdelivered.symm.trans hd) Bool.false_ne_true
    undelivered := fun hf _ => h.undelivered hf hnot
    cancelled := fun _ => hdelivered
    fired := fun hf => by
      cases hcase : w with
      | none => exact Or.inl rfl
      | some w' =>
        have hpending := (hw w' hcase).2
        rw [show v.status = _ from hf] at hpending
        cases hpending
    saving := fun record taskGone hsaving => by cases (hw _ hsaving).1
    creating := fun hc => absurd rfl hc
    fresh := fun _ _ hc => by cases hc
    absent := fun hr => by
      cases hcase : w with
      | none => rfl
      | some w' =>
        have hpending := (hw w' hcase).2
        rw [status, show v.record = none from hr] at hpending
        cases hpending
    unused := fun hu => ⟨(h.unused hu).1, rfl⟩ }

end TriggerView

namespace TriggerState

/-- **The condition on a step.** A cancellation lands before the event is
delivered; the event is delivered while the record is pending; and from then
until the last write has landed neither a failure nor a restart stops the
task. -/
def Undisturbed (s : TriggerState) : TriggerAction → Prop
  | .landCancel op => ∀ tid record callerGone,
    s.cancels op = some (.saving tid record callerGone) → s.deliveries tid = []
  | .deliver tid (.delivered _) => ∀ record, s.records tid = some record →
    record.status = .pending
  | .deliver _ (.raised (some _)) => False
  | .failWaiter tid => ∀ w, s.waiters tid = some w → w.hasDelivered = false
  | .restart => ∀ tid w, s.waiters tid = some w → w.hasDelivered = false
  | _ => True

def view (s : TriggerState) (tid : TriggerId) : TriggerView :=
  ⟨s.records tid, s.creates tid, s.waiters tid, s.used tid, s.history tid, s.deliveries tid⟩

/-- **What holds at any time.** -/
structure Inv (s : TriggerState) : Prop where
  /-- Of every trigger. -/
  view : ∀ tid, (s.view tid).Inv
  /-- A cancellation writes a file that is there. -/
  cancels : ∀ op tid record callerGone, s.cancels op = some (.saving tid record callerGone) →
    record.status = .cancelled ∧ s.records tid ≠ none
  creates : ∀ tid trigger, s.creates tid = some (.saved trigger) → s.records tid ≠ none
  /-- A cancellation that has landed leaves a cancelled file. -/
  landed : ∀ op tid, s.cancels op = some (.saved tid) →
    (s.view tid).status = some .cancelled

variable {s s' : TriggerState}

/-! ## What a step changes -/

@[simp] theorem view_setWaiter (s : TriggerState) (tid : TriggerId) (w : Option Waiter) :
    (s.setWaiter tid w).view tid = { s.view tid with waiter := w } := by
  simp [view, setWaiter]

@[simp] theorem view_setCreate (s : TriggerState) (tid : TriggerId) (op : Option CreateOp) :
    (s.setCreate tid op).view tid = { s.view tid with create := op } := by
  simp [view, setCreate]

@[simp] theorem view_land (s : TriggerState) (tid : TriggerId) (record : PendingTrigger) :
    (s.land tid record).view tid = (s.view tid).land record := by
  simp [view, land, TriggerView.land]

@[simp] theorem view_addDelivery (s : TriggerState) (tid : TriggerId) (d : TriggerDelivery) :
    (s.addDelivery tid d).view tid
      = { s.view tid with deliveries := s.deliveries tid ++ [d] } := by
  simp [view, addDelivery]

@[simp] theorem view_setCancel (s : TriggerState) (op : ℕ) (c : Option CancelOp) :
    (s.setCancel op c).view = s.view := rfl

/-- Another trigger than `tid` is as it was. -/
def SameBut (tid : TriggerId) (s t : TriggerState) : Prop := ∀ i, i ≠ tid → t.view i = s.view i

theorem sameBut_setWaiter (s : TriggerState) (tid : TriggerId) (w : Option Waiter) :
    SameBut tid s (s.setWaiter tid w) := by
  intro i hi
  simp [view, setWaiter, Function.update_of_ne hi]

theorem sameBut_setCreate (s : TriggerState) (tid : TriggerId) (op : Option CreateOp) :
    SameBut tid s (s.setCreate tid op) := by
  intro i hi
  simp [view, setCreate, Function.update_of_ne hi]

theorem sameBut_land (s : TriggerState) (tid : TriggerId) (record : PendingTrigger) :
    SameBut tid s (s.land tid record) := by
  intro i hi
  simp [view, land, Function.update_of_ne hi]

theorem sameBut_addDelivery (s : TriggerState) (tid : TriggerId) (d : TriggerDelivery) :
    SameBut tid s (s.addDelivery tid d) := by
  intro i hi
  simp [view, addDelivery, Function.update_of_ne hi]

theorem SameBut.trans {tid : TriggerId} {t u : TriggerState} (h : SameBut tid s t)
    (h' : SameBut tid t u) : SameBut tid s u := fun i hi => (h' i hi).trans (h i hi)

theorem SameBut.forall_view {tid : TriggerId} {t : TriggerState} (hsame : SameBut tid s t)
    (h : ∀ i, (s.view i).Inv) (htid : (t.view tid).Inv) : ∀ i, (t.view i).Inv := by
  intro i
  by_cases hi : i = tid
  · rw [hi]
    exact htid
  · rw [hsame i hi]
    exact h i

/-- **A step writes no file, or lands one write.** -/
theorem writes_of_step {a : TriggerAction} (hstep : s.step a = some s') :
    (s'.records = s.records ∧ s'.history = s.history)
      ∨ ∃ tid record, s'.records = (s.land tid record).records
        ∧ s'.history = (s.land tid record).history := by
  cases a with
  | landCreate tid =>
    simp only [step] at hstep
    split at hstep
    · cases hstep
      exact Or.inr ⟨_, _, rfl, rfl⟩
    · cases hstep
  | landCancel op =>
    simp only [step] at hstep
    split at hstep
    · cases hstep
      exact Or.inr ⟨_, _, rfl, rfl⟩
    · cases hstep
  | landWaiter tid =>
    simp only [step] at hstep
    split at hstep
    · cases hstep
      exact Or.inr ⟨_, _, rfl, rfl⟩
    · cases hstep
  | _ =>
    left
    simp only [step] at hstep
    repeat' split at hstep
    all_goals cases hstep
    all_goals exact ⟨rfl, rfl⟩

theorem grows_of_step {a : TriggerAction} (hstep : s.step a = some s') (tid : TriggerId) :
    s.history tid <+: s'.history tid ∧ (s.records tid ≠ none → s'.records tid ≠ none) := by
  rcases writes_of_step hstep with ⟨hrecords, hhistory⟩ | ⟨i, record, hrecords, hhistory⟩
  · rw [hrecords, hhistory]
    exact ⟨List.prefix_refl _, id⟩
  · rw [hrecords, hhistory]
    by_cases hi : tid = i
    · subst hi
      simp [land]
    · simp only [land, Function.update_of_ne hi]
      exact ⟨List.prefix_refl _, id⟩

/-- **What is cancelled stays cancelled.** -/
theorem cancelled_of_grows {tid : TriggerId} (h : (s.view tid).Inv) (h' : (s'.view tid).Inv)
    (hgrows : s.history tid <+: s'.history tid)
    (hcancelled : (s.view tid).status = some .cancelled) :
    (s'.view tid).status = some .cancelled := by
  obtain ⟨later, hlater⟩ := hgrows
  have hlast : (s.history tid).getLast? = some .cancelled := h.last.trans hcancelled
  have hlast' : (s'.history tid).getLast? = (s'.view tid).status := h'.last
  rw [← hlast', ← hlater, List.getLast?_append, hlast]
  cases hl : later.getLast? with
  | none => rfl
  | some b =>
    have hsettled : (s'.history tid).Pairwise _ := h'.settled
    rw [← hlater, List.pairwise_append] at hsettled
    exact congrArg some (hsettled.2.2 _ (List.mem_of_getLast? hlast) b
      (List.mem_of_getLast? hl) (by decide))

theorem Inv.setWaiter (h : s.Inv) {tid : TriggerId} {w : Waiter}
    (hwaiter : s.waiters tid = some w) (hw : w ≠ .saved) {w' : Option Waiter}
    (hdelivered : w'.any Waiter.hasDelivered = w.hasDelivered)
    (hsaving : ∀ record taskGone, w' = some (.saving record taskGone) →
      record.status ≠ .pending) : ∀ i, ((s.setWaiter tid w').view i).Inv := by
  refine (sameBut_setWaiter s tid w').forall_view h.view ?_
  rw [view_setWaiter]
  exact (h.view tid).setWaiter hwaiter hw hdelivered hsaving

theorem Inv.cancelUndeliverable (h : s.Inv) {tid : TriggerId} {w : Waiter}
    (hwaiter : s.waiters tid = some w) (hw : w ≠ .saved) (hnot : w.hasDelivered = false)
    (fresh : PendingTrigger) : ∀ i, ((s.cancelUndeliverable tid fresh).view i).Inv := by
  refine h.setWaiter hwaiter hw ?_ ?_
  · rw [hnot]
    rfl
  · intro record taskGone hsaving
    cases hsaving
    exact TriggerStatus.noConfusion

theorem Inv.endWaiter (h : s.Inv) {tid : TriggerId}
    (hnot : (s.view tid).hasDelivered = false) : ∀ i, ((s.setWaiter tid none).view i).Inv := by
  refine (sameBut_setWaiter s tid none).forall_view h.view ?_
  rw [view_setWaiter]
  exact (h.view tid).endWaiter hnot

theorem Inv.view_step (h : s.Inv) {a : TriggerAction} (ha : s.Undisturbed a)
    (hstep : s.step a = some s') : ∀ tid, (s'.view tid).Inv := by
  cases a with
  | create tid trigger dormant =>
    simp only [step] at hstep
    split at hstep
    · cases hstep
      exact h.view
    · split at hstep
      · cases hstep
      · next hused =>
        cases hstep
        have hused : s.used tid = false := eq_false_of_ne_true hused
        obtain ⟨hrecord, -⟩ := (h.view tid).unused hused
        have hwaiter := (h.view tid).absent hrecord
        refine @SameBut.forall_view _ tid _ (fun i hi => ?_) h.view ?_
        · simp [TriggerState.view, setCreate, Function.update_of_ne hi]
        · have hview := h.view tid
          simp only [view_setCreate]
          exact {
            settled := hview.settled
            last := hview.last
            once := hview.once
            undelivered := hview.undelivered
            cancelled := hview.cancelled
            fired := hview.fired
            saving := hview.saving
            creating := fun _ => ⟨hwaiter, by
              show Option.map _ (s.records tid) ≠ _
              rw [show s.records tid = none from hrecord]
              exact fun hnone => by cases hnone⟩
            fresh := fun t g hc => by
              cases hc
              exact ⟨rfl, hrecord⟩
            absent := fun _ => hwaiter
            unused := fun hu => by simp [TriggerState.view] at hu }
  | landCreate tid =>
    simp only [step] at hstep
    split at hstep
    · next trigger callerGone hcreate =>
      cases hstep
      refine ((sameBut_land s tid trigger).trans (sameBut_setCreate _ tid _)).forall_view
        h.view ?_
      rw [view_setCreate, view_land]
      refine (h.view tid).landCreate hcreate ?_ callerGone
      by_contra hused
      have hnone := ((h.view tid).unused (eq_false_of_ne_true hused)).2
      rw [show s.creates tid = none from hnone] at hcreate
      cases hcreate
    · cases hstep
  | startTask tid =>
    simp only [step] at hstep
    split at hstep
    · next trigger hcreate =>
      cases hstep
      refine ((sameBut_setCreate s tid none).trans (sameBut_setWaiter _ tid _)).forall_view
        h.view ?_
      rw [view_setWaiter, view_setCreate]
      exact (h.view tid).startTask hcreate (h.creates tid trigger hcreate)
    · cases hstep
  | failCreate tid lands =>
    simp only [step] at hstep
    split at hstep
    · next trigger hcreate =>
      cases hstep
      refine (sameBut_setCreate s tid _).forall_view h.view ?_
      rw [view_setCreate]
      refine (h.view tid).setCreate ?_ ?_
      · exact fun hnone => by cases hnone.symm.trans hcreate
      · intro t g hop
        obtain ⟨hpending, hnone⟩ := (h.view tid).fresh trigger false hcreate
        cases lands <;> cases hop
        exact ⟨hpending, hnone⟩
    · next trigger hcreate =>
      cases hstep
      refine (sameBut_setCreate s tid _).forall_view h.view ?_
      rw [view_setCreate]
      refine (h.view tid).setCreate ?_ ?_
      · exact fun hnone => by cases hnone.symm.trans hcreate
      · exact fun t g hop => by cases hop
    · cases hstep
  | cancel op tid =>
    simp only [step] at hstep
    repeat' split at hstep
    all_goals cases hstep
    all_goals exact h.view
  | landCancel op =>
    simp only [step] at hstep
    split at hstep
    · next tid record callerGone hcancel =>
      cases hstep
      rw [view_setCancel]
      refine (sameBut_land s tid record).forall_view h.view ?_
      rw [view_land]
      obtain ⟨hrecord, hexists⟩ := h.cancels op tid record callerGone hcancel
      exact (h.view tid).landCancel hrecord hexists (ha tid record callerGone hcancel)
    · cases hstep
  | cancelTask op =>
    simp only [step] at hstep
    split at hstep
    · next tid hcancel =>
      cases hstep
      rw [view_setCancel]
      have hnot := (h.view tid).cancelled (h.landed op tid hcancel)
      cases hwaiter : s.waiters tid with
      | none => exact h.endWaiter hnot
      | some w =>
        have hw : w.hasDelivered = false := by
          have hany : (s.waiters tid).any Waiter.hasDelivered = false := hnot
          rw [hwaiter] at hany
          exact hany
        rw [Option.bind_some]
        cases w with
        | saving record taskGone =>
          refine h.setWaiter hwaiter Waiter.noConfusion ?_ ?_
          · rw [hw]
            exact hw
          · intro r g hsaving
            cases hsaving
            exact (h.view tid).saving record taskGone hwaiter
        | _ => exact h.endWaiter hnot
    · cases hstep
  | failCancel op lands =>
    simp only [step] at hstep
    repeat' split at hstep
    all_goals cases hstep
    all_goals exact h.view
  | waitDone tid result =>
    simp only [step] at hstep
    split at hstep
    · next hwaiter =>
      cases hstep
      refine h.setWaiter hwaiter Waiter.noConfusion ?_ ?_
      · cases s.reloadPending tid <;> rfl
      · intro record taskGone hsaving
        cases hreload : s.reloadPending tid <;> rw [hreload] at hsaving <;> cases hsaving
    · cases hstep
  | dormancyWin tid =>
    simp only [step] at hstep
    split at hstep
    · next hwaiter =>
      split at hstep
      · cases hstep
        refine h.setWaiter hwaiter Waiter.noConfusion rfl ?_
        intro record taskGone hsaving
        cases hsaving
      · cases hstep
        exact h.cancelUndeliverable hwaiter Waiter.noConfusion rfl _
    · cases hstep
  | resolveChain tid found =>
    simp only [step] at hstep
    split at hstep
    · next fresh result hwaiter =>
      split at hstep
      · cases hstep
        refine h.setWaiter hwaiter Waiter.noConfusion rfl ?_
        intro record taskGone hsaving
        cases hsaving
      · cases hstep
        exact h.cancelUndeliverable hwaiter Waiter.noConfusion rfl _
    · cases hstep
  | checkDormant tid dormant =>
    simp only [step] at hstep
    split at hstep
    · next fresh result hwaiter =>
      split at hstep
      · cases hstep
        exact h.cancelUndeliverable hwaiter Waiter.noConfusion rfl _
      · cases hstep
        refine h.setWaiter hwaiter Waiter.noConfusion rfl ?_
        intro record taskGone hsaving
        cases hsaving
    · cases hstep
  | deliver tid outcome =>
    simp only [step] at hstep
    split at hstep
    · next fresh result hwaiter =>
      split at hstep
      · next tailId =>
        cases hstep
        refine ((sameBut_addDelivery s tid _).trans (sameBut_setWaiter _ tid _)).forall_view
          h.view ?_
        rw [view_setWaiter, view_addDelivery]
        exact (h.view tid).deliver hwaiter ha _
      · cases hstep
        exact h.cancelUndeliverable hwaiter Waiter.noConfusion rfl _
      · cases hstep
        refine h.setWaiter hwaiter Waiter.noConfusion rfl ?_
        intro record taskGone hsaving
        cases hsaving
      · exact ha.elim
    · cases hstep
  | masterWoken tid now =>
    simp only [step] at hstep
    split at hstep
    · next fresh result hwaiter =>
      cases hstep
      refine h.setWaiter hwaiter Waiter.noConfusion rfl ?_
      intro record taskGone hsaving
      cases hsaving
      exact TriggerStatus.noConfusion
    · cases hstep
  | landWaiter tid =>
    simp only [step] at hstep
    split at hstep
    · next record taskGone hwaiter =>
      cases hstep
      refine ((sameBut_land s tid record).trans (sameBut_setWaiter _ tid _)).forall_view
        h.view ?_
      rw [view_setWaiter, view_land]
      exact (h.view tid).landWaiter hwaiter taskGone
    · cases hstep
  | finishWaiter tid =>
    simp only [step] at hstep
    split at hstep
    · next hwaiter =>
      cases hstep
      refine h.endWaiter ?_
      show (s.waiters tid).any _ = false
      rw [hwaiter]
      rfl
    · cases hstep
  | failWaiter tid =>
    simp only [step] at hstep
    split at hstep
    · cases hstep
    · next w _ hwaiter =>
      cases hstep
      refine h.endWaiter ?_
      show (s.waiters tid).any _ = false
      rw [hwaiter]
      exact ha w hwaiter
    · cases hstep
  | list sessionId =>
    cases hstep
    exact h.view
  | restart =>
    cases hstep
    intro tid
    have hnot : (s.view tid).hasDelivered = false := by
      show (s.waiters tid).any Waiter.hasDelivered = false
      cases hwaiter : s.waiters tid with
      | none => rfl
      | some w => exact ha tid w hwaiter
    refine (h.view tid).restart hnot ?_
    intro w hw
    obtain ⟨record, hrecord, rfl⟩ := Option.map_eq_some_iff.mp hw
    obtain ⟨hrecord, hpending⟩ := Option.filter_eq_some_iff.mp hrecord
    refine ⟨rfl, ?_⟩
    show Option.map _ (s.records tid) = _
    rw [hrecord, Option.map_some, of_decide_eq_true hpending]

/-- A cancellation asks for its write with a record that was read before, and
has landed it when it goes on. -/
def CancelsFrom (s s' : TriggerState) (op : ℕ) (tid : TriggerId) : Prop :=
  (∀ record callerGone, s'.cancels op = some (.saving tid record callerGone) →
    (∃ gone, s.cancels op = some (.saving tid record gone))
      ∨ (record.status = .cancelled ∧ s.records tid ≠ none))
  ∧ (s'.cancels op = some (.saved tid) → s.cancels op = some (.saved tid)
    ∨ ∃ record gone, s.cancels op = some (.saving tid record gone)
      ∧ s'.records tid = some record)

theorem cancelsFrom_of_eq {op : ℕ} {tid : TriggerId} (heq : s'.cancels op = s.cancels op) :
    CancelsFrom s s' op tid := by
  rw [CancelsFrom, heq]
  exact ⟨fun _ gone h => Or.inl ⟨gone, h⟩, Or.inl⟩

theorem cancelsFrom_of_ne {op i : ℕ} {tid : TriggerId} {c : Option CancelOp}
    (heq : s'.cancels = Function.update s.cancels i c) (hne : op ≠ i) :
    CancelsFrom s s' op tid :=
  cancelsFrom_of_eq (by rw [heq, Function.update_of_ne hne])

theorem cancels_of_step {a : TriggerAction} (hstep : s.step a = some s') (op : ℕ)
    (tid : TriggerId) : CancelsFrom s s' op tid := by
  cases a with
  | cancel i t =>
    simp only [step] at hstep
    split at hstep
    · cases hstep
    · split at hstep
      · cases hstep
        exact cancelsFrom_of_eq rfl
      · next trigger hrecord =>
        split at hstep
        · cases hstep
          by_cases hi : op = i
          · subst hi
            simp only [CancelsFrom, setCancel, Function.update_self]
            refine ⟨fun record gone h => ?_, fun h => by cases h⟩
            cases h
            refine Or.inr ⟨rfl, ?_⟩
            rw [hrecord]
            exact Option.some_ne_none _
          · exact cancelsFrom_of_ne rfl hi
        · cases hstep
          exact cancelsFrom_of_eq rfl
  | landCancel i =>
    simp only [step] at hstep
    split at hstep
    · next t record gone hcancel =>
      cases hstep
      by_cases hi : op = i
      · subst hi
        simp only [CancelsFrom, setCancel, Function.update_self]
        refine ⟨fun r g h => ?_, fun h => Or.inr ⟨record, gone, ?_⟩⟩
        · cases gone <;> cases h
        · cases gone <;> cases h
          exact ⟨hcancel, Function.update_self ..⟩
      · exact cancelsFrom_of_ne rfl hi
    · cases hstep
  | cancelTask i =>
    simp only [step] at hstep
    split at hstep
    · cases hstep
      by_cases hi : op = i
      · subst hi
        simp only [CancelsFrom, setCancel, Function.update_self]
        exact ⟨fun _ _ h => (by cases h), fun h => (by cases h)⟩
      · exact cancelsFrom_of_ne rfl hi
    · cases hstep
  | failCancel i lands =>
    simp only [step] at hstep
    split at hstep
    · next t record hcancel =>
      cases hstep
      by_cases hi : op = i
      · subst hi
        simp only [CancelsFrom, setCancel, Function.update_self]
        refine ⟨fun r g h => ?_, fun h => by cases lands <;> cases h⟩
        cases lands <;> cases h
        exact Or.inl ⟨false, hcancel⟩
      · exact cancelsFrom_of_ne rfl hi
    · cases hstep
      by_cases hi : op = i
      · subst hi
        simp only [CancelsFrom, setCancel, Function.update_self]
        exact ⟨fun _ _ h => (by cases h), fun h => (by cases h)⟩
      · exact cancelsFrom_of_ne rfl hi
    · cases hstep
  | restart =>
    cases hstep
    exact ⟨fun _ _ h => (by cases h), fun h => (by cases h)⟩
  | _ =>
    simp only [step] at hstep
    repeat' split at hstep
    all_goals cases hstep
    all_goals exact cancelsFrom_of_eq rfl

theorem creates_of_step {a : TriggerAction} (hstep : s.step a = some s') (tid : TriggerId)
    (trigger : PendingTrigger) (hsaved : s'.creates tid = some (.saved trigger)) :
    s.creates tid = some (.saved trigger) ∨ s'.records tid ≠ none := by
  have hset : ∀ i c, s'.creates = Function.update s.creates i c →
      (∀ t, c ≠ some (.saved t)) → s.creates tid = some (.saved trigger) := by
    intro i c heq hc
    rw [heq] at hsaved
    by_cases hi : tid = i
    · subst hi
      rw [Function.update_self] at hsaved
      exact absurd hsaved (hc trigger)
    · rw [Function.update_of_ne hi] at hsaved
      exact hsaved
  cases a with
  | create i t dormant =>
    simp only [step] at hstep
    split at hstep
    · cases hstep
      exact Or.inl hsaved
    · split at hstep
      · cases hstep
      · cases hstep
        exact Or.inl (hset i _ rfl fun t h => by cases h)
  | landCreate i =>
    simp only [step] at hstep
    split at hstep
    · cases hstep
      by_cases hi : tid = i
      · subst hi
        right
        show Function.update s.records tid _ tid ≠ none
        rw [Function.update_self]
        exact Option.some_ne_none _
      · left
        simpa [setCreate, Function.update_of_ne hi, land] using hsaved
    · cases hstep
  | startTask i =>
    simp only [step] at hstep
    split at hstep
    · cases hstep
      exact Or.inl (hset i _ rfl fun t h => by cases h)
    · cases hstep
  | failCreate i lands =>
    simp only [step] at hstep
    split at hstep
    · cases hstep
      exact Or.inl (hset i _ rfl fun t h => by cases lands <;> cases h)
    · cases hstep
      exact Or.inl (hset i _ rfl fun t h => by cases h)
    · cases hstep
  | restart =>
    cases hstep
    cases hsaved
  | _ =>
    simp only [step] at hstep
    repeat' split at hstep
    all_goals cases hstep
    all_goals exact Or.inl hsaved

theorem Inv.step (h : s.Inv) {a : TriggerAction} (ha : s.Undisturbed a)
    (hstep : s.step a = some s') : s'.Inv := by
  have hview := h.view_step ha hstep
  have hgrows := fun tid => grows_of_step hstep tid
  have hstays : ∀ tid, (s.view tid).status = some .cancelled →
      (s'.view tid).status = some .cancelled := fun tid =>
    cancelled_of_grows (h.view tid) (hview tid) (hgrows tid).1
  refine ⟨hview, fun op tid record gone hcancel => ?_, fun tid trigger hsaved => ?_,
    fun op tid hcancel => ?_⟩
  · rcases (cancels_of_step hstep op tid).1 record gone hcancel with ⟨gone', hbefore⟩ | hnew
    · obtain ⟨hrecord, hexists⟩ := h.cancels op tid record gone' hbefore
      exact ⟨hrecord, (hgrows tid).2 hexists⟩
    · exact ⟨hnew.1, (hgrows tid).2 hnew.2⟩
  · rcases creates_of_step hstep tid trigger hsaved with hbefore | hexists
    · exact (hgrows tid).2 (h.creates tid trigger hbefore)
    · exact hexists
  · rcases (cancels_of_step hstep op tid).2 hcancel with hbefore | ⟨record, gone, hbefore, hnew⟩
    · exact hstays tid (h.landed op tid hbefore)
    · show Option.map _ (s'.records tid) = _
      rw [hnew, Option.map_some, (h.cancels op tid record gone hbefore).1]

theorem inv_initial : ({} : TriggerState).Inv where
  view := fun tid => {
    settled := List.Pairwise.nil
    last := rfl
    once := fun hd => by rcases hd with hd | hd <;> cases hd
    undelivered := fun _ _ => rfl
    cancelled := fun hc => by cases hc
    fired := fun hf => by cases hf
    saving := fun _ _ hw => by cases hw
    creating := fun hc => absurd rfl hc
    fresh := fun _ _ hc => by cases hc
    absent := fun _ => rfl
    unused := fun _ => ⟨rfl, rfl⟩ }
  cancels := fun _ _ _ _ h => by cases h
  creates := fun _ _ h => by cases h
  landed := fun _ _ h => by cases h

/-- **Triggers are settled once.** Along every run in which every cancellation
lands before the event is delivered, every event is delivered while its
record is pending, and neither a failure nor a restart stops a task between
the delivery and its last write: the status written last is written for good
once it is not pending, a cancelled trigger has delivered nothing, and one
that fired has delivered once. -/
theorem settled_of_guarded {as : List TriggerAction}
    (hguarded : system.Guarded Undisturbed {} as) (hrun : system.run {} as = some s)
    (tid : TriggerId) : s.SettledOnce tid := by
  have h : s.Inv := system.run_invariant_of_guarded (I := Inv)
    (fun _ _ _ h ha hstep => h.step ha hstep) inv_initial hguarded hrun
  have hview := h.view tid
  refine ⟨hview.settled, fun record hrecord => ?_⟩
  have hstatus : (s.view tid).status = some record.status := by
    show Option.map _ (s.records tid) = _
    rw [hrecord, Option.map_some]
  refine ⟨fun hcancelled => ?_, fun hfired => ?_⟩
  · rw [hcancelled] at hstatus
    refine hview.undelivered ?_ (hview.cancelled hstatus)
    rw [hstatus]
    exact fun h => by cases h
  · rw [hfired] at hstatus
    exact hview.once (Or.inl hstatus)

/-! ## A trigger that fires, and one that is cancelled on the way -/

def sampleTrigger : PendingTrigger := { sessionId := "s", message := "look again" }

/-- It is created, its time comes, and its session is found to be there. -/
def upToDelivery : List TriggerAction :=
  [.create "t" sampleTrigger false, .landCreate "t", .startTask "t",
    .waitDone "t" ⟨.timeout, [], []⟩, .resolveChain "t" true, .checkDormant "t" false]

/-- It is delivered and fires; a cancellation comes too late. -/
theorem settled_of_guarded_fires : ∃ s, system.run {} (upToDelivery
      ++ [.deliver "t" (.delivered "s"), .masterWoken "t" 1, .landWaiter "t", .finishWaiter "t",
        .cancel 0 "t"]) = some s
    ∧ s.history "t" = [.pending, .fired] ∧ (s.deliveries "t").length = 1
    ∧ s.SettledOnce "t" := by
  have hguarded : system.Guarded Undisturbed {} (upToDelivery
      ++ [.deliver "t" (.delivered "s"), .masterWoken "t" 1, .landWaiter "t", .finishWaiter "t",
        .cancel 0 "t"]) := by
    refine TransitionSystem.guarded_append ?_ fun t ht => ?_
    · exact ⟨trivial, fun _ _ => ⟨trivial, fun _ _ => ⟨trivial, fun _ _ => ⟨trivial, fun _ _ =>
        ⟨trivial, fun _ _ => ⟨trivial, fun _ _ => trivial⟩⟩⟩⟩⟩⟩
    · refine ⟨fun record hrecord => ?_, fun _ _ => ⟨trivial, fun _ _ => ⟨trivial, fun _ _ =>
        ⟨trivial, fun _ _ => ⟨trivial, fun _ _ => trivial⟩⟩⟩⟩⟩
      cases ht
      cases hrecord
      rfl
  exact ⟨_, rfl, rfl, rfl, settled_of_guarded hguarded rfl "t"⟩

/-- **A cancelled trigger was delivered.** The cancellation lands while the
master is being woken, and stops the task. -/
theorem cancelled_delivered : ∃ s, system.run {} (upToDelivery
      ++ [.cancel 0 "t", .deliver "t" (.delivered "s"), .landCancel 0, .cancelTask 0]) = some s
    ∧ s.history "t" = [.pending, .cancelled] ∧ (s.deliveries "t").length = 1
    ∧ ¬ s.SettledOnce "t" := by
  refine ⟨_, rfl, rfl, rfl, fun h => ?_⟩
  have hnone := (h.2 _ rfl).1 rfl
  cases hnone

end TriggerState
