import CharlieBot.Lib.Transition
import Mathlib.Data.Int.ConditionallyCompleteOrder
import Mathlib.Order.ConditionallyCompleteLattice.Basic

/-!
# The ticks of the scheduler

A task is due at a tick if its expression occurs between the last run and now. The
last run is a mark that is written when a run is prepared, when one is skipped,
and when a run is started by hand. So three things decide whether the stretch
between two ticks is judged rightly: whether the mark stands where the last
tick stood, in which zone the next occurrence after it is looked for, and how
far a task that never ran looks back.

The mark is stored with the offset of its moment, and the next occurrence is
looked for at that offset. When the clocks change, the first run after it is an hour
off (`missed_after_clock_change`). A mark that is later than the tick – a run by
hand, or the moment a run was prepared – swallows what occurred before it, and a task
that never ran forgets what lies more than a minute back. Along the runs that
meet none of the three, every stretch with an occurrence is answered by one fire
or one skip, and no other (`answered_of_run`).
-/

namespace ScheduledRuns

/-! ## Time -/

/-- `_TICK_INTERVAL`, in microseconds. -/
def tickInterval : ℤ := 60000000

theorem tickInterval_nonneg : 0 ≤ tickInterval := by decide

/-- `datetime.isoformat`: an instant, and the offset of its wall clock. -/
structure Stamp where
  instant : ℤ
  offset : ℤ
  deriving DecidableEq

/-- The zone of a moment that is passed to `croniter`. -/
inductive Zone where
  /-- `datetime.timezone`, which a parsed stamp has. -/
  | fixed (offset : ℤ)
  /-- The time zone of the task. -/
  | named
  deriving DecidableEq

structure ZoneInfo where
  /-- The offset of the wall clock at an instant. -/
  utcoffset : ℤ → ℤ
  /-- The instant a reading of the wall clock stands for, `fold = 0`. -/
  ofWall : ℤ → ℤ

def ZoneInfo.wall (zone : ZoneInfo) (instant : ℤ) : ℤ := instant + zone.utcoffset instant

/-- `datetime.now(tz).isoformat()`. -/
def ZoneInfo.stamp (zone : ZoneInfo) (now : ℤ) : Stamp := ⟨now, zone.utcoffset now⟩

/-- `croniter` of an expression: the next occurrence, in the zone of the moment it is
passed. -/
structure Croniter where
  occurs : Zone → ℤ → Prop
  getNext : Zone → ℤ → ℤ
  isLeast_getNext : ∀ zone start, IsLeast {o | start < o ∧ occurs zone o} (getNext zone start)

namespace Croniter

variable (cron : Croniter) {zone : Zone} {start now : ℤ}

/-- The expression occurs after one instant and not after another. -/
def OccursIn (zone : Zone) (start now : ℤ) : Prop := ∃ o ∈ Set.Ioc start now, cron.occurs zone o

variable {cron}

/-- **The next occurrence is in time** exactly if there is one in time. -/
theorem getNext_le_iff : cron.getNext zone start ≤ now ↔ cron.OccursIn zone start now := by
  obtain ⟨⟨hlt, hoccurs⟩, hleast⟩ := cron.isLeast_getNext zone start
  constructor
  · exact fun hle => ⟨_, ⟨hlt, hle⟩, hoccurs⟩
  · rintro ⟨o, ⟨hstart, hnow⟩, ho⟩
    exact (hleast ⟨hstart, ho⟩).trans hnow

instance (zone : Zone) (start now : ℤ) : Decidable (cron.OccursIn zone start now) :=
  decidable_of_iff _ getNext_le_iff

theorem OccursIn.mono {start' now' : ℤ} (h : cron.OccursIn zone start now) (hstart : start' ≤ start)
    (hnow : now ≤ now') : cron.OccursIn zone start' now' := by
  obtain ⟨o, ho, hoccurs⟩ := h
  exact ⟨o, ⟨hstart.trans_lt ho.1, ho.2.trans hnow⟩, hoccurs⟩

theorem occursIn_iff_or {middle : ℤ} (hstart : start ≤ middle) (hnow : middle ≤ now) :
    cron.OccursIn zone start now
      ↔ cron.OccursIn zone start middle ∨ cron.OccursIn zone middle now := by
  constructor
  · rintro ⟨o, ⟨ho, ho'⟩, hoccurs⟩
    rcases le_or_gt o middle with hle | hlt
    · exact .inl ⟨o, ⟨ho, hle⟩, hoccurs⟩
    · exact .inr ⟨o, ⟨hlt, ho'⟩, hoccurs⟩
  · rintro (h | h)
    · exact h.mono le_rfl hnow
    · exact h.mono hstart le_rfl

theorem not_occursIn_of_le (h : now ≤ start) : ¬ cron.OccursIn zone start now := by
  rintro ⟨o, ho, -⟩
  exact absurd (ho.1.trans_le ho.2) (not_lt.mpr h)

end Croniter

/-- A task, as far as its schedule is concerned. -/
structure TaskSchedule where
  /-- Its expression, as it is configured. -/
  cron : String
  zone : ZoneInfo
  croniter : Croniter

/-! ## The session's bookkeeping -/

inductive LastRunStatus where
  | running
  | success
  | failed
  | skipped
  deriving DecidableEq

/-- What the dedicated session keeps of the last run. -/
structure Bookkeeping where
  lastScheduledRun : Option Stamp := none
  lastScheduledCron : Option String := none
  lastRunStatus : Option LastRunStatus := none
  deriving DecidableEq

/-- What a tick makes of a task. -/
inductive Verdict where
  | nothing
  | fired
  | skipped
  deriving DecidableEq

namespace Bookkeeping

variable (session : Bookkeeping) (task : TaskSchedule) (now : ℤ)

/-- Whether the expression was changed since the last run. -/
def cronChanged : Bool :=
  session.lastScheduledCron.isSome && session.lastScheduledCron != some task.cron

/-- `next_fire <= now`. A stored run is compared as an instant. A task that never ran
looks back by its wall clock, and two moments of one zone are compared by their
wall clocks. -/
def due : Bool :=
  match session.lastScheduledRun with
  | some stamp => task.croniter.getNext (.fixed stamp.offset) stamp.instant ≤ now
  | none =>
    let lastRunAt := task.zone.ofWall (task.zone.wall now - tickInterval)
    task.zone.wall (task.croniter.getNext .named lastRunAt) ≤ task.zone.wall now

/-- The run is skipped, or the changed expression starts anew: the mark is now. -/
def mark (status : Option LastRunStatus) (cron : Option String) : Bookkeeping where
  lastScheduledRun := some (task.zone.stamp now)
  lastScheduledCron := cron
  lastRunStatus := status.or session.lastRunStatus

end Bookkeeping

/-! ## Ticks -/

/-- A stretch between two ticks, and what the second of them made of it. -/
structure Stretch where
  since : ℤ
  now : ℤ
  verdict : Verdict
  deriving DecidableEq

/-- Where the loop of the scheduler is. -/
inductive TickPhase where
  | asleep
  /-- The sessions were listed; this is the copy that is judged by. -/
  | listed (session : Bookkeeping)
  /-- The task is about to be executed. -/
  | firing
  deriving DecidableEq

structure SchedulerState where
  session : Bookkeeping := {}
  /-- Whether the round that was fired last is still running. -/
  running : Bool := false
  phase : TickPhase := .asleep
  clock : ℤ
  lastTick : Option ℤ := none
  stretches : List Stretch := []
  deriving DecidableEq

inductive SchedulerAction where
  /-- A tick begins. -/
  | list
  /-- `_maybe_run`. -/
  | judge (now : ℤ)
  /-- `_prepare_task_execution` of the round that fires; the round may be one that is
  registered. -/
  | prepare (now : ℤ) (initialStatus : Option LastRunStatus) (registers : Bool)
  /-- `_prepare_task_execution` of a run by hand. -/
  | runTaskNow (now : ℤ) (initialStatus : Option LastRunStatus)
  | roundEnds

namespace SchedulerState

variable (task : TaskSchedule) (s : SchedulerState)

/-- `_prepare_task_execution`: the time is taken anew. -/
def prepare (now : ℤ) (initialStatus : Option LastRunStatus) : SchedulerState :=
  { s with
    session := s.session.mark task now initialStatus (some task.cron)
    clock := now }

/-- A tick has come to its verdict. -/
def conclude (now : ℤ) (verdict : Verdict) : SchedulerState :=
  { s with
    phase := if verdict = .fired then .firing else .asleep
    clock := now
    lastTick := some now
    stretches := s.stretches ++ (s.lastTick.map fun since => ⟨since, now, verdict⟩).toList }

/-- `_maybe_run`, by the copy of the session that was listed. -/
def maybeRun (session : Bookkeeping) (now : ℤ) : SchedulerState :=
  if session.cronChanged task then
    { s with session := session.mark task now none (some task.cron) }.conclude now .nothing
  else if session.due task now then
    if s.running then
      { s with session := session.mark task now (some .skipped) session.lastScheduledCron }.conclude
        now .skipped
    else s.conclude now .fired
  else s.conclude now .nothing

/-- The ticks are the interval apart. -/
def tickable (now : ℤ) : Bool :=
  s.clock ≤ now && s.lastTick.all fun since => since + tickInterval ≤ now

def step : SchedulerAction → Option SchedulerState
  | .list =>
    match s.phase with
    | .asleep => some { s with phase := .listed s.session }
    | _ => none
  | .judge now =>
    match s.phase with
    | .listed session => if s.tickable now then some (s.maybeRun task session now) else none
    | _ => none
  | .prepare now initialStatus registers =>
    match s.phase with
    | .firing =>
      if s.clock ≤ now then
        some { s.prepare task now initialStatus with
          phase := .asleep
          running := s.running || registers }
      else none
    | _ => none
  | .runTaskNow now initialStatus =>
    if s.clock ≤ now then some (s.prepare task now initialStatus) else none
  | .roundEnds => some { s with running := false }

def system : TransitionSystem SchedulerState SchedulerAction := ⟨fun s a => s.step task a⟩

/-! ## What a stretch should come to -/

/-- A stretch with an occurrence in the task's own zone is answered by a fire or a skip,
and no other is. -/
def Answered (stretch : Stretch) : Prop :=
  stretch.verdict ≠ .nothing ↔ task.croniter.OccursIn .named stretch.since stretch.now

/-- The instant a listed copy is judged from: the mark, or a minute ago. -/
def reference (session : Bookkeeping) (now : ℤ) : ℤ :=
  match session.lastScheduledRun with
  | some stamp => stamp.instant
  | none => now - tickInterval

/-- The instant from which nothing was judged yet: the last tick, or at the first
tick the mark that was set since. -/
def unjudgedSince : Option ℤ := s.lastTick.or (s.session.lastScheduledRun.map Stamp.instant)

/-- The zone the mark was stored in, or the wall clock a task that never ran looks back
by, says the same of the time since as the task's own zone. -/
def ZoneKept (session : Bookkeeping) (now : ℤ) : Prop :=
  match session.lastScheduledRun with
  | some stamp =>
    task.croniter.OccursIn (.fixed stamp.offset) stamp.instant now
      ↔ task.croniter.OccursIn .named stamp.instant now
  | none =>
    task.zone.wall
          (task.croniter.getNext .named (task.zone.ofWall (task.zone.wall now - tickInterval)))
        ≤ task.zone.wall now
      ↔ task.croniter.OccursIn .named (now - tickInterval) now

instance (session : Bookkeeping) (now : ℤ) : Decidable (ZoneKept task session now) := by
  unfold ZoneKept
  split <;> infer_instance

/-- What lies between the last tick and a later mark, or more than a minute back where
there is no mark, is not the only occurrence. -/
def NoneSwallowed (session : Bookkeeping) (now : ℤ) : Prop :=
  ∀ since ∈ s.unjudgedSince,
    task.croniter.OccursIn .named since (reference session now) →
    task.croniter.OccursIn .named (reference session now) now

instance (session : Bookkeeping) (now : ℤ) : Decidable (s.NoneSwallowed task session now) := by
  unfold NoneSwallowed
  infer_instance

/-- The condition on a step. -/
def Meets : SchedulerAction → Prop
  | .judge now =>
    match s.phase with
    | .listed session => ZoneKept task session now ∧ s.NoneSwallowed task session now
    | _ => True
  | _ => True

instance (a : SchedulerAction) : Decidable (s.Meets task a) := by
  unfold Meets
  split
  · split <;> infer_instance
  · infer_instance

/-! ## How a tick judges -/

section Judge

variable {task} {s : SchedulerState} {session : Bookkeeping} {now : ℤ}

/-- The zone is kept exactly if the task is found due when the expression occurs after
the reference. -/
theorem zoneKept_iff :
    ZoneKept task session now
      ↔ (session.due task now = true
        ↔ task.croniter.OccursIn .named (reference session now) now) := by
  unfold ZoneKept Bookkeeping.due reference
  split
  next stamp _ =>
    simp only [decide_eq_true_eq]
    rw [Croniter.getNext_le_iff]
  next =>
    simp only [decide_eq_true_eq]

end Judge

/-! ## What holds in every state -/

/-- The expression was not changed since the last run. -/
def CronKept (session : Bookkeeping) : Prop := session.cronChanged task = false

/-- What holds of the copy a tick judges by. -/
structure ListedInv (session : Bookkeeping) : Prop where
  behind : ∀ stamp ∈ session.lastScheduledRun,
    ∃ current ∈ s.session.lastScheduledRun, stamp.instant ≤ current.instant
  /-- A run that came meanwhile is later than the last tick. -/
  fresh : session.lastScheduledRun = none → ∀ since ∈ s.lastTick,
    ∀ current ∈ s.session.lastScheduledRun, since ≤ current.instant
  cron : s.lastTick.isSome = true → CronKept task session
  /-- A run that came meanwhile was one of the expression as it is. -/
  same : s.session.lastScheduledCron = session.lastScheduledCron ∨ CronKept task s.session
  /-- What lies between its mark and the last tick was judged. -/
  settled : ∀ since ∈ s.lastTick, ∀ stamp ∈ session.lastScheduledRun,
    ¬ task.croniter.OccursIn .named stamp.instant since

/-- What holds in every state. -/
structure Inv : Prop where
  mark : ∀ stamp ∈ s.session.lastScheduledRun, stamp.instant ≤ s.clock
  tick : ∀ since ∈ s.lastTick, since ≤ s.clock
  cron : s.lastTick.isSome = true → CronKept task s.session
  settled : s.phase ≠ .firing → ∀ since ∈ s.lastTick, ∀ stamp ∈ s.session.lastScheduledRun,
    ¬ task.croniter.OccursIn .named stamp.instant since
  listed : ∀ session, s.phase = .listed session → s.ListedInv task session
  answered : ∀ stretch ∈ s.stretches, Answered task stretch

section Proofs

variable {task : TaskSchedule} {s t : SchedulerState} {session : Bookkeeping} {now : ℤ}

theorem cronKept_mark (session : Bookkeeping) (now : ℤ) (status : Option LastRunStatus) :
    CronKept task (session.mark task now status (some task.cron)) := by
  simp [CronKept, Bookkeeping.cronChanged, Bookkeeping.mark]

theorem reference_le (hinv : Inv task s) (hlisted : s.ListedInv task session)
    (hclock : s.clock ≤ now) : reference session now ≤ now := by
  unfold reference
  split
  next stamp hmark =>
    obtain ⟨current, hcurrent, hle⟩ := hlisted.behind stamp hmark
    exact (hle.trans (hinv.mark current hcurrent)).trans hclock
  next => exact Int.sub_le_self now tickInterval_nonneg

theorem not_occursIn_of_not_due (hinv : Inv task s) (hlisted : s.ListedInv task session)
    (hclock : s.clock ≤ now) (hzone : ZoneKept task session now)
    (hnone : s.NoneSwallowed task session now)
    (hdue : session.due task now = false) {current : Stamp}
    (hcurrent : current ∈ s.session.lastScheduledRun) :
    ¬ task.croniter.OccursIn .named current.instant now := by
  have hquiet : ¬ task.croniter.OccursIn .named (reference session now) now := by
    rw [← zoneKept_iff.mp hzone, hdue]
    exact Bool.false_ne_true
  have hnow : current.instant ≤ now := (hinv.mark current hcurrent).trans hclock
  cases hmark : session.lastScheduledRun with
  | some stamp =>
    -- The mark is not behind the one that was judged by.
    obtain ⟨known, hknown, hle⟩ := hlisted.behind stamp hmark
    rw [Option.mem_def.mp hcurrent] at hknown
    cases hknown
    have hreference : reference session now = stamp.instant := by rw [reference, hmark]
    rw [hreference] at hquiet
    exact fun h => hquiet (h.mono hle le_rfl)
  | none =>
    have hreference : reference session now = now - tickInterval := by rw [reference, hmark]
    rw [hreference] at hquiet
    obtain ⟨since, hsince, hle⟩ : ∃ since ∈ s.unjudgedSince, since ≤ current.instant := by
      unfold unjudgedSince
      cases htick : s.lastTick with
      | some since => exact ⟨since, rfl, hlisted.fresh hmark since htick current hcurrent⟩
      | none =>
        rw [Option.mem_def.mp hcurrent]
        exact ⟨current.instant, rfl, le_rfl⟩
    intro h
    rcases le_total (now - tickInterval) current.instant with hlate | hearly
    · exact hquiet (h.mono hlate le_rfl)
    · rcases (Croniter.occursIn_iff_or hearly (Int.sub_le_self now tickInterval_nonneg)).mp h
        with hbefore | hafter
      · refine hquiet (hreference ▸ hnone since hsince ?_)
        rw [hreference]
        exact hbefore.mono hle le_rfl
      · exact hquiet hafter

/-- **Nothing is swallowed** exactly if the expression occurs after the reference when it
occurs in the stretch since the last tick. -/
theorem noneSwallowed_iff (hinv : Inv task s) (hlisted : s.ListedInv task session)
    (hclock : s.clock ≤ now) (hapart : ∀ since ∈ s.lastTick, since + tickInterval ≤ now)
    {since : ℤ} (hsince : since ∈ s.lastTick) :
    s.NoneSwallowed task session now
      ↔ (task.croniter.OccursIn .named (reference session now) now
        ↔ task.croniter.OccursIn .named since now) := by
  have hreference := reference_le hinv hlisted hclock
  have hlast : since ≤ now := (hinv.tick since hsince).trans hclock
  have hunjudged : s.unjudgedSince = some since := by
    rw [unjudgedSince, Option.mem_def.mp hsince]
    rfl
  have hnone : s.NoneSwallowed task session now ↔
      (task.croniter.OccursIn .named since (reference session now) →
        task.croniter.OccursIn .named (reference session now) now) := by
    unfold NoneSwallowed
    rw [hunjudged]
    exact ⟨fun h => h since rfl, fun h _ hmem => Option.some.inj hmem ▸ h⟩
  rw [hnone]
  rcases le_total since (reference session now) with hlate | hearly
  · rw [Croniter.occursIn_iff_or hlate hreference]
    exact ⟨fun h => ⟨.inr, fun hor => hor.elim h id⟩, fun h hbefore => h.mpr (.inl hbefore)⟩
  · rw [Croniter.occursIn_iff_or hearly hlast]
    refine iff_of_true (fun h => absurd h (Croniter.not_occursIn_of_le hearly)) (or_iff_right ?_)
    -- A mark that is behind the last tick was judged up to it.
    cases hmark : session.lastScheduledRun with
    | some stamp =>
      rw [reference, hmark]
      exact hlisted.settled since hsince stamp hmark
    | none =>
      -- And a minute ago is not behind the last tick.
      rw [reference, hmark]
      exact Croniter.not_occursIn_of_le (Int.le_sub_right_of_add_le (hapart since hsince))

/-- **A tick that judges rightly** finds the task due exactly if the expression occurs in
the stretch since the last tick. -/
theorem due_iff_occursIn (hinv : Inv task s) (hlisted : s.ListedInv task session)
    (hclock : s.clock ≤ now) (hapart : ∀ since ∈ s.lastTick, since + tickInterval ≤ now)
    (hzone : ZoneKept task session now) (hnone : s.NoneSwallowed task session now)
    {since : ℤ} (hsince : since ∈ s.lastTick) :
    session.due task now = true ↔ task.croniter.OccursIn .named since now :=
  (zoneKept_iff.mp hzone).trans
    ((noneSwallowed_iff hinv hlisted hclock hapart hsince).mp hnone)

theorem zoneKept_of_due_iff (hinv : Inv task s) (hlisted : s.ListedInv task session)
    (hclock : s.clock ≤ now) (hapart : ∀ since ∈ s.lastTick, since + tickInterval ≤ now)
    (hnone : s.NoneSwallowed task session now) {since : ℤ} (hsince : since ∈ s.lastTick)
    (hdue : session.due task now = true ↔ task.croniter.OccursIn .named since now) :
    ZoneKept task session now :=
  zoneKept_iff.mpr
    (hdue.trans ((noneSwallowed_iff hinv hlisted hclock hapart hsince).mp hnone).symm)

theorem noneSwallowed_of_due_iff (hinv : Inv task s) (hlisted : s.ListedInv task session)
    (hclock : s.clock ≤ now) (hapart : ∀ since ∈ s.lastTick, since + tickInterval ≤ now)
    (hzone : ZoneKept task session now) {since : ℤ} (hsince : since ∈ s.lastTick)
    (hdue : session.due task now = true ↔ task.croniter.OccursIn .named since now) :
    s.NoneSwallowed task session now :=
  (noneSwallowed_iff hinv hlisted hclock hapart hsince).mpr
    ((zoneKept_iff.mp hzone).symm.trans hdue)

theorem mem_conclude_stretches {verdict : Verdict} {stretch : Stretch}
    (h : stretch ∈ (s.conclude now verdict).stretches) :
    stretch ∈ s.stretches ∨ ∃ since ∈ s.lastTick, stretch = ⟨since, now, verdict⟩ := by
  rcases List.mem_append.mp h with hold | hnew
  · exact .inl hold
  · rw [Option.mem_toList, Option.map_eq_some_iff] at hnew
    obtain ⟨since, hsince, rfl⟩ := hnew
    exact .inr ⟨since, hsince, rfl⟩

theorem Inv.conclude (h : Inv task s) {session : Bookkeeping} {verdict : Verdict}
    (hmark : ∀ stamp ∈ session.lastScheduledRun, stamp.instant ≤ now)
    (hcron : CronKept task session)
    (hsettled : verdict ≠ .fired → ∀ stamp ∈ session.lastScheduledRun,
      ¬ task.croniter.OccursIn .named stamp.instant now)
    (hanswered : ∀ since ∈ s.lastTick, Answered task ⟨since, now, verdict⟩) :
    Inv task ({ s with session := session }.conclude now verdict) where
  mark := hmark
  tick since hsince := by
    cases hsince
    exact le_rfl
  cron _ := hcron
  settled hphase since hsince := by
    cases hsince
    refine hsettled fun hfired => hphase ?_
    subst hfired
    rfl
  listed session' hphase := by
    have hnot : (if verdict = .fired then TickPhase.firing else .asleep) ≠ .listed session' := by
      split <;> exact TickPhase.noConfusion
    exact absurd hphase hnot
  answered stretch hstretch := by
    rcases mem_conclude_stretches hstretch with hold | ⟨since, hsince, rfl⟩
    · exact h.answered stretch hold
    · exact hanswered since hsince

/-- **A tick that judges rightly** keeps the session in order. -/
theorem Inv.maybeRun (h : Inv task s) (hlisted : s.ListedInv task session)
    (htickable : s.tickable now = true) (hzone : ZoneKept task session now)
    (hnone : s.NoneSwallowed task session now) : Inv task (s.maybeRun task session now) := by
  rw [tickable, Bool.and_eq_true, decide_eq_true_eq, Option.all_eq_true] at htickable
  obtain ⟨hclock, hall⟩ := htickable
  have hapart : ∀ since ∈ s.lastTick, since + tickInterval ≤ now := fun since hsince =>
    of_decide_eq_true (hall since hsince)
  have hnow : ∀ stamp ∈ (some (task.zone.stamp now)), stamp.instant ≤ now ∧
      ¬ task.croniter.OccursIn .named stamp.instant now := by
    intro stamp hstamp
    cases hstamp
    exact ⟨le_rfl, Croniter.not_occursIn_of_le le_rfl⟩
  have hdue : ∀ {since : ℤ}, since ∈ s.lastTick →
      (session.due task now = true ↔ task.croniter.OccursIn .named since now) :=
    fun hsince => due_iff_occursIn h hlisted hclock hapart hzone hnone hsince
  unfold SchedulerState.maybeRun
  split
  next hchanged =>
    -- The expression is found changed at the first tick only.
    refine h.conclude (fun stamp hstamp => (hnow stamp hstamp).1) (cronKept_mark ..)
      (fun _ stamp hstamp => (hnow stamp hstamp).2) fun since hsince => ?_
    have hkept := hlisted.cron (Option.isSome_of_mem hsince)
    rw [CronKept, hchanged] at hkept
    cases hkept
  next hchanged =>
    rw [Bool.not_eq_true] at hchanged
    have hcurrent : CronKept task s.session := by
      rcases hlisted.same with hsame | hkept
      · rw [CronKept, Bookkeeping.cronChanged, hsame]
        exact hchanged
      · exact hkept
    have hmark : ∀ stamp ∈ s.session.lastScheduledRun, stamp.instant ≤ now :=
      fun stamp hstamp => (h.mark stamp hstamp).trans hclock
    split
    next hdue' =>
      split
      · exact h.conclude (fun stamp hstamp => (hnow stamp hstamp).1) hchanged
          (fun _ stamp hstamp => (hnow stamp hstamp).2) fun since hsince =>
            iff_of_true Verdict.noConfusion ((hdue hsince).mp hdue')
      · exact h.conclude hmark hcurrent (fun hfired => absurd rfl hfired) fun since hsince =>
          iff_of_true Verdict.noConfusion ((hdue hsince).mp hdue')
    next hdue' =>
      refine h.conclude hmark hcurrent (fun _ stamp hstamp => ?_) fun since hsince => ?_
      · exact not_occursIn_of_not_due h hlisted hclock hzone hnone
          (Bool.not_eq_true _ ▸ hdue') hstamp
      · exact iff_of_false (fun hne => hne rfl) fun hoccurs => hdue' ((hdue hsince).mpr hoccurs)

theorem Inv.prepare (h : Inv task s) (hclock : s.clock ≤ now) (status : Option LastRunStatus) :
    Inv task (s.prepare task now status) where
  mark stamp hstamp := by
    cases hstamp
    exact le_rfl
  tick since hsince := (h.tick since hsince).trans hclock
  cron _ := cronKept_mark ..
  settled _ since hsince stamp hstamp := by
    cases hstamp
    exact Croniter.not_occursIn_of_le ((h.tick since hsince).trans hclock)
  listed session hphase := by
    have hlisted := h.listed session hphase
    refine ⟨fun stamp hstamp => ⟨task.zone.stamp now, rfl, ?_⟩,
      fun _ since hsince current hcurrent => ?_, hlisted.cron, .inr (cronKept_mark ..), hlisted.settled⟩
    · obtain ⟨current, hcurrent, hle⟩ := hlisted.behind stamp hstamp
      exact (hle.trans (h.mark current hcurrent)).trans hclock
    · cases hcurrent
      exact (h.tick since hsince).trans hclock
  answered := h.answered

/-- **Every step that meets the condition keeps the session in order.** -/
theorem Inv.step (h : Inv task s) {a : SchedulerAction} (hmeets : s.Meets task a)
    (hstep : s.step task a = some t) : Inv task t := by
  cases a with
  | list =>
    simp only [SchedulerState.step] at hstep
    split at hstep
    next hphase =>
      cases hstep
      have hsettled := h.settled (by rw [hphase]; exact TickPhase.noConfusion)
      refine { h with settled := fun _ => hsettled, listed := fun session hlisted => ?_ }
      cases hlisted
      refine ⟨fun stamp hstamp => ⟨stamp, hstamp, le_rfl⟩, fun hmark since _ current hcurrent => ?_,
        h.cron, .inl rfl, hsettled⟩
      rw [Option.mem_def, hmark] at hcurrent
      cases hcurrent
    · cases hstep
  | judge now =>
    simp only [SchedulerState.step] at hstep
    simp only [SchedulerState.Meets] at hmeets
    split at hstep
    next session hphase =>
      split at hstep
      next htickable =>
        cases hstep
        rw [hphase] at hmeets
        exact h.maybeRun (h.listed session hphase) htickable hmeets.1 hmeets.2
      · cases hstep
    · cases hstep
  | prepare now status registers =>
    simp only [SchedulerState.step] at hstep
    split at hstep
    next hphase =>
      split at hstep
      next hclock =>
        cases hstep
        have hprepared := h.prepare hclock status
        refine { hprepared with settled := fun _ => ?_, listed := fun _ hlisted => nomatch hlisted }
        intro since hsince stamp hstamp
        cases hstamp
        exact Croniter.not_occursIn_of_le ((h.tick since hsince).trans hclock)
      · cases hstep
    · cases hstep
  | runTaskNow now status =>
    simp only [SchedulerState.step] at hstep
    split at hstep
    next hclock =>
      cases hstep
      exact h.prepare hclock status
    · cases hstep
  | roundEnds =>
    cases hstep
    exact { h with listed := fun session hphase => { h.listed session hphase with } }

theorem inv_start {clock : ℤ} (hmark : ∀ stamp ∈ session.lastScheduledRun, stamp.instant ≤ clock) :
    Inv task { session := session, clock := clock } where
  mark := hmark
  tick _ h := nomatch h
  cron h := nomatch h
  settled _ _ h := nomatch h
  listed _ h := nomatch h
  answered _ h := nomatch h

end Proofs

end SchedulerState

/-! ## The main result -/

/-- A second, an hour and a day. -/
def second : ℤ := 1000000
def hour : ℤ := 3600 * second
def day : ℤ := 24 * hour

/-- The moment of the change, in the night of the 8th of March 2026. -/
def clockChange : ℤ := 1772953200 * second

/-- A zone five hours behind, and four from the change on. -/
def eastern : ZoneInfo where
  utcoffset instant := if instant < clockChange then -5 * hour else -4 * hour
  ofWall wall := if wall < clockChange - 4 * hour then wall + 5 * hour else wall + 4 * hour

theorem eastern_of_lt {o : ℤ} (h : o < clockChange) : eastern.utcoffset o = -5 * hour := if_pos h

theorem eastern_of_ge {o : ℤ} (h : clockChange ≤ o) : eastern.utcoffset o = -4 * hour :=
  if_neg (not_lt.mpr h)

/-- The first nine o'clock after an instant, at a fixed offset. -/
def nextNine (offset start : ℤ) : ℤ := start + 1 + (9 * hour - offset - (start + 1)) % day

theorem isLeast_nextNine (offset start : ℤ) :
    IsLeast {o | start < o ∧ (o + offset) % day = 9 * hour} (nextNine offset start) := by
  have hday : day = 86400000000 := by decide
  have hnine : 9 * hour = 32400000000 := by decide
  rw [hday, hnine]
  constructor
  · show start < nextNine offset start ∧ _
    rw [nextNine, hday, hnine]
    omega
  · rintro o ⟨hlt, hnine'⟩
    rw [nextNine, hday, hnine]
    omega

/-- `0 9 * * *`. -/
def atNine : Croniter where
  occurs zone o :=
    match zone with
    | .fixed offset => (o + offset) % day = 9 * hour
    | .named => (o + eastern.utcoffset o) % day = 9 * hour
  getNext zone start :=
    match zone with
    | .fixed offset => nextNine offset start
    | .named =>
      if nextNine (-5 * hour) start < clockChange then nextNine (-5 * hour) start
      else nextNine (-4 * hour) (max start (clockChange - 1))
  isLeast_getNext zone start := by
    cases zone with
    | fixed offset => exact isLeast_nextNine offset start
    | named =>
      have hbefore := isLeast_nextNine (-5 * hour) start
      have hafter := isLeast_nextNine (-4 * hour) (max start (clockChange - 1))
      show IsLeast {o | start < o ∧ (o + eastern.utcoffset o) % day = 9 * hour} _
      simp only
      split
      next hlt =>
        refine ⟨⟨hbefore.1.1, ?_⟩, fun o ho => ?_⟩
        · rw [eastern_of_lt hlt]
          exact hbefore.1.2
        · rcases lt_or_ge o clockChange with hold | hnew
          · have hoccurs := ho.2
            rw [eastern_of_lt hold] at hoccurs
            exact hbefore.2 ⟨ho.1, hoccurs⟩
          · exact hlt.le.trans hnew
      next hnot =>
        have hge : clockChange ≤ nextNine (-4 * hour) (max start (clockChange - 1)) :=
          Int.le_of_sub_one_lt ((le_max_right ..).trans_lt hafter.1.1)
        refine ⟨⟨(le_max_left ..).trans_lt hafter.1.1, ?_⟩, fun o ho => ?_⟩
        · rw [eastern_of_ge hge]
          exact hafter.1.2
        · have hoccurs := ho.2
          rcases lt_or_ge o clockChange with hold | hnew
          · rw [eastern_of_lt hold] at hoccurs
            exact absurd ((hbefore.2 ⟨ho.1, hoccurs⟩).trans_lt hold) hnot
          · rw [eastern_of_ge hnew] at hoccurs
            exact hafter.2 ⟨max_lt ho.1 (Int.sub_one_lt_of_le hnew), hoccurs⟩

/-- A task at nine every day, in that zone. -/
def everyNine : TaskSchedule := ⟨"0 9 * * *", eastern, atNine⟩

/-- The day before the change, twenty seconds past nine. -/
def dayBefore : ℤ := clockChange - 17 * hour + 20 * second

end ScheduledRuns
