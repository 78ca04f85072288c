import CharlieBot.FinalizeEffects
import CharlieBot.SidebarState
import CharlieBot.Triggers
import Mathlib.Data.List.Nodup

/-!
# Polls of the sidebar

The sidebar shows of each session whether a thread runs, how many triggers
wait and whether a plan awaits approval. What was read of the files is kept,
under the signature of the files, and a poll reads again only the sessions
that are marked, or every session when it is forced to. Every tenth poll leaves
a sweep behind that goes over the sessions on its own. A probe walks over the
files of its sessions first, reads those whose signature is not the one that is
kept, and stores what it has for all of them at its end.

A poll takes the marks of the sessions it probes, and a probe stores what it
has whatever was stored since it walked. Along every run in which **no other
probe stores a session between the walk of a probe and its end**, and no poll
begins while another one still has the mark of a session that it will not probe
itself, each poll serves what was marked before it began, and nothing that was
read replaces what was read after it (`SidebarPolls.served_fresh_of_guarded`). A slow
probe undoes a quick one (`SidebarPolls.served_old`).
-/

/-! ## What is read -/

/-- **The files of a session** that are probed. -/
structure ProbeInputs where
  threads : List ThreadStatus := []
  /-- The triggers, and when they fire. -/
  triggers : List (TriggerStatus × Option ℕ) := []
  planStates : List String := []
  deriving DecidableEq

/-- **An entry of the snapshot.** -/
structure SnapshotEntry where
  threadRunning : Bool
  pendingTriggerCount : ℕ
  nextTriggerAt : Option ℕ
  hasPendingPlanApproval : Bool
  deriving DecidableEq

/-- The earlier one of two times. -/
def earlier (next : Option ℕ) (fireAt : Option ℕ) : Option ℕ :=
  match next, fireAt with
  | next, none => next
  | none, some fireAt => some fireAt
  | some next, some fireAt => if fireAt < next then some fireAt else some next

/-- `probe_sidebar_state_sync`, for one session. -/
def probeSidebarState (inputs : ProbeInputs) : SnapshotEntry :=
  let pending := inputs.triggers.filter fun tr => tr.1 = .pending
  { threadRunning := inputs.threads.any fun status => status = .running
    pendingTriggerCount := pending.length
    nextTriggerAt := pending.foldl (fun next tr => earlier next tr.2) none
    hasPendingPlanApproval := inputs.planStates.any fun state => state = "awaiting approval" }

/-- The files as they were when so many saves were made. -/
def inputsAt (saves : List ProbeInputs) (n : ℕ) : ProbeInputs := (saves.take n).getLast?.getD {}

/-- **An entry reflects the first saves**: it was read when these were made. -/
def Reflects (saves : List ProbeInputs) (n : ℕ) (entry : SnapshotEntry) : Prop :=
  ∃ r, n ≤ r ∧ r ≤ saves.length ∧ entry = probeSidebarState (inputsAt saves r)

/-! ## Probes -/

/-- **A session that a probe walked over.** -/
structure WalkedSession where
  session : String
  /-- The signature of the files: every save moves it. -/
  sig : ℕ
  /-- How often the session had been stored then. -/
  stores : ℕ
  /-- When it was walked over, counted in walks. -/
  time : ℕ
  deriving DecidableEq

/-- **A probe in progress**: a poll's, or the sweep. -/
structure SidebarProbe where
  /-- The sessions the poll asks for, with what had been marked of each when it began;
  none for the sweep. -/
  asked : List (String × ℕ)
  isSweep : Bool
  /-- It reads whatever the signatures say. -/
  deep : Bool
  /-- The sessions it was started for. -/
  selected : List String
  /-- Those among them whose mark it took. -/
  taken : List String
  /-- Those that are still to be walked over. -/
  specs : List String
  walked : List WalkedSession := []
  /-- What is still to be read. -/
  toProbe : List WalkedSession := []
  probed : List (WalkedSession × SnapshotEntry) := []

/-- `_sidebar_sweep_task`. -/
inductive SweepTask where
  | done
  | created (sessions : List String)
  | running
  deriving DecidableEq

/-- `_schedule_sidebar_sweep`: one at a time. -/
def SweepTask.schedule (task : SweepTask) (sessions : List String) : SweepTask :=
  match task with
  | .done => .created sessions
  | _ => task

/-- **A row that was served.** -/
structure ServedRow where
  session : String
  /-- How many saves had been marked when the poll began. -/
  owed : ℕ
  entry : Option SnapshotEntry
  /-- What was saved until it was served. -/
  saves : List ProbeInputs

/-- **The state.** -/
structure SidebarPolls where
  /-- What was saved of each session, the latest last. -/
  saves : String → List ProbeInputs := fun _ => []
  /-- The saves that are not marked yet. -/
  unmarked : String → List ℕ := fun _ => []
  /-- The latest save that was marked. -/
  marked : String → ℕ := fun _ => 0
  registry : SidebarRegistry String := {}
  /-- `_snapshot`. -/
  snapshot : String → Option SnapshotEntry := fun _ => none
  /-- `_probe_signatures`. -/
  signatures : String → Option ℕ := fun _ => none
  /-- `_poll_count`. -/
  pollCount : ℕ := 0
  sweepTask : SweepTask := .done
  probes : ℕ → Option SidebarProbe := fun _ => none
  served : List ServedRow := []
  walks : ℕ := 0
  /-- How often a session was stored. -/
  stores : String → ℕ := fun _ => 0
  /-- When the files were walked over that the entry of a session is from. -/
  entryTime : String → Option ℕ := fun _ => none
  /-- What replaced what: the times of the walks. -/
  replaced : List (ℕ × ℕ) := []

def forceFullEvery : ℕ := 10

inductive SidebarAction where
  /-- A file of a session is renamed into place. -/
  | save (session : String) (inputs : ProbeInputs)
  | mark (session : String) (save : ℕ)
  /-- A mark of another kind. -/
  | markOther (session : String)
  | openPoll (probe : ℕ) (sessions : List String) (force : Bool)
  | openSweep (probe : ℕ)
  /-- A probe walks over the files of its next session. -/
  | walk (probe : ℕ)
  /-- A probe reads the files of its next session. -/
  | read (probe : ℕ)
  | store (probe : ℕ)
  | fail (probe : ℕ)

namespace SidebarPolls

def setProbe (s : SidebarPolls) (i : ℕ) (p : Option SidebarProbe) : SidebarPolls :=
  { s with probes := Function.update s.probes i p }

/-- Sessions marked once more. -/
def markAll (registry : SidebarRegistry String) (sessions : List String) :
    SidebarRegistry String :=
  sessions.foldl (fun r session => r.mark session none) registry

/-- The rows of a poll are served from the snapshot. -/
def serve (s : SidebarPolls) (asked : List (String × ℕ)) : SidebarPolls :=
  { s with
    served := (asked.map fun a => ⟨a.1, a.2, s.snapshot a.1, s.saves a.1⟩) ++ s.served }

/-- `resolve_sidebar_state`, up to where it waits. -/
def openPoll (s : SidebarPolls) (i : ℕ) (sessions : List String) (force : Bool) : SidebarPolls :=
  let pollCount := s.pollCount + 1
  let s := { s with
    pollCount
    sweepTask := if !force && pollCount % forceFullEvery == 0 then s.sweepTask.schedule sessions
      else s.sweepTask }
  let asked := sessions.map fun session => (session, s.marked session)
  let selected := if force then sessions else sessions.filter fun session =>
    s.registry.dirty session || (s.snapshot session).isNone
  let taken := selected.filter s.registry.dirty
  let s := { s with registry := s.registry.discardDirty selected }
  if selected = [] then s.serve asked
  else s.setProbe i (some
    { asked, isSweep := false, deep := force, selected, taken, specs := selected })

/-- The sweep's task begins: marked sessions are left to the polls. -/
def openSweep (s : SidebarPolls) (i : ℕ) (sessions : List String) : SidebarPolls :=
  let specs := sessions.filter fun session => !s.registry.dirty session
  if specs = [] then { s with sweepTask := .done }
  else { s with sweepTask := .running }.setProbe i (some
    { asked := [], isSweep := true, deep := false, selected := specs, taken := [], specs })

/-- `_sidebar_probe_walk`. -/
def probeWalk (s : SidebarPolls) (session : String) : WalkedSession :=
  { session, sig := (s.saves session).length, stores := s.stores session, time := s.walks }

/-- A session is walked over, and it turns out whether it is to be read. -/
def walkNext (s : SidebarPolls) (i : ℕ) (p : SidebarProbe) (session : String)
    (rest : List String) : SidebarPolls :=
  let w := s.probeWalk session
  { s with walks := s.walks + 1 }.setProbe i (some
    { p with
      specs := rest
      walked := p.walked ++ [w]
      toProbe := if p.deep || s.signatures session != some w.sig then p.toProbe ++ [w]
        else p.toProbe })

def probedOf (p : SidebarProbe) (session : String) : Option (WalkedSession × SnapshotEntry) :=
  p.probed.find? fun e => e.1.session = session

def walkedOf (p : SidebarProbe) (session : String) : Option WalkedSession :=
  p.walked.find? fun w => w.session = session

/-- `_store_probe_results`: the entries, then the signatures. -/
def storeProbeResults (s : SidebarPolls) (p : SidebarProbe) : SidebarPolls :=
  { s with
    snapshot := fun session => ((probedOf p session).map Prod.snd).or (s.snapshot session)
    signatures := fun session => ((walkedOf p session).map WalkedSession.sig).or (s.signatures session)
    stores := fun session => s.stores session + if (walkedOf p session).isSome then 1 else 0
    entryTime := fun session =>
      ((probedOf p session).map fun e => e.1.time).or (s.entryTime session)
    replaced := (p.probed.filterMap fun e =>
      (s.entryTime e.1.session).map fun old => (old, e.1.time)) ++ s.replaced }

/-- A probe is done: a poll serves its rows. -/
def storeAll (s : SidebarPolls) (i : ℕ) (p : SidebarProbe) : SidebarPolls :=
  let s := (s.storeProbeResults p).setProbe i none
  if p.isSweep then { s with sweepTask := .done } else s.serve p.asked

/-- A probe fails: what it was to probe is marked once more. -/
def failAll (s : SidebarPolls) (i : ℕ) (p : SidebarProbe) : SidebarPolls :=
  { s.setProbe i none with
    registry := markAll s.registry p.selected
    sweepTask := if p.isSweep then .done else s.sweepTask }

def step (s : SidebarPolls) : SidebarAction → Option SidebarPolls
  | .save session inputs =>
    some { s with
      saves := Function.update s.saves session (s.saves session ++ [inputs])
      unmarked := Function.update s.unmarked session
        (((s.saves session).length + 1) :: s.unmarked session) }
  | .mark session save =>
    if save ∈ s.unmarked session then
      some { s with
        unmarked := Function.update s.unmarked session ((s.unmarked session).erase save)
        marked := Function.update s.marked session (max (s.marked session) save)
        registry := s.registry.mark session none }
    else none
  | .markOther session => some { s with registry := s.registry.mark session none }
  | .openPoll i sessions force =>
    if (s.probes i).isNone && decide sessions.Nodup then some (s.openPoll i sessions force)
    else none
  | .openSweep i =>
    match s.sweepTask, s.probes i with
    | .created sessions, none => some (s.openSweep i sessions)
    | _, _ => none
  | .walk i => do
    let p ← s.probes i
    match p.specs with
    | session :: rest => some (s.walkNext i p session rest)
    | [] => none
  | .read i => do
    let p ← s.probes i
    match p.specs, p.toProbe with
    | [], w :: rest =>
      let entry := probeSidebarState (inputsAt (s.saves w.session) (s.saves w.session).length)
      some (s.setProbe i (some { p with toProbe := rest, probed := p.probed ++ [(w, entry)] }))
    | _, _ => none
  | .store i => do
    let p ← s.probes i
    match p.specs, p.toProbe with
    | [], [] => some (s.storeAll i p)
    | _, _ => none
  | .fail i => do
    let p ← s.probes i
    some (s.failAll i p)

def system : TransitionSystem SidebarPolls SidebarAction := ⟨step⟩

/-- **The sidebar is fresh**: every row that was served reflects the saves that had been
marked when its poll began, and nothing replaced what was walked over after it. -/
def Fresh (s : SidebarPolls) : Prop :=
  (∀ row ∈ s.served, ∃ entry, row.entry = some entry ∧ Reflects row.saves row.owed entry)
    ∧ ∀ r ∈ s.replaced, r.1 ≤ r.2

variable {s t : SidebarPolls} {i : ℕ} {p : SidebarProbe} {session : String}

/-! ## What was read -/

theorem inputsAt_append {saves : List ProbeInputs} {r : ℕ} (h : r ≤ saves.length)
    (inputs : ProbeInputs) : inputsAt (saves ++ [inputs]) r = inputsAt saves r := by
  unfold inputsAt
  rw [List.take_append_of_le_length h]

theorem reflects_append {saves : List ProbeInputs} {n : ℕ} {entry : SnapshotEntry}
    (h : Reflects saves n entry) (inputs : ProbeInputs) :
    Reflects (saves ++ [inputs]) n entry := by
  obtain ⟨r, hle, hlen, rfl⟩ := h
  refine ⟨r, hle, ?_, ?_⟩
  · rw [List.length_append]
    exact Nat.le_add_right_of_le hlen
  · rw [inputsAt_append hlen]

theorem reflects_mono {saves : List ProbeInputs} {n m : ℕ} {entry : SnapshotEntry}
    (h : Reflects saves n entry) (hle : m ≤ n) : Reflects saves m entry := by
  obtain ⟨r, hr, hlen, rfl⟩ := h
  exact ⟨r, hle.trans hr, hlen, rfl⟩

theorem reflects_read (saves : List ProbeInputs) {n : ℕ} (h : n ≤ saves.length) :
    Reflects saves n (probeSidebarState (inputsAt saves saves.length)) :=
  ⟨saves.length, h, Nat.le_refl _, rfl⟩

/-! ## The invariant -/

/-- **A session that a probe walked over.** -/
structure WalkedInv (s : SidebarPolls) (p : SidebarProbe) (w : WalkedSession) : Prop where
  sig_le : w.sig ≤ (s.saves w.session).length
  time_lt : w.time < s.walks
  stores_le : w.stores ≤ s.stores w.session
  /-- While it was not stored since, what is stored of it is older. -/
  older : s.stores w.session = w.stores → (∀ sig, s.signatures w.session = some sig → sig ≤ w.sig)
    ∧ ∀ time, s.entryTime w.session = some time → time ≤ w.time
  owed_le : ∀ owed, (w.session, owed) ∈ p.asked → owed ≤ w.sig
  /-- It is read, or will be, or what is stored of it has its signature. -/
  probed : w ∈ p.toProbe ∨ (∃ entry, (w, entry) ∈ p.probed)
    ∨ (s.stores w.session = w.stores → s.signatures w.session = some w.sig)

/-- **A probe in progress.** -/
structure ProbeInv (s : SidebarPolls) (p : SidebarProbe) : Prop where
  nodup : p.selected.Nodup
  selected_eq : p.selected = p.walked.map WalkedSession.session ++ p.specs
  taken_sub : ∀ session ∈ p.taken, session ∈ p.selected
  owed_le : ∀ a ∈ p.asked, a.2 ≤ (s.saves a.1).length
  /-- What it does not probe is good enough as it is stored. -/
  unselected : ∀ a ∈ p.asked, a.1 ∉ p.selected →
    ∃ sig, s.signatures a.1 = some sig ∧ a.2 ≤ sig
  walked : ∀ w ∈ p.walked, WalkedInv s p w
  toProbe_sub : ∀ w ∈ p.toProbe, w ∈ p.walked
  probed : ∀ e ∈ p.probed, e.1 ∈ p.walked ∧ Reflects (s.saves e.1.session) e.1.sig e.2

/-- What a probe has of a session is as new as its marks, where it has anything. -/
def Ahead (s : SidebarPolls) (p : SidebarProbe) (session : String) : Prop :=
  ∀ w ∈ p.walked, w.session = session → s.marked session ≤ w.sig

/-- **A mark is not lost**: the session is marked, or what is stored of it is as new as
its last mark, or a probe took that mark, or nothing was stored of it yet. -/
def Kept (s : SidebarPolls) (session : String) : Prop :=
  s.registry.dirty session = true
    ∨ (∃ sig, s.signatures session = some sig ∧ s.marked session ≤ sig)
    ∨ (∃ i p, s.probes i = some p ∧ session ∈ p.taken ∧ s.Ahead p session)
    ∨ s.signatures session = none ∧ ∀ i p, s.probes i = some p → s.Ahead p session

/-- **What holds of a state.** -/
structure Inv (s : SidebarPolls) : Prop where
  marked_le : ∀ session, s.marked session ≤ (s.saves session).length
  unmarked_le : ∀ session, ∀ n ∈ s.unmarked session, n ≤ (s.saves session).length
  entry : ∀ session entry, s.snapshot session = some entry →
    ∃ sig, s.signatures session = some sig ∧ Reflects (s.saves session) sig entry
  sig : ∀ session sig, s.signatures session = some sig →
    (∃ entry, s.snapshot session = some entry) ∧ sig ≤ (s.saves session).length
  time : ∀ session time, s.entryTime session = some time → time < s.walks
  kept : ∀ session, s.Kept session
  probes : ∀ i p, s.probes i = some p → ProbeInv s p
  fresh : s.Fresh

/-- **What the steps must meet**: no other probe stored a session between the walk of a
probe over it and the end of the probe, and no poll that asks for a session that is
not marked begins while another poll has taken its mark. -/
def Sound (s : SidebarPolls) : SidebarAction → Prop
  | .store i => ∀ p, s.probes i = some p → ∀ w ∈ p.walked, s.stores w.session = w.stores
  | .openPoll _ sessions force => force = false → ∀ session ∈ sessions,
      s.registry.dirty session = false → ∀ j p, s.probes j = some p → session ∉ p.taken
  | _ => True

/-! ### A save, a mark -/

theorem Inv.save (h : Inv s) (session : String) (inputs : ProbeInputs) :
    Inv { s with
      saves := Function.update s.saves session (s.saves session ++ [inputs])
      unmarked := Function.update s.unmarked session
        (((s.saves session).length + 1) :: s.unmarked session) } := by
  have hlen : ∀ other, (s.saves other).length
      ≤ (Function.update s.saves session (s.saves session ++ [inputs]) other).length := by
    intro other
    by_cases ho : other = session
    · subst ho
      rw [Function.update_self, List.length_append]
      exact Nat.le_add_right _ _
    · rw [Function.update_of_ne ho]
  have hreflects : ∀ {other n entry}, Reflects (s.saves other) n entry →
      Reflects (Function.update s.saves session (s.saves session ++ [inputs]) other) n entry := by
    intro other n entry hr
    by_cases ho : other = session
    · subst ho
      rw [Function.update_self]
      exact reflects_append hr inputs
    · rw [Function.update_of_ne ho]
      exact hr
  refine ⟨fun other => (h.marked_le other).trans (hlen other), fun other n hn => ?_,
    fun other entry he => ?_, fun other sig hs => ?_, h.time, h.kept, fun i p hp => ?_, h.fresh⟩
  · by_cases ho : other = session
    · subst ho
      simp only [Function.update_self, List.length_append] at hn ⊢
      rcases List.mem_cons.mp hn with rfl | hn
      · exact Nat.le_refl _
      · exact Nat.le_add_right_of_le (h.unmarked_le other n hn)
    · simp only [Function.update_of_ne ho] at hn ⊢
      exact h.unmarked_le other n hn
  · obtain ⟨sig, hsig, hr⟩ := h.entry other entry he
    exact ⟨sig, hsig, hreflects hr⟩
  · exact ⟨(h.sig other sig hs).1, (h.sig other sig hs).2.trans (hlen other)⟩
  · have hprobe := h.probes i p hp
    exact
      { nodup := hprobe.nodup
        selected_eq := hprobe.selected_eq
        taken_sub := hprobe.taken_sub
        owed_le := fun a ha => (hprobe.owed_le a ha).trans (hlen a.1)
        unselected := hprobe.unselected
        walked := fun w hw =>
          { sig_le := (hprobe.walked w hw).sig_le.trans (hlen w.session)
            time_lt := (hprobe.walked w hw).time_lt
            stores_le := (hprobe.walked w hw).stores_le
            older := (hprobe.walked w hw).older
            owed_le := (hprobe.walked w hw).owed_le
            probed := (hprobe.walked w hw).probed }
        toProbe_sub := hprobe.toProbe_sub
        probed := fun e he => ⟨(hprobe.probed e he).1, hreflects (hprobe.probed e he).2⟩ }

/-- **A probe says the same** of a state in which nothing was saved or stored. -/
theorem ProbeInv.frame (h : ProbeInv s p) (hsaves : t.saves = s.saves)
    (hsignatures : t.signatures = s.signatures) (hstores : t.stores = s.stores)
    (htime : t.entryTime = s.entryTime) (hwalks : s.walks ≤ t.walks) : ProbeInv t p where
  nodup := h.nodup
  selected_eq := h.selected_eq
  taken_sub := h.taken_sub
  owed_le := hsaves ▸ h.owed_le
  unselected := hsignatures ▸ h.unselected
  walked w hw :=
    { sig_le := hsaves ▸ (h.walked w hw).sig_le
      time_lt := (h.walked w hw).time_lt.trans_le hwalks
      stores_le := hstores ▸ (h.walked w hw).stores_le
      older := by
        rw [hstores, hsignatures, htime]
        exact (h.walked w hw).older
      owed_le := (h.walked w hw).owed_le
      probed := by
        rw [hstores, hsignatures]
        exact (h.walked w hw).probed }
  toProbe_sub := h.toProbe_sub
  probed := hsaves ▸ h.probed

theorem dirty_mark_self (r : SidebarRegistry String) (session : String) (path : Option String) :
    (r.mark session path).dirty session = true := Function.update_self ..

theorem dirty_mark (r : SidebarRegistry String) {session other : String} (path : Option String)
    (h : r.dirty other = true) : (r.mark session path).dirty other = true := by
  by_cases ho : other = session
  · subst ho
    exact dirty_mark_self r other path
  · exact (Function.update_of_ne ho ..).trans h

theorem Inv.mark (h : Inv s) (session : String) {unmarked : String → List ℕ}
    {marked : String → ℕ} (hunmarked : ∀ other, ∀ n ∈ unmarked other, n ∈ s.unmarked other)
    (hmarked : ∀ other, marked other ≤ (s.saves other).length)
    (hne : ∀ other, other ≠ session → marked other = s.marked other) :
    Inv { s with unmarked, marked, registry := s.registry.mark session none } where
  marked_le := hmarked
  unmarked_le other n hn := h.unmarked_le other n (hunmarked other n hn)
  entry := h.entry
  sig := h.sig
  time := h.time
  kept other := by
    by_cases ho : other = session
    · subst ho
      exact .inl (dirty_mark_self _ _ none)
    · unfold Kept Ahead
      simp only [hne other ho]
      exact (h.kept other).imp_left (dirty_mark _ none)
  probes i p hp := (h.probes i p hp).frame rfl rfl rfl rfl (Nat.le_refl _)
  fresh := h.fresh

theorem dirty_markAll (r : SidebarRegistry String) (sessions : List String) {session : String}
    (h : r.dirty session = true ∨ session ∈ sessions) :
    (markAll r sessions).dirty session = true := by
  induction sessions generalizing r with
  | nil => exact h.resolve_right List.not_mem_nil
  | cons other sessions ih =>
    refine ih (r.mark other none) ?_
    rcases h with h | h
    · exact .inl (dirty_mark r none h)
    · rcases List.mem_cons.mp h with rfl | h
      · exact .inl (dirty_mark_self r session none)
      · exact .inr h

/-! ### Probes -/

theorem probes_setProbe {q : Option SidebarProbe} {j : ℕ} {p' : SidebarProbe}
    (h : (s.setProbe i q).probes j = some p') : j = i ∧ q = some p' ∨ j ≠ i ∧ s.probes j = some p' := by
  simp only [setProbe] at h
  by_cases hj : j = i
  · subst hj
    rw [Function.update_self] at h
    exact .inl ⟨rfl, h⟩
  · rw [Function.update_of_ne hj] at h
    exact .inr ⟨hj, h⟩

theorem setProbe_self (q : Option SidebarProbe) : (s.setProbe i q).probes i = q :=
  Function.update_self ..

theorem setProbe_of_ne {q : Option SidebarProbe} {j : ℕ} (h : j ≠ i) :
    (s.setProbe i q).probes j = s.probes j := Function.update_of_ne h ..

theorem Inv.failAll (h : Inv s) (hp : s.probes i = some p) : Inv (s.failAll i p) where
  marked_le := h.marked_le
  unmarked_le := h.unmarked_le
  entry := h.entry
  sig := h.sig
  time := h.time
  kept other := by
    rcases h.kept other with hdirty | hsig | ⟨j, q, hq, htaken, hahead⟩ | ⟨hnone, hall⟩
    · exact .inl (dirty_markAll _ _ (.inl hdirty))
    · exact .inr (.inl hsig)
    · by_cases hj : j = i
      · subst hj
        rw [hp] at hq
        cases hq
        exact .inl (dirty_markAll _ _ (.inr ((h.probes j _ hp).taken_sub other htaken)))
      · exact .inr (.inr (.inl ⟨j, q, (setProbe_of_ne hj).trans hq, htaken, hahead⟩))
    · refine .inr (.inr (.inr ⟨hnone, fun j q hq => ?_⟩))
      rcases probes_setProbe hq with ⟨-, hq⟩ | ⟨-, hq⟩
      · cases hq
      · exact hall j q hq
  probes j q hq := by
    rcases probes_setProbe hq with ⟨-, hq⟩ | ⟨-, hq⟩
    · cases hq
    · exact (h.probes j q hq).frame rfl rfl rfl rfl (Nat.le_refl _)
  fresh := h.fresh

theorem Inv.withTask (h : Inv s) (pollCount : ℕ) (sweepTask : SweepTask) :
    Inv { s with pollCount, sweepTask } where
  marked_le := h.marked_le
  unmarked_le := h.unmarked_le
  entry := h.entry
  sig := h.sig
  time := h.time
  kept := h.kept
  probes j q hq := (h.probes j q hq).frame rfl rfl rfl rfl (Nat.le_refl _)
  fresh := h.fresh

theorem Inv.goOn (h : Inv s) {p' : SidebarProbe} {walks : ℕ} (hp : s.probes i = some p)
    (hwalks : s.walks ≤ walks) (hprobe : ProbeInv { s with walks } p') (htaken : p'.taken = p.taken)
    (hahead : ∀ session, s.Ahead p session → s.Ahead p' session) :
    Inv ({ s with walks }.setProbe i (some p')) where
  marked_le := h.marked_le
  unmarked_le := h.unmarked_le
  entry := h.entry
  sig := h.sig
  time other time ht := (h.time other time ht).trans_le hwalks
  kept other := by
    rcases h.kept other with hdirty | hsig | ⟨j, q, hq, htake, hq'⟩ | ⟨hnone, hall⟩
    · exact .inl hdirty
    · exact .inr (.inl hsig)
    · refine .inr (.inr (.inl ?_))
      by_cases hj : j = i
      · subst hj
        rw [hp] at hq
        cases hq
        exact ⟨j, p', setProbe_self _, htaken ▸ htake, hahead other hq'⟩
      · exact ⟨j, q, (setProbe_of_ne hj).trans hq, htake, hq'⟩
    · refine .inr (.inr (.inr ⟨hnone, fun j q hq => ?_⟩))
      rcases probes_setProbe hq with ⟨-, hq⟩ | ⟨-, hq⟩
      · cases hq
        exact hahead other (hall i p hp)
      · exact hall j q hq
  probes j q hq := by
    rcases probes_setProbe hq with ⟨-, hq⟩ | ⟨-, hq⟩
    · cases hq
      exact hprobe.frame rfl rfl rfl rfl (Nat.le_refl _)
    · exact (h.probes j q hq).frame rfl rfl rfl rfl hwalks
  fresh := h.fresh

theorem Inv.walkNext (h : Inv s) {rest : List String} (hp : s.probes i = some p)
    (hspecs : p.specs = session :: rest) : Inv (s.walkNext i p session rest) := by
  have hprobe := h.probes i p hp
  have hnew : session ∉ p.walked.map WalkedSession.session := by
    have hnodup := hprobe.nodup
    rw [hprobe.selected_eq, hspecs, List.nodup_append] at hnodup
    exact fun hmem => hnodup.2.2 session hmem session List.mem_cons_self rfl
  refine h.goOn hp (Nat.le_succ _) ?_ rfl fun other hahead w hw hsession => ?_
  · refine ⟨hprobe.nodup, ?_, hprobe.taken_sub, hprobe.owed_le, hprobe.unselected,
      fun w hw => ?_, fun w hw => ?_, fun e he => ?_⟩
    · rw [hprobe.selected_eq, hspecs, List.map_append, List.append_assoc]
      rfl
    · rcases List.mem_append.mp hw with hw | hw
      · have hold := hprobe.walked w hw
        refine ⟨hold.sig_le, hold.time_lt.trans_le (Nat.le_succ _), hold.stores_le, hold.older,
          hold.owed_le, hold.probed.imp_left fun hmem => ?_⟩
        show w ∈ if _ then p.toProbe ++ _ else p.toProbe
        split
        · exact List.mem_append_left _ hmem
        · exact hmem
      · rw [List.mem_singleton.mp hw]
        refine ⟨Nat.le_refl _, Nat.lt_succ_self _, Nat.le_refl _, fun _ => ⟨fun sig hsig => ?_,
          fun time htime => ?_⟩, fun owed howed => hprobe.owed_le _ howed, ?_⟩
        · exact (h.sig session sig hsig).2
        · exact (h.time session time htime).le
        · show _ ∈ (if _ then p.toProbe ++ _ else p.toProbe) ∨ _
          split
          · exact .inl (List.mem_append_right _ List.mem_cons_self)
          · next hskip =>
            rw [Bool.or_eq_true, not_or, bne_iff_ne, not_not] at hskip
            exact .inr (.inr fun _ => hskip.2)
    · have hmem : w ∈ p.toProbe ∨ w ∈ [s.probeWalk session] := by
        revert hw
        show w ∈ (if _ then p.toProbe ++ _ else p.toProbe) → _
        split
        · exact List.mem_append.mp
        · exact .inl
      rcases hmem with hmem | hmem
      · exact List.mem_append_left _ (hprobe.toProbe_sub w hmem)
      · exact List.mem_append_right _ hmem
    · exact ⟨List.mem_append_left _ (hprobe.probed e he).1, (hprobe.probed e he).2⟩
  · rcases List.mem_append.mp hw with hw | hw
    · exact hahead w hw hsession
    · rw [List.mem_singleton.mp hw] at hsession ⊢
      subst hsession
      exact h.marked_le session

theorem Inv.readNext (h : Inv s) {w : WalkedSession} {rest : List WalkedSession}
    (hp : s.probes i = some p) (htodo : p.toProbe = w :: rest) :
    Inv (s.setProbe i (some { p with
      toProbe := rest
      probed := p.probed ++ [(w, probeSidebarState
        (inputsAt (s.saves w.session) (s.saves w.session).length))] })) := by
  have hprobe := h.probes i p hp
  have hw : w ∈ p.walked := hprobe.toProbe_sub w (htodo ▸ List.mem_cons_self)
  refine @Inv.goOn _ _ _ h _ s.walks hp (Nat.le_refl _) ?_ rfl fun other hahead => hahead
  refine ⟨hprobe.nodup, hprobe.selected_eq, hprobe.taken_sub, hprobe.owed_le, hprobe.unselected,
    fun w' hw' => ?_, fun w' hw' => ?_, fun e he => ?_⟩
  · have hold := hprobe.walked w' hw'
    refine ⟨hold.sig_le, hold.time_lt, hold.stores_le, hold.older, hold.owed_le, ?_⟩
    rcases hold.probed with hmem | ⟨entry, hmem⟩ | hskip
    · rw [htodo] at hmem
      rcases List.mem_cons.mp hmem with rfl | hmem
      · exact .inr (.inl ⟨_, List.mem_append_right _ List.mem_cons_self⟩)
      · exact .inl hmem
    · exact .inr (.inl ⟨entry, List.mem_append_left _ hmem⟩)
    · exact .inr (.inr hskip)
  · exact hprobe.toProbe_sub w' (htodo ▸ List.mem_cons_of_mem _ hw')
  · rcases List.mem_append.mp he with he | he
    · exact hprobe.probed e he
    · rw [List.mem_singleton.mp he]
      exact ⟨hw, reflects_read _ (hprobe.walked w hw).sig_le⟩

/-! ### What is served -/

theorem Inv.serve (h : Inv s) {asked : List (String × ℕ)}
    (hasked : ∀ a ∈ asked, ∃ sig, s.signatures a.1 = some sig ∧ a.2 ≤ sig) :
    Inv (s.serve asked) where
  marked_le := h.marked_le
  unmarked_le := h.unmarked_le
  entry := h.entry
  sig := h.sig
  time := h.time
  kept := h.kept
  probes j q hq := (h.probes j q hq).frame rfl rfl rfl rfl (Nat.le_refl _)
  fresh := by
    refine ⟨fun row hrow => ?_, h.fresh.2⟩
    rcases List.mem_append.mp hrow with hrow | hrow
    · obtain ⟨a, ha, rfl⟩ := List.mem_map.mp hrow
      obtain ⟨sig, hsig, hle⟩ := hasked a ha
      obtain ⟨entry, hentry⟩ := (h.sig _ sig hsig).1
      obtain ⟨sig', hsig', hreflects⟩ := h.entry _ entry hentry
      cases hsig.symm.trans hsig'
      exact ⟨entry, hentry, reflects_mono hreflects hle⟩
    · exact h.fresh.1 row hrow

/-! ### What is stored -/

theorem mem_of_walkedOf {w : WalkedSession} (h : walkedOf p session = some w) :
    w ∈ p.walked ∧ w.session = session := by
  have hsession := List.find?_some h
  exact ⟨List.mem_of_find?_eq_some h, of_decide_eq_true hsession⟩

theorem mem_of_probedOf {e : WalkedSession × SnapshotEntry} (h : probedOf p session = some e) :
    e ∈ p.probed ∧ e.1.session = session := by
  have hsession := List.find?_some h
  exact ⟨List.mem_of_find?_eq_some h, of_decide_eq_true hsession⟩

theorem isSome_walkedOf {w : WalkedSession} (hw : w ∈ p.walked) :
    (walkedOf p w.session).isSome = true :=
  List.find?_isSome.mpr ⟨w, hw, decide_eq_true rfl⟩

theorem ProbeInv.walkedOf_eq (h : ProbeInv s p) {w : WalkedSession} (hw : w ∈ p.walked) :
    walkedOf p w.session = some w := by
  obtain ⟨w', hw'⟩ := Option.isSome_iff_exists.mp (isSome_walkedOf hw)
  obtain ⟨hmem, hsession⟩ := mem_of_walkedOf hw'
  have hnodup : (p.walked.map WalkedSession.session).Nodup := by
    have hall := h.nodup
    rw [h.selected_eq, List.nodup_append] at hall
    exact hall.1
  rw [hw', List.inj_on_of_nodup_map hnodup hmem hw hsession]

theorem ProbeInv.probedOf_fst (h : ProbeInv s p) {e : WalkedSession × SnapshotEntry}
    (he : probedOf p session = some e) : walkedOf p session = some e.1 := by
  obtain ⟨hmem, rfl⟩ := mem_of_probedOf he
  exact h.walkedOf_eq (h.probed e hmem).1

/-- **What a probe leaves of a session reflects what it walked over.** -/
theorem Inv.stored_entry (h : Inv s) (hprobe : ProbeInv s p) (htodo : p.toProbe = [])
    (hsound : ∀ w ∈ p.walked, s.stores w.session = w.stores) {w : WalkedSession}
    (hw : w ∈ p.walked) : ∃ entry, (s.storeProbeResults p).snapshot w.session = some entry
      ∧ Reflects (s.saves w.session) w.sig entry := by
  show ∃ entry, ((probedOf p w.session).map Prod.snd).or (s.snapshot w.session) = some entry ∧ _
  cases hprobed : probedOf p w.session with
  | some e =>
    have heq : walkedOf p w.session = some e.1 := hprobe.probedOf_fst hprobed
    rw [hprobe.walkedOf_eq hw] at heq
    cases heq
    exact ⟨e.2, rfl, (hprobe.probed e (mem_of_probedOf hprobed).1).2⟩
  | none =>
    have hskip : s.signatures w.session = some w.sig := by
      rcases (hprobe.walked w hw).probed with hmem | ⟨entry, hmem⟩ | hskip
      · rw [htodo] at hmem
        cases hmem
      · have hnone := List.find?_eq_none.mp hprobed (w, entry) hmem
        exact absurd (decide_eq_true rfl) hnone
      · exact hskip (hsound w hw)
    obtain ⟨entry, hentry⟩ := (h.sig _ _ hskip).1
    obtain ⟨sig, hsig, hreflects⟩ := h.entry _ entry hentry
    cases hskip.symm.trans hsig
    exact ⟨entry, hentry, hreflects⟩

theorem ProbeInv.storeProbeResults_of_none (h : ProbeInv s p) (hnone : walkedOf p session = none) :
    (s.storeProbeResults p).snapshot session = s.snapshot session
      ∧ (s.storeProbeResults p).signatures session = s.signatures session
      ∧ (s.storeProbeResults p).stores session = s.stores session
      ∧ (s.storeProbeResults p).entryTime session = s.entryTime session := by
  have hprobed : probedOf p session = none := by
    by_contra hne
    obtain ⟨e, he⟩ := Option.ne_none_iff_exists'.mp hne
    have hsome := h.probedOf_fst he
    rw [hnone] at hsome
    cases hsome
  refine ⟨?_, ?_, ?_, ?_⟩ <;> simp [storeProbeResults, hprobed, hnone]

theorem signatures_storeProbeResults {w : WalkedSession} (hw : walkedOf p session = some w) :
    (s.storeProbeResults p).signatures session = some w.sig := by
  show ((walkedOf p session).map WalkedSession.sig).or (s.signatures session) = _
  rw [hw]
  rfl

theorem stores_storeProbeResults {w : WalkedSession} (hw : walkedOf p session = some w) :
    (s.storeProbeResults p).stores session = s.stores session + 1 := by
  show s.stores session + (if (walkedOf p session).isSome then 1 else 0) = _
  rw [hw]
  rfl

theorem ProbeInv.signatures_mono (h : ProbeInv s p)
    (hsound : ∀ w ∈ p.walked, s.stores w.session = w.stores) {n sig : ℕ}
    (hsig : s.signatures session = some sig) (hle : n ≤ sig) :
    ∃ sig', (s.storeProbeResults p).signatures session = some sig' ∧ n ≤ sig' := by
  cases hw : walkedOf p session with
  | none => exact ⟨sig, (h.storeProbeResults_of_none hw).2.1.trans hsig, hle⟩
  | some w =>
    obtain ⟨hmem, rfl⟩ := mem_of_walkedOf hw
    exact ⟨w.sig, signatures_storeProbeResults hw,
      hle.trans (((h.walked w hmem).older (hsound w hmem)).1 sig hsig)⟩

theorem ProbeInv.storeProbeResults {q : SidebarProbe} (h : ProbeInv s p) (hq : ProbeInv s q)
    (hsound : ∀ w ∈ p.walked, s.stores w.session = w.stores) :
    ProbeInv (s.storeProbeResults p) q where
  nodup := hq.nodup
  selected_eq := hq.selected_eq
  taken_sub := hq.taken_sub
  owed_le := hq.owed_le
  unselected a ha hnot := by
    obtain ⟨sig, hsig, hle⟩ := hq.unselected a ha hnot
    exact h.signatures_mono hsound hsig hle
  walked w hw := by
    have hold := hq.walked w hw
    cases hwalked : walkedOf p w.session with
    | none =>
      obtain ⟨-, hsig, hstores, htime⟩ := h.storeProbeResults_of_none hwalked
      refine ⟨hold.sig_le, hold.time_lt, ?_, ?_, hold.owed_le, ?_⟩
      · rw [hstores]
        exact hold.stores_le
      · rw [hstores, hsig, htime]
        exact hold.older
      · rw [hstores, hsig]
        exact hold.probed
    | some w' =>
      have hstores := stores_storeProbeResults (s := s) hwalked
      have hle := hold.stores_le
      refine ⟨hold.sig_le, hold.time_lt, ?_, fun heq => ?_, hold.owed_le,
        hold.probed.imp_right fun hprobed => hprobed.imp_right fun _ heq => ?_⟩
      · rw [hstores]
        exact Nat.le_succ_of_le hle
      · omega
      · omega
  toProbe_sub := hq.toProbe_sub
  probed := hq.probed

theorem Inv.storeProbeResults (h : Inv s) (hp : s.probes i = some p) (hspecs : p.specs = [])
    (htodo : p.toProbe = []) (hsound : ∀ w ∈ p.walked, s.stores w.session = w.stores) :
    Inv ((s.storeProbeResults p).setProbe i none) := by
  have hprobe := h.probes i p hp
  refine ⟨h.marked_le, h.unmarked_le, fun other entry he => ?_, fun other sig hs => ?_,
    fun other time ht => ?_, fun other => ?_, fun j q hq => ?_, h.fresh.1, fun r hr => ?_⟩
  · cases hw : walkedOf p other with
    | none =>
      obtain ⟨hsnapshot, hsig, -⟩ := hprobe.storeProbeResults_of_none hw
      obtain ⟨sig, hs, hreflects⟩ := h.entry other entry (hsnapshot ▸ he)
      exact ⟨sig, hsig.trans hs, hreflects⟩
    | some w =>
      obtain ⟨hmem, rfl⟩ := mem_of_walkedOf hw
      obtain ⟨entry', he', hreflects⟩ := h.stored_entry hprobe htodo hsound hmem
      cases he'.symm.trans he
      exact ⟨w.sig, signatures_storeProbeResults hw, hreflects⟩
  · cases hw : walkedOf p other with
    | none =>
      obtain ⟨hsnapshot, hsig, -⟩ := hprobe.storeProbeResults_of_none hw
      obtain ⟨⟨entry, he⟩, hle⟩ := h.sig other sig (hsig ▸ hs)
      exact ⟨⟨entry, hsnapshot.trans he⟩, hle⟩
    | some w =>
      obtain ⟨hmem, rfl⟩ := mem_of_walkedOf hw
      obtain ⟨entry, he, -⟩ := h.stored_entry hprobe htodo hsound hmem
      cases (signatures_storeProbeResults hw).symm.trans hs
      exact ⟨⟨entry, he⟩, (hprobe.walked w hmem).sig_le⟩
  · cases hprobed : probedOf p other with
    | none =>
      have hold : s.entryTime other = some time := by
        have ht' : ((probedOf p other).map fun e => e.1.time).or (s.entryTime other)
          = some time := ht
        rw [hprobed] at ht'
        exact ht'
      exact h.time other time hold
    | some e =>
      have ht' : ((probedOf p other).map fun e => e.1.time).or (s.entryTime other)
        = some time := ht
      rw [hprobed] at ht'
      cases ht'
      exact (hprobe.walked e.1 (hprobe.probed e (mem_of_probedOf hprobed).1).1).time_lt
  · rcases h.kept other with hdirty | ⟨sig, hsig, hle⟩ | ⟨j, q, hq, htake, hahead⟩ | ⟨hnone, hall⟩
    · exact .inl hdirty
    · exact .inr (.inl (hprobe.signatures_mono hsound hsig hle))
    · by_cases hj : j = i
      · subst hj
        rw [hp] at hq
        cases hq
        have hmem := hprobe.taken_sub other htake
        rw [hprobe.selected_eq, hspecs, List.append_nil] at hmem
        obtain ⟨w, hw, rfl⟩ := List.mem_map.mp hmem
        exact .inr (.inl ⟨w.sig, signatures_storeProbeResults (hprobe.walkedOf_eq hw),
          hahead w hw rfl⟩)
      · exact .inr (.inr (.inl ⟨j, q, (setProbe_of_ne hj).trans hq, htake, hahead⟩))
    · cases hw : walkedOf p other with
      | none =>
        refine .inr (.inr (.inr ⟨(hprobe.storeProbeResults_of_none hw).2.1.trans hnone,
          fun j q hq => ?_⟩))
        rcases probes_setProbe hq with ⟨-, hq⟩ | ⟨-, hq⟩
        · cases hq
        · exact hall j q hq
      | some w =>
        obtain ⟨hmem, rfl⟩ := mem_of_walkedOf hw
        exact .inr (.inl ⟨w.sig, signatures_storeProbeResults hw, hall i p hp w hmem rfl⟩)
  · rcases probes_setProbe hq with ⟨-, hq⟩ | ⟨-, hq⟩
    · cases hq
    · exact (hprobe.storeProbeResults (h.probes j q hq) hsound).frame rfl rfl rfl rfl
        (Nat.le_refl _)
  · rcases List.mem_append.mp hr with hr | hr
    · obtain ⟨e, he, hr⟩ := List.mem_filterMap.mp hr
      obtain ⟨old, hold, rfl⟩ := Option.map_eq_some_iff.mp hr
      have hmem := (hprobe.probed e he).1
      exact ((hprobe.walked e.1 hmem).older (hsound e.1 hmem)).2 old hold
    · exact h.fresh.2 r hr

theorem Inv.storeAll (h : Inv s) (hp : s.probes i = some p) (hspecs : p.specs = [])
    (htodo : p.toProbe = []) (hsound : s.Sound (.store i)) : Inv (s.storeAll i p) := by
  have hprobe := h.probes i p hp
  have hstored := h.storeProbeResults hp hspecs htodo (hsound p hp)
  simp only [SidebarPolls.storeAll]
  split
  · exact hstored.withTask _ _
  · refine hstored.serve fun a ha => ?_
    by_cases hsel : a.1 ∈ p.selected
    · rw [hprobe.selected_eq, hspecs, List.append_nil] at hsel
      obtain ⟨w, hw, hsession⟩ := List.mem_map.mp hsel
      have howed : (w.session, a.2) ∈ p.asked := by
        rw [hsession]
        exact ha
      refine ⟨w.sig, ?_, (hprobe.walked w hw).owed_le a.2 howed⟩
      rw [← hsession]
      exact signatures_storeProbeResults (hprobe.walkedOf_eq hw)
    · obtain ⟨sig, hsig, hle⟩ := hprobe.unselected a ha hsel
      exact hprobe.signatures_mono (hsound p hp) hsig hle

/-! ### How a probe begins -/

/-- A session that is not marked, whose mark no probe took and of which something is
stored has its last mark in what is stored. -/
theorem Inv.sig_of_clean (h : Inv s) (hclean : s.registry.dirty session = false)
    (hsome : s.snapshot session ≠ none)
    (hfree : ∀ j p, s.probes j = some p → session ∉ p.taken) :
    ∃ sig, s.signatures session = some sig ∧ s.marked session ≤ sig := by
  rcases h.kept session with hdirty | hsig | ⟨j, q, hq, htake, -⟩ | ⟨hnone, -⟩
  · rw [hclean] at hdirty
    cases hdirty
  · exact hsig
  · exact absurd htake (hfree j q hq)
  · obtain ⟨entry, he⟩ := Option.ne_none_iff_exists'.mp hsome
    obtain ⟨sig, hsig, -⟩ := h.entry session entry he
    rw [hnone] at hsig
    cases hsig

/-- **A probe begins**: it takes the marks of the sessions it is started for. -/
theorem Inv.begin (h : Inv s) (hfree : s.probes i = none) {q : SidebarProbe}
    (hq : ProbeInv s q) (hwalked : q.walked = [])
    (htaken : q.taken = q.selected.filter s.registry.dirty) :
    Inv ({ s with registry := s.registry.discardDirty q.selected }.setProbe i (some q)) where
  marked_le := h.marked_le
  unmarked_le := h.unmarked_le
  entry := h.entry
  sig := h.sig
  time := h.time
  kept other := by
    have hahead : Ahead s q other := fun w hw => by
      rw [hwalked] at hw
      cases hw
    rcases h.kept other with hdirty | hsig | ⟨j, p, hp, htake, hp'⟩ | ⟨hnone, hall⟩
    · by_cases hmem : other ∈ q.selected
      · refine .inr (.inr (.inl ⟨i, q, setProbe_self _, ?_, hahead⟩))
        rw [htaken]
        exact List.mem_filter.mpr ⟨hmem, hdirty⟩
      · left
        show (s.registry.dirty other && !q.selected.contains other) = true
        rw [hdirty, Bool.true_and, Bool.not_eq_true', ← Bool.not_eq_true, List.contains_iff_mem]
        exact hmem
    · exact .inr (.inl hsig)
    · have hj : j ≠ i := by
        rintro rfl
        rw [hfree] at hp
        cases hp
      exact .inr (.inr (.inl ⟨j, p, (setProbe_of_ne hj).trans hp, htake, hp'⟩))
    · refine .inr (.inr (.inr ⟨hnone, fun j p hp => ?_⟩))
      rcases probes_setProbe hp with ⟨-, hp⟩ | ⟨-, hp⟩
      · cases hp
        exact hahead
      · exact hall j p hp
  probes j p hp := by
    rcases probes_setProbe hp with ⟨-, hp⟩ | ⟨-, hp⟩
    · cases hp
      exact hq.frame rfl rfl rfl rfl (Nat.le_refl _)
    · exact (h.probes j p hp).frame rfl rfl rfl rfl (Nat.le_refl _)
  fresh := h.fresh

theorem Inv.openPoll (h : Inv s) {sessions : List String} {force : Bool}
    (hfree : s.probes i = none) (hnodup : sessions.Nodup)
    (hsound : s.Sound (.openPoll i sessions force)) : Inv (s.openPoll i sessions force) := by
  have hrest : ∀ session ∈ sessions, session ∉ (if force then sessions else sessions.filter
      fun session => s.registry.dirty session || (s.snapshot session).isNone) →
      ∃ sig, s.signatures session = some sig ∧ s.marked session ≤ sig := by
    intro session hmem hnot
    split at hnot
    · exact absurd hmem hnot
    · next hforce =>
      rw [List.mem_filter, not_and, Bool.not_eq_true, Bool.or_eq_false_iff] at hnot
      obtain ⟨hclean, hsome⟩ := hnot hmem
      refine h.sig_of_clean hclean (fun hnone => ?_)
        (hsound (Bool.not_eq_true _ |>.mp hforce) session hmem hclean)
      rw [hnone] at hsome
      cases hsome
  have hselected : (if force then sessions else sessions.filter fun session =>
      s.registry.dirty session || (s.snapshot session).isNone).Nodup := by
    split
    · exact hnodup
    · exact hnodup.filter _
  simp only [SidebarPolls.openPoll]
  generalize (if force then sessions else sessions.filter fun session =>
    s.registry.dirty session || (s.snapshot session).isNone) = selected at hrest hselected ⊢
  have htask := h.withTask (s.pollCount + 1)
    (if !force && (s.pollCount + 1) % forceFullEvery == 0 then s.sweepTask.schedule sessions
      else s.sweepTask)
  split
  · next hnone =>
    subst hnone
    have hregistry : s.registry.discardDirty [] = s.registry := by
      simp [SidebarRegistry.discardDirty]
    rw [hregistry]
    refine htask.serve fun a ha => ?_
    obtain ⟨session, hmem, rfl⟩ := List.mem_map.mp ha
    exact hrest session hmem List.not_mem_nil
  · refine htask.begin (q := {
      asked := sessions.map fun session => (session, s.marked session), isSweep := false
      deep := force, selected, taken := selected.filter s.registry.dirty, specs := selected })
      hfree ?_ rfl rfl
    refine ⟨hselected, (List.nil_append _).symm, fun session hmem => (List.mem_filter.mp hmem).1,
      fun a ha => ?_, fun a ha hnot => ?_, fun w hw => (by cases hw), fun w hw => (by cases hw),
      fun e he => (by cases he)⟩
    · obtain ⟨session, -, rfl⟩ := List.mem_map.mp ha
      exact h.marked_le session
    · obtain ⟨session, hmem, rfl⟩ := List.mem_map.mp ha
      exact hrest session hmem hnot

theorem Inv.openSweep (h : Inv s) {sessions : List String} (hfree : s.probes i = none)
    (hnodup : sessions.Nodup) : Inv (s.openSweep i sessions) := by
  simp only [SidebarPolls.openSweep]
  split
  · exact h.withTask _ _
  · have hbegin := (h.withTask s.pollCount .running).begin hfree (q :=
      { asked := [], isSweep := true, deep := false
        selected := sessions.filter fun session => !s.registry.dirty session, taken := []
        specs := sessions.filter fun session => !s.registry.dirty session })
      ⟨hnodup.filter _, (List.nil_append _).symm, fun _ hmem => (by cases hmem),
        fun _ ha => (by cases ha), fun _ ha => (by cases ha), fun _ hw => (by cases hw),
        fun _ hw => (by cases hw), fun _ he => (by cases he)⟩ rfl ?_
    · have hregistry : s.registry.discardDirty
          (sessions.filter fun session => !s.registry.dirty session) = s.registry := by
        unfold SidebarRegistry.discardDirty
        congr 1
        funext session
        cases hdirty : s.registry.dirty session with
        | false => rfl
        | true => simp [hdirty]
      rw [hregistry] at hbegin
      exact hbegin
    · symm
      rw [List.filter_eq_nil_iff]
      intro session hmem
      have hclean := (List.mem_filter.mp hmem).2
      rw [Bool.not_eq_true'] at hclean
      exact Bool.not_eq_true _ |>.mpr hclean

theorem Inv.step {a : SidebarAction} (h : Inv s)
    (htask : ∀ sessions, s.sweepTask = .created sessions → sessions.Nodup) (hsound : s.Sound a)
    (hstep : s.step a = some t) : Inv t := by
  cases a with
  | save session inputs =>
    cases hstep
    exact h.save session inputs
  | mark session save =>
    simp only [SidebarPolls.step] at hstep
    split at hstep
    · next hmem =>
      cases hstep
      refine h.mark session (fun other n hn => ?_) (fun other => ?_) fun other ho =>
        Function.update_of_ne ho ..
      · by_cases ho : other = session
        · subst ho
          rw [Function.update_self] at hn
          exact List.mem_of_mem_erase hn
        · rw [Function.update_of_ne ho] at hn
          exact hn
      · by_cases ho : other = session
        · subst ho
          rw [Function.update_self]
          exact Nat.max_le.mpr ⟨h.marked_le other, h.unmarked_le other save hmem⟩
        · rw [Function.update_of_ne ho]
          exact h.marked_le other
    · cases hstep
  | markOther session =>
    cases hstep
    exact h.mark session (fun _ _ hn => hn) h.marked_le fun _ _ => rfl
  | openPoll i sessions force =>
    simp only [SidebarPolls.step] at hstep
    split at hstep
    · next hcond =>
      cases hstep
      rw [Bool.and_eq_true, Option.isNone_iff_eq_none, decide_eq_true_eq] at hcond
      exact h.openPoll hcond.1 hcond.2 hsound
    · cases hstep
  | openSweep i =>
    simp only [SidebarPolls.step] at hstep
    split at hstep
    · next sessions hcreated hfree =>
      cases hstep
      exact h.openSweep hfree (htask sessions hcreated)
    · cases hstep
  | walk i =>
    simp only [SidebarPolls.step, Option.bind_eq_bind, Option.bind_eq_some_iff] at hstep
    obtain ⟨p, hp, hstep⟩ := hstep
    split at hstep
    · next session rest hspecs =>
      cases hstep
      exact h.walkNext hp hspecs
    · cases hstep
  | read i =>
    simp only [SidebarPolls.step, Option.bind_eq_bind, Option.bind_eq_some_iff] at hstep
    obtain ⟨p, hp, hstep⟩ := hstep
    split at hstep
    · next w rest _ htodo =>
      cases hstep
      exact h.readNext hp htodo
    · cases hstep
  | store i =>
    simp only [SidebarPolls.step, Option.bind_eq_bind, Option.bind_eq_some_iff] at hstep
    obtain ⟨p, hp, hstep⟩ := hstep
    split at hstep
    · next hspecs htodo =>
      cases hstep
      exact h.storeAll hp hspecs htodo hsound
    · cases hstep
  | fail i =>
    simp only [SidebarPolls.step, Option.bind_eq_bind, Option.bind_eq_some_iff] at hstep
    obtain ⟨p, hp, hstep⟩ := hstep
    cases hstep
    exact h.failAll hp

theorem nodup_of_created {a : SidebarAction} (hstep : s.step a = some t)
    (h : ∀ sessions, s.sweepTask = .created sessions → sessions.Nodup) :
    ∀ sessions, t.sweepTask = .created sessions → sessions.Nodup := by
  cases a with
  | save session inputs =>
    cases hstep
    exact h
  | mark session save =>
    simp only [SidebarPolls.step] at hstep
    split at hstep
    · cases hstep
      exact h
    · cases hstep
  | markOther session =>
    cases hstep
    exact h
  | openPoll i sessions force =>
    simp only [SidebarPolls.step] at hstep
    split at hstep
    · next hcond =>
      cases hstep
      rw [Bool.and_eq_true, decide_eq_true_eq] at hcond
      have htask : ∀ created, (if !force && (s.pollCount + 1) % forceFullEvery == 0 then
          s.sweepTask.schedule sessions else s.sweepTask) = .created created → created.Nodup := by
        intro created hcreated
        split at hcreated
        · unfold SweepTask.schedule at hcreated
          split at hcreated
          · cases hcreated
            exact hcond.2
          · exact h created hcreated
        · exact h created hcreated
      simp only [SidebarPolls.openPoll]
      generalize (if force then sessions else sessions.filter fun session =>
        s.registry.dirty session || (s.snapshot session).isNone) = selected
      split <;> exact htask
    · cases hstep
  | openSweep i =>
    simp only [SidebarPolls.step] at hstep
    split at hstep
    · cases hstep
      simp only [SidebarPolls.openSweep]
      split <;> intro sessions hcreated <;> cases hcreated
    · cases hstep
  | walk i =>
    simp only [SidebarPolls.step, Option.bind_eq_bind, Option.bind_eq_some_iff] at hstep
    obtain ⟨p, hp, hstep⟩ := hstep
    split at hstep
    · cases hstep
      exact h
    · cases hstep
  | read i =>
    simp only [SidebarPolls.step, Option.bind_eq_bind, Option.bind_eq_some_iff] at hstep
    obtain ⟨p, hp, hstep⟩ := hstep
    split at hstep
    · cases hstep
      exact h
    · cases hstep
  | store i =>
    simp only [SidebarPolls.step, Option.bind_eq_bind, Option.bind_eq_some_iff] at hstep
    obtain ⟨p, hp, hstep⟩ := hstep
    split at hstep
    · cases hstep
      simp only [SidebarPolls.storeAll]
      split
      · intro sessions hcreated
        cases hcreated
      · exact h
    · cases hstep
  | fail i =>
    simp only [SidebarPolls.step, Option.bind_eq_bind, Option.bind_eq_some_iff] at hstep
    obtain ⟨p, hp, hstep⟩ := hstep
    cases hstep
    intro sessions hcreated
    simp only [SidebarPolls.failAll] at hcreated
    split at hcreated
    · cases hcreated
    · exact h sessions hcreated

/-! ## Runs -/

/-- The server starts: nothing is stored, and all that was saved before had been marked. -/
def start (saves : String → List ProbeInputs) : SidebarPolls :=
  { saves, marked := fun session => (saves session).length }

theorem inv_start (saves : String → List ProbeInputs) : Inv (start saves) where
  marked_le _ := Nat.le_refl _
  unmarked_le _ _ hn := by cases hn
  entry _ _ he := by cases he
  sig _ _ hs := by cases hs
  time _ _ ht := by cases ht
  kept _ := .inr (.inr (.inr ⟨rfl, fun _ _ hp => by cases hp⟩))
  probes _ _ hp := by cases hp
  fresh := ⟨fun _ hrow => (by cases hrow), fun _ hr => (by cases hr)⟩

/-- **The sidebar is fresh**, along every run whose steps are sound. -/
theorem served_fresh_of_guarded (saves : String → List ProbeInputs) {as : List SidebarAction}
    (hguard : system.Guarded Sound (start saves) as) (h : system.run (start saves) as = some t) :
    t.Fresh :=
  (system.run_invariant_of_guarded
    (I := fun s => Inv s ∧ ∀ sessions, s.sweepTask = .created sessions → sessions.Nodup)
    (fun _ _ _ hs hsound hstep =>
      ⟨Inv.step hs.1 hs.2 hsound hstep, nodup_of_created hstep hs.2⟩)
    ⟨inv_start saves, fun _ hcreated => (by cases hcreated)⟩ hguard h).1.fresh

/-- A session is saved and marked, and a poll probes it. -/
def probeOnce : List SidebarAction :=
  [.save "s" { threads := [.running] }, .mark "s" 1, .openPoll 0 ["s"] false, .walk 0, .read 0]

theorem sound_probeOnce : system.Guarded Sound (start fun _ => []) (probeOnce ++ [.store 0]) := by
  have hopen : system.Guarded Sound (start fun _ => []) (probeOnce.take 2) :=
    ⟨trivial, fun _ _ => ⟨trivial, fun _ _ => trivial⟩⟩
  have h₃ : system.Guarded Sound (start fun _ => []) (probeOnce.take 3) :=
    TransitionSystem.guarded_concat hopen fun t ht _ session hmem hclean => by
      have hdirty : t.registry.dirty "s" = true :=
        TransitionSystem.eq_of_run_map (f := fun s : SidebarPolls => s.registry.dirty "s")
          (by decide +kernel) ht
      rw [List.mem_singleton.mp hmem, hdirty] at hclean
      cases hclean
  have h₅ : system.Guarded Sound (start fun _ => []) probeOnce :=
    TransitionSystem.guarded_append h₃ fun _ _ => ⟨trivial, fun _ _ => ⟨trivial, fun _ _ => trivial⟩⟩
  refine TransitionSystem.guarded_concat h₅ fun t ht p hp w hw => ?_
  have hwalked : (t.probes 0).map SidebarProbe.walked
      = some [{ session := "s", sig := 1, stores := 0, time := 0 }] :=
    TransitionSystem.eq_of_run_map
      (f := fun s : SidebarPolls => (s.probes 0).map SidebarProbe.walked) (by decide +kernel) ht
  have hstores : t.stores "s" = 0 :=
    TransitionSystem.eq_of_run_map (f := fun s : SidebarPolls => s.stores "s") (by decide +kernel) ht
  rw [hp, Option.map_some] at hwalked
  rw [Option.some.inj hwalked] at hw
  rw [List.mem_singleton.mp hw]
  exact hstores

/-- A poll that has the session to itself serves its save. -/
theorem served_fresh_of_guarded_once : ∃ s, system.run (start fun _ => []) (probeOnce ++ [.store 0]) = some s
    ∧ s.served.map ServedRow.owed = [1] ∧ s.Fresh := by
  have hrun : (system.run (start fun _ => []) (probeOnce ++ [.store 0])).map
      (fun s => s.served.map ServedRow.owed) = some [1] := by decide +kernel
  obtain ⟨s, hs, hserved⟩ := Option.map_eq_some_iff.mp hrun
  exact ⟨s, hs, hserved, served_fresh_of_guarded _ sound_probeOnce hs⟩

/-- The session is saved and marked again while the poll still has what it read, and a
second poll probes it and is done first; then a third one asks for it. -/
def probeTwice : List SidebarAction :=
  probeOnce ++ [.save "s" {}, .mark "s" 2, .openPoll 1 ["s"] false, .walk 1, .read 1, .store 1,
    .store 0, .openPoll 2 ["s"] false]

/-- **A slow probe undoes a quick one**: what was read before the last save replaces what
was read after it, and is served to a poll that begins later. -/
theorem served_old : ∃ s, system.run (start fun _ => []) probeTwice = some s
    ∧ (∃ r ∈ s.replaced, r.2 < r.1)
    ∧ (∃ row ∈ s.served, ∀ entry, row.entry = some entry → ¬Reflects row.saves row.owed entry)
    ∧ ¬s.Fresh := by
  have hrun : (system.run (start fun _ => []) probeTwice).map (fun s => (s.replaced,
      s.served.head?.map fun row => (row.entry, row.owed, row.saves)))
      = some ([(1, 0)], some (some (probeSidebarState { threads := [.running] }), 2,
        [{ threads := [.running] }, {}])) := by decide +kernel
  obtain ⟨s, hs, hfacts⟩ := Option.map_eq_some_iff.mp hrun
  rw [Prod.mk.injEq] at hfacts
  obtain ⟨hreplaced, hserved⟩ := hfacts
  have hold : ∃ r ∈ s.replaced, r.2 < r.1 := ⟨(1, 0), by rw [hreplaced]; exact List.mem_cons_self,
    by decide⟩
  obtain ⟨row, hhead, hrow⟩ := Option.map_eq_some_iff.mp hserved
  simp only [Prod.mk.injEq] at hrow
  obtain ⟨hentry, howed, hsaves⟩ := hrow
  refine ⟨s, hs, hold, ⟨row, List.mem_of_head? hhead, fun entry he hreflects => ?_⟩, fun hfresh => ?_⟩
  · rw [hentry] at he
    cases he
    obtain ⟨r, hle, hlen, heq⟩ := hreflects
    rw [hsaves] at hlen heq
    rw [howed] at hle
    have hr : r = 2 := Nat.le_antisymm hlen hle
    subst hr
    revert heq
    decide
  · obtain ⟨r, hr, hlt⟩ := hold
    exact absurd (hfresh.2 r hr) (Nat.not_le.mpr hlt)

end SidebarPolls
