import CharlieBot.ScheduledRuns
import Mathlib.Data.List.Sort

/-!
# The generations of a scheduled task's session

A scheduled task has a dedicated session. When its backend changes the session is
archived and a new one is created, with what is kept of the last run. Ticks, runs by
hand and changes of the task each ask for the session on their own; each lists the
sessions, looks whether the one there is busy, archives it, creates the next one and
writes to it, in steps of its own, and no lock holds them together.

So each step acts on what an earlier one read. Two callers that both found no session
create one each (`two_generations`); a turn may begin between the look and
the archiving, a run may be booked on the old session after it was listed, a copy
that is written back makes an archived session active again, and where the creation fails
after the archiving the task is left without a session.

These are all the ways in which it goes wrong. In every run in which what a step acts on
is still as it was read, and no creation fails between two generations, at most one
session is active other than by being unarchived, only idle sessions are rotated,
the new ones carry what was kept, and a rotation that breaks off leaves an active
session (`oneGeneration_of_run`).
-/

namespace ScheduledSessions

open ScheduledRuns (Bookkeeping)

/-! ## Sessions -/

/-- `SessionMetadata`, as far as a scheduled session is concerned. Sessions are numbered in
the order of their creation. -/
structure SessionMetadata where
  id : ℕ
  backend : String
  role : Option String := none
  group : Option String := none
  /-- `status`. -/
  active : Bool := true
  bookkeeping : Bookkeeping := {}
  /-- Whether `thinking_since` is there, as it is stamped when the session is listed. -/
  thinking : Bool := false
  deriving DecidableEq

/-- A session of the task. -/
structure Generation where
  /-- What is on disk, with the stamp of the moment. -/
  record : SessionMetadata
  /-- Whether it is active since it was unarchived. -/
  pulledBack : Bool := false
  /-- Whether one of its threads runs. -/
  running : Bool := false
  deriving DecidableEq

/-- Whether it is active through its creation. -/
def Generation.current (generation : Generation) : Bool :=
  generation.record.active && !generation.pulledBack

/-- Sessions that were listed, and how many the task had. -/
structure Listing where
  sessions : List SessionMetadata
  seen : ℕ

/-! ## Calls -/

/-- Where a call of `ensure_scheduled_session_backend` is. -/
inductive EnsurePhase where
  /-- The session is of another backend, and it is looked whether it is busy. -/
  | checking (old : SessionMetadata)
  | archiving (old : SessionMetadata)
  /-- The next generation is to be created; there may have been none before. -/
  | creating (old : Option SessionMetadata)
  /-- It was created, and is written again with what it inherits. -/
  | naming (old : Option SessionMetadata) (created : SessionMetadata)
  /-- It returned, and the caller works with what it returned. -/
  | holding (session : SessionMetadata)
  deriving DecidableEq

structure EnsureCall where
  backend : String
  role : Option String := none
  group : Option String := none
  /-- Whether it goes by the sessions a tick listed. -/
  cached : Bool := false
  /-- How many sessions there were when they were listed. -/
  seen : ℕ
  phase : EnsurePhase
  deriving DecidableEq

/-- An old session that was archived, and whether it was idle. -/
structure Archival where
  old : ℕ
  idle : Bool
  deriving DecidableEq

/-- A new generation, and whether it carries what the old one kept of the last run. -/
structure Rotation where
  old : ℕ
  new : ℕ
  carried : Bool
  deriving DecidableEq

/-- The sessions of a scheduled task. -/
structure GenerationsState where
  sessions : List Generation := []
  cache : Option Listing := none
  tickCall : Option ℕ := none
  calls : ℕ → Option EnsureCall := fun _ => none
  archivals : List Archival := []
  rotations : List Rotation := []
  /-- Of the rotations that broke off, whether the task had an active session then. -/
  brokenOff : List Bool := []

inductive GenerationsAction where
  /-- A tick begins. -/
  | list
  /-- The session is asked for: by a tick, a run by hand or a change of the task. -/
  | ensure (c : ℕ) (backend : String) (role group : Option String) (cached : Bool)
  | check (c : ℕ)
  | archive (c : ℕ)
  | archiveFails (c : ℕ)
  | create (c : ℕ)
  /-- Nothing is created; what fails after the record is written fails in `finishFails`. -/
  | createFails (c : ℕ)
  | finish (c : ℕ)
  | finishFails (c : ℕ)
  /-- The caller books a run, or what came of one, and writes its copy back. -/
  | save (c : ℕ) (bookkeeping : Bookkeeping)
  | release (c : ℕ)
  /-- `archive_session`. -/
  | archiveSession (id : ℕ)
  /-- `unarchive_session`. -/
  | unarchiveSession (id : ℕ)
  /-- A turn of the master begins or ends. -/
  | think (id : ℕ) (thinking : Bool)
  /-- A thread begins to run, or the last one ends. -/
  | work (id : ℕ) (running : Bool)

/-- `_active_scheduled_sessions`: the active ones, newest first. -/
def activeScheduledSessions (candidates : List SessionMetadata) : List SessionMetadata :=
  (candidates.filter (·.active)).insertionSort fun a b => b.id ≤ a.id

/-- The session is looked for among those that were listed. -/
def EnsurePhase.find (backend : String) (candidates : List SessionMetadata) : EnsurePhase :=
  let activeSessions := activeScheduledSessions candidates
  match activeSessions.find? (·.backend = backend) with
  | some session => .holding session
  | none =>
    match activeSessions.head? with
    | none => .creating none
    | some old => .checking old

/-- The old session is known as archived, and the new one is put in front. -/
def Listing.rotate (old : Option SessionMetadata) (created : SessionMetadata) (seen : ℕ)
    (listing : Listing) : Listing where
  sessions := created :: listing.sessions.map fun session =>
    { session with active := session.active && old.all (·.id ≠ session.id) }
  seen := seen

namespace GenerationsState

variable (s : GenerationsState)

/-- `list_sessions`. -/
def listing : Listing where
  sessions := s.sessions.map Generation.record
  seen := s.sessions.length

def setCall (c : ℕ) (call : EnsureCall) : GenerationsState :=
  { s with calls := Function.update s.calls c (some call) }

def goto (c : ℕ) (call : EnsureCall) (phase : EnsurePhase) : GenerationsState :=
  s.setCall c { call with phase }

/-- A call is over. -/
def drop (c : ℕ) : GenerationsState :=
  { s with
    calls := Function.update s.calls c none
    tickCall := s.tickCall.filter (· ≠ c) }

/-- A session is changed. -/
def modify (id : ℕ) (f : Generation → Generation) : GenerationsState :=
  { s with sessions := s.sessions.modify id f }

/-- `save_metadata`: the whole record is written; whether the session thinks is not part
of it. -/
def save (session : SessionMetadata) : GenerationsState :=
  s.modify session.id fun generation =>
    { generation with
      record := { session with thinking := generation.record.thinking }
      pulledBack := generation.pulledBack && generation.record.active }

def isActive (id : ℕ) : Bool := (s.sessions[id]?).any (·.record.active)

/-- Whether the task has an active session. -/
def hasActive : Bool := s.sessions.any (·.record.active)

def bookkeepingOf (id : ℕ) : Option Bookkeeping := (s.sessions[id]?).map (·.record.bookkeeping)

/-- Whether the session has a turn or a running thread. -/
def isIdle (id : ℕ) : Bool := (s.sessions[id]?).all fun g => !g.record.thinking && !g.running

/-- The copies a tick listed are changed where the caller has the same copy in hand. -/
def modifyCache (call : EnsureCall) (f : Listing → Listing) : GenerationsState :=
  if call.cached then { s with cache := s.cache.map f } else s

/-- What the new generation inherits. -/
def inherit (call : EnsureCall) (old : Option SessionMetadata) (created : SessionMetadata) :
    SessionMetadata :=
  { created with
    bookkeeping := (old.map SessionMetadata.bookkeeping).getD created.bookkeeping
    group := call.group.or created.group }

/-- What is known of a rotation when it is over. -/
def rotationOf (old : Option SessionMetadata) (created : SessionMetadata) : List Rotation :=
  old.toList.map fun old =>
    ⟨old.id, created.id, s.bookkeepingOf old.id = some created.bookkeeping⟩

/-- The end of `ensure_scheduled_session_backend`: the new generation is written, unless there
is nothing to write. -/
def finish (c : ℕ) (call : EnsureCall) (old : Option SessionMetadata)
    (created : SessionMetadata) : GenerationsState :=
  let inherited := inherit call old created
  let saved := if old.isSome || call.group.isSome then s.save inherited else s
  let cached := saved.modifyCache call (Listing.rotate old inherited (call.seen + 1))
  { cached.goto c call (.holding inherited) with
    rotations := s.rotations ++ s.rotationOf old inherited }

def stepCall (c : ℕ) (call : EnsureCall) : GenerationsAction → Option GenerationsState
  | .check _ =>
    match call.phase with
    | .checking old =>
      if old.thinking || (s.sessions[old.id]?).any (·.running) then some (s.drop c)
      else some (s.goto c call (.archiving old))
    | _ => none
  | .archive _ =>
    match call.phase with
    | .archiving old =>
      let archived := s.modify old.id fun generation =>
        { generation with record := { generation.record with active := false } }
      some { archived.goto c call (.creating (some old)) with
        archivals := s.archivals ++ [⟨old.id, s.isIdle old.id⟩] }
    | _ => none
  | .archiveFails _ =>
    match call.phase with
    | .archiving _ => some (s.drop c)
    | _ => none
  | .create _ =>
    match call.phase with
    | .creating old =>
      let created : SessionMetadata :=
        { id := s.sessions.length, backend := call.backend, role := call.role }
      some { s.goto c call (.naming old created) with
        sessions := s.sessions ++ [⟨created, false, false⟩] }
    | _ => none
  | .createFails _ =>
    match call.phase with
    | .creating old =>
      some { s.drop c with brokenOff := s.brokenOff ++ old.toList.map fun _ => s.hasActive }
    | _ => none
  | .finish _ =>
    match call.phase with
    | .naming old created => some (s.finish c call old created)
    | _ => none
  | .finishFails _ =>
    match call.phase with
    | .naming old created =>
      some { s.drop c with
        rotations := s.rotations ++ s.rotationOf old created
        brokenOff := s.brokenOff ++ old.toList.map fun _ => s.hasActive }
    | _ => none
  | .save _ bookkeeping =>
    match call.phase with
    | .holding session =>
      let booked := { session with bookkeeping }
      some (((s.save booked).modifyCache call fun listing =>
        { listing with sessions := listing.sessions.map fun known =>
            if known.id = session.id then { known with bookkeeping } else known }).goto c call
          (.holding booked))
    | _ => none
  | .release _ =>
    match call.phase with
    | .holding _ => some (s.drop c)
    | _ => none
  | _ => none

def step : GenerationsAction → Option GenerationsState
  | .list => if s.tickCall.isSome then none else some { s with cache := some s.listing }
  | .ensure c backend role group cached =>
    if (s.calls c).isSome then none
    else if cached then
      match s.cache, s.tickCall with
      | some listing, none =>
        let call : EnsureCall :=
          ⟨backend, role, group, true, listing.seen, .find backend listing.sessions⟩
        some { s.setCall c call with tickCall := some c }
      | _, _ => none
    else
      some (s.setCall c
        ⟨backend, role, group, false, s.listing.seen, .find backend s.listing.sessions⟩)
  | .archiveSession id =>
    some (s.modify id fun g => { g with record := { g.record with active := false } })
  | .unarchiveSession id =>
    some (s.modify id fun g =>
      { g with
        record := { g.record with active := true }
        pulledBack := g.pulledBack || !g.record.active })
  | .think id thinking =>
    some (s.modify id fun g => { g with record := { g.record with thinking } })
  | .work id running => some (s.modify id fun g => { g with running })
  | .check c => (s.calls c).bind fun call => s.stepCall c call (.check c)
  | .archive c => (s.calls c).bind fun call => s.stepCall c call (.archive c)
  | .archiveFails c => (s.calls c).bind fun call => s.stepCall c call (.archiveFails c)
  | .create c => (s.calls c).bind fun call => s.stepCall c call (.create c)
  | .createFails c => (s.calls c).bind fun call => s.stepCall c call (.createFails c)
  | .finish c => (s.calls c).bind fun call => s.stepCall c call (.finish c)
  | .finishFails c => (s.calls c).bind fun call => s.stepCall c call (.finishFails c)
  | .save c bookkeeping => (s.calls c).bind fun call => s.stepCall c call (.save c bookkeeping)
  | .release c => (s.calls c).bind fun call => s.stepCall c call (.release c)

/-- The sessions of the task as a transition system. -/
def system : TransitionSystem GenerationsState GenerationsAction := ⟨step⟩

/-! ## What is claimed -/

/-- **One generation at a time.** -/
structure OneGeneration : Prop where
  /-- At most one session is active through creation and rotation. -/
  single : ∀ (i j : ℕ) (g h : Generation), s.sessions[i]? = some g → s.sessions[j]? = some h →
    g.current = true → h.current = true → i = j
  /-- Only an idle session was archived for a rotation. -/
  idle : ∀ archival ∈ s.archivals, archival.idle = true
  /-- A new generation carries what the old one keeps of the last run. -/
  carried : ∀ rotation ∈ s.rotations, rotation.carried = true
  /-- A rotation that broke off left an active session. -/
  left : ∀ hadActive ∈ s.brokenOff, hadActive = true

/-- What a step of a call acts on is as it was read. -/
def AsRead (call : EnsureCall) : GenerationsAction → Prop
  | .archive _ =>
    match call.phase with
    -- No turn began since the session was listed, and no thread since it was looked at.
    | .archiving old => (s.sessions[old.id]?).all (fun g => g.record.thinking = old.thinking) = true
        ∧ (s.sessions[old.id]?).all (fun g => !g.running) = true
    | _ => True
  -- Nobody else created a generation since.
  | .create _ => call.seen = s.sessions.length
  | .createFails _ =>
    match call.phase with
    -- The old session is archived already.
    | .creating (some _) => s.hasActive = true
    | _ => True
  | .finish _ =>
    match call.phase with
    -- The new session was not archived, and no run was booked on the old one.
    | .naming old created => s.isActive created.id = true
        ∧ ∀ known ∈ old, s.bookkeepingOf known.id = some known.bookkeeping
    | _ => True
  | .finishFails _ =>
    match call.phase with
    -- And there is nothing to carry over.
    | .naming old created => s.isActive created.id = true
        ∧ ∀ known ∈ old, s.bookkeepingOf known.id = some known.bookkeeping
          ∧ known.bookkeeping = {}
    | _ => True
  | .save _ _ =>
    match call.phase with
    -- The session was not archived.
    | .holding session => s.isActive session.id = true
    | _ => True
  | _ => True

instance (call : EnsureCall) (a : GenerationsAction) : Decidable (s.AsRead call a) := by
  unfold AsRead
  split
  all_goals first | infer_instance | (split <;> infer_instance)

/-- The condition on a step. -/
def Meets : GenerationsAction → Prop
  | .archive c => ∀ call ∈ s.calls c, s.AsRead call (.archive c)
  | .create c => ∀ call ∈ s.calls c, s.AsRead call (.create c)
  | .createFails c => ∀ call ∈ s.calls c, s.AsRead call (.createFails c)
  | .finish c => ∀ call ∈ s.calls c, s.AsRead call (.finish c)
  | .finishFails c => ∀ call ∈ s.calls c, s.AsRead call (.finishFails c)
  | .save c bookkeeping => ∀ call ∈ s.calls c, s.AsRead call (.save c bookkeeping)
  | _ => True

instance (a : GenerationsAction) : Decidable (s.Meets a) := by
  unfold Meets
  split <;> infer_instance

/-! ## What is current -/

/-- What is current of some sessions lies where a condition allows. -/
def CurrentOnly (sessions : List Generation) (allowed : ℕ → Prop) : Prop :=
  ∀ (i : ℕ) (g : Generation), sessions[i]? = some g → g.current = true → allowed i

/-- **The sessions are the same**, and none is current that was not. -/
structure Kept (sessions sessions' : List Generation) : Prop where
  length : sessions'.length = sessions.length
  of : ∀ (i : ℕ) (g' : Generation), sessions'[i]? = some g' → ∃ g, sessions[i]? = some g
    ∧ g'.record.id = g.record.id ∧ (g'.current = true → g.current = true)

theorem Kept.currentOnly {sessions sessions' : List Generation} (h : Kept sessions sessions')
    {allowed : ℕ → Prop} (hallowed : CurrentOnly sessions allowed) :
    CurrentOnly sessions' allowed := by
  intro i g' hi hcurrent
  obtain ⟨g, hg, -, hof⟩ := h.of i g' hi
  exact hallowed i g hg (hof hcurrent)

theorem kept_modify {sessions : List Generation} {id : ℕ} {f : Generation → Generation}
    (hf : ∀ g, sessions[id]? = some g →
      (f g).record.id = g.record.id ∧ ((f g).current = true → g.current = true)) :
    Kept sessions (sessions.modify id f) where
  length := List.length_modify ..
  of i g' hi := by
    rw [List.getElem?_modify] at hi
    obtain ⟨g, hg, rfl⟩ := Option.map_eq_some_iff.mp hi
    refine ⟨g, hg, ?_⟩
    by_cases hid : id = i
    · subst hid
      simp only [if_true]
      exact hf g hg
    · simp only [if_neg hid]
      exact ⟨trivial, fun hcurrent => hcurrent⟩

/-! ## What a listing and a call know -/

/-- What is known of sessions that were listed: as long as none was created since, what is
current is among them. -/
structure ListingInv (sessions : List Generation) (listing : Listing) : Prop where
  known : ∀ session ∈ listing.sessions, session.id < sessions.length
  seen : listing.seen ≤ sessions.length
  fresh : listing.seen = sessions.length → CurrentOnly sessions fun i =>
    ∃ session ∈ listing.sessions, session.id = i ∧ session.active = true

/-- What is known where a call is. -/
def PhaseInv (sessions : List Generation) (seen : ℕ) : EnsurePhase → Prop
  | .checking old => old.id < sessions.length
    ∧ (seen = sessions.length → CurrentOnly sessions (· = old.id))
  | .archiving old => (old.id < sessions.length
    ∧ (seen = sessions.length → CurrentOnly sessions (· = old.id))) ∧ old.thinking = false
  | .creating _ => seen = sessions.length → CurrentOnly sessions fun _ => False
  | .naming _ created => created.id = seen ∧ seen < sessions.length ∧ created.active = true
    ∧ created.bookkeeping = {}
  | .holding session => session.id < sessions.length ∧ session.active = true

structure CallInv (sessions : List Generation) (call : EnsureCall) : Prop where
  seen : call.seen ≤ sessions.length
  phase : PhaseInv sessions call.seen call.phase

theorem ListingInv.kept {sessions sessions' : List Generation} {listing : Listing}
    (h : ListingInv sessions listing) (hkept : Kept sessions sessions') :
    ListingInv sessions' listing where
  known := hkept.length ▸ h.known
  seen := hkept.length ▸ h.seen
  fresh hseen := hkept.currentOnly (h.fresh (hseen.trans hkept.length))

theorem CallInv.kept {sessions sessions' : List Generation} {call : EnsureCall}
    (h : CallInv sessions call) (hkept : Kept sessions sessions') : CallInv sessions' call where
  seen := hkept.length ▸ h.seen
  phase := by
    have hphase := h.phase
    have hold : ∀ allowed : ℕ → Prop,
        (call.seen = sessions.length → CurrentOnly sessions allowed) →
        call.seen = sessions'.length → CurrentOnly sessions' allowed :=
      fun _ hallowed hseen => hkept.currentOnly (hallowed (hseen.trans hkept.length))
    cases hcase : call.phase with
    | checking old =>
      rw [hcase] at hphase
      exact ⟨hkept.length ▸ hphase.1, hold _ hphase.2⟩
    | archiving old =>
      rw [hcase] at hphase
      exact ⟨⟨hkept.length ▸ hphase.1.1, hold _ hphase.1.2⟩, hphase.2⟩
    | creating old =>
      rw [hcase] at hphase
      exact hold _ hphase
    | naming old created =>
      rw [hcase] at hphase
      exact ⟨hphase.1, hkept.length ▸ hphase.2.1, hphase.2.2⟩
    | holding session =>
      rw [hcase] at hphase
      exact ⟨hkept.length ▸ hphase.1, hphase.2⟩

theorem ListingInv.map {sessions : List Generation} {listing : Listing}
    (h : ListingInv sessions listing) {f : SessionMetadata → SessionMetadata}
    (hf : ∀ session, (f session).id = session.id ∧ (f session).active = session.active) :
    ListingInv sessions { listing with sessions := listing.sessions.map f } where
  known session hmem := by
    obtain ⟨known, hknown, rfl⟩ := List.mem_map.mp hmem
    rw [(hf known).1]
    exact h.known known hknown
  seen := h.seen
  fresh hseen i g hi hcurrent := by
    obtain ⟨known, hknown, hid, hactive⟩ := h.fresh hseen i g hi hcurrent
    exact ⟨f known, List.mem_map.mpr ⟨known, hknown, rfl⟩, (hf known).1.trans hid,
      (hf known).2.trans hactive⟩

theorem ListingInv.append {sessions : List Generation} {listing : Listing}
    (h : ListingInv sessions listing) (new : Generation) :
    ListingInv (sessions ++ [new]) listing := by
  have hlength : (sessions ++ [new]).length = sessions.length + 1 := List.length_append
  refine ⟨fun session hmem => ?_, ?_, fun hseen => ?_⟩
  · have := h.known session hmem
    omega
  · have := h.seen
    omega
  · have := h.seen
    omega

theorem CallInv.append {sessions : List Generation} {call : EnsureCall}
    (h : CallInv sessions call) (new : Generation) : CallInv (sessions ++ [new]) call := by
  have hlength : (sessions ++ [new]).length = sessions.length + 1 := List.length_append
  have hseen := h.seen
  have hphase := h.phase
  refine ⟨by omega, ?_⟩
  cases hcase : call.phase with
  | checking old =>
    rw [hcase] at hphase
    exact ⟨hlength ▸ Nat.lt_succ_of_lt hphase.1, fun hsame => by omega⟩
  | archiving old =>
    rw [hcase] at hphase
    exact ⟨⟨hlength ▸ Nat.lt_succ_of_lt hphase.1.1, fun hsame => by omega⟩, hphase.2⟩
  | creating old => exact fun hsame => by omega
  | naming old created =>
    rw [hcase] at hphase
    exact ⟨hphase.1, hlength ▸ Nat.lt_succ_of_lt hphase.2.1, hphase.2.2⟩
  | holding session =>
    rw [hcase] at hphase
    exact ⟨hlength ▸ Nat.lt_succ_of_lt hphase.1, hphase.2⟩

theorem mem_activeScheduledSessions {candidates : List SessionMetadata}
    {session : SessionMetadata} :
    session ∈ activeScheduledSessions candidates
      ↔ session ∈ candidates ∧ session.active = true := by
  rw [activeScheduledSessions, List.mem_insertionSort, List.mem_filter]

theorem le_of_head_activeScheduledSessions {candidates : List SessionMetadata}
    {newest session : SessionMetadata}
    (hhead : (activeScheduledSessions candidates).head? = some newest)
    (hmem : session ∈ activeScheduledSessions candidates) : session.id ≤ newest.id := by
  have htotal : Std.Total fun (a b : SessionMetadata) => b.id ≤ a.id :=
    ⟨fun a b => Nat.le_total b.id a.id⟩
  have htrans : IsTrans SessionMetadata fun a b => b.id ≤ a.id :=
    ⟨fun a b c hab hbc => Nat.le_trans hbc hab⟩
  have hsorted : (activeScheduledSessions candidates).Pairwise fun a b => b.id ≤ a.id :=
    List.pairwise_insertionSort _ _
  obtain ⟨rest, hcons⟩ := List.head?_eq_some_iff.mp hhead
  rw [hcons] at hsorted hmem
  rcases List.mem_cons.mp hmem with rfl | hrest
  · exact Nat.le_refl _
  · exact (List.pairwise_cons.mp hsorted).1 session hrest

/-- **Where a call starts**, from what was listed: what is current of the sessions is the last
of them. -/
theorem phaseInv_find {sessions : List Generation} {listing : Listing}
    (h : ListingInv sessions listing) (hlast : CurrentOnly sessions (· + 1 = sessions.length))
    (backend : String) :
    PhaseInv sessions listing.seen (.find backend listing.sessions) := by
  unfold EnsurePhase.find
  simp only
  split
  next session hfind =>
    obtain ⟨hmem, hactive⟩ := mem_activeScheduledSessions.mp (List.mem_of_find?_eq_some hfind)
    exact ⟨h.known session hmem, hactive⟩
  · split
    next hnone =>
      intro hseen i g hi hcurrent
      obtain ⟨session, hmem, -, hactive⟩ := h.fresh hseen i g hi hcurrent
      have hin := mem_activeScheduledSessions.mpr ⟨hmem, hactive⟩
      rw [List.head?_eq_none_iff.mp hnone] at hin
      cases hin
    next old hhead =>
      have hknown : old.id < sessions.length :=
        h.known old (mem_activeScheduledSessions.mp (List.mem_of_head? hhead)).1
      refine ⟨hknown, fun hseen i g hi hcurrent => ?_⟩
      obtain ⟨session, hmem, hid, hactive⟩ := h.fresh hseen i g hi hcurrent
      have hle : session.id ≤ old.id := le_of_head_activeScheduledSessions hhead
        (mem_activeScheduledSessions.mpr ⟨hmem, hactive⟩)
      have hi' := hlast i g hi hcurrent
      show i = old.id
      omega

/-! ## What holds in every state -/

/-- What holds in every state. -/
structure Inv (s : GenerationsState) : Prop where
  /-- The sessions stand in the order of their numbers. -/
  ids : ∀ (i : ℕ) (g : Generation), s.sessions[i]? = some g → g.record.id = i
  last : CurrentOnly s.sessions (· + 1 = s.sessions.length)
  cache : ∀ listing ∈ s.cache, ListingInv s.sessions listing
  calls : ∀ c call, s.calls c = some call → CallInv s.sessions call
  idle : ∀ archival ∈ s.archivals, archival.idle = true
  carried : ∀ rotation ∈ s.rotations, rotation.carried = true
  left : ∀ hadActive ∈ s.brokenOff, hadActive = true

variable {s} {t : GenerationsState}

theorem inv_start : Inv {} where
  ids _ _ h := nomatch h
  last _ _ h := nomatch h
  cache _ h := nomatch h
  calls _ _ h := nomatch h
  idle _ h := nomatch h
  carried _ h := nomatch h
  left _ h := nomatch h

theorem Inv.oneGeneration (h : s.Inv) : s.OneGeneration where
  single i j g g' hi hj hcurrent hcurrent' := by
    have hlast := h.last i g hi hcurrent
    have hlast' := h.last j g' hj hcurrent'
    exact Nat.succ_injective (hlast.trans hlast'.symm)
  idle := h.idle
  carried := h.carried
  left := h.left

/-- **A session is changed** that stays what it is, and does not become current. -/
theorem Inv.modify (h : s.Inv) {id : ℕ} {f : Generation → Generation}
    (hf : ∀ g, s.sessions[id]? = some g →
      (f g).record.id = g.record.id ∧ ((f g).current = true → g.current = true)) :
    Inv (s.modify id f) :=
  have hkept : Kept s.sessions (s.sessions.modify id f) := kept_modify hf
  { h with
    ids := fun i g hi => by
      obtain ⟨g₀, hg₀, hid, -⟩ := hkept.of i g hi
      exact hid.trans (h.ids i g₀ hg₀)
    last := fun i g hi hcurrent =>
      (hkept.currentOnly h.last i g hi hcurrent).trans hkept.length.symm
    cache := fun listing hmem => (h.cache listing hmem).kept hkept
    calls := fun c call hcall => (h.calls c call hcall).kept hkept }

theorem Inv.setCall (h : s.Inv) (c : ℕ) {call : EnsureCall} (hcall : CallInv s.sessions call) :
    Inv (s.setCall c call) :=
  { h with
    calls := fun c' call' hcall' => by
      by_cases hc : c' = c
      · subst hc
        simp only [GenerationsState.setCall, Function.update_self, Option.some.injEq] at hcall'
        exact hcall' ▸ hcall
      · simp only [GenerationsState.setCall, Function.update_of_ne hc] at hcall'
        exact h.calls c' call' hcall' }

theorem Inv.drop (h : s.Inv) (c : ℕ) : Inv (s.drop c) :=
  { h with
    calls := fun c' call' hcall' => by
      by_cases hc : c' = c
      · subst hc
        simp only [GenerationsState.drop, Function.update_self, reduceCtorEq] at hcall'
      · simp only [GenerationsState.drop, Function.update_of_ne hc] at hcall'
        exact h.calls c' call' hcall' }

@[simp] theorem modifyCache_sessions (call : EnsureCall) (f : Listing → Listing) :
    (s.modifyCache call f).sessions = s.sessions := by
  unfold GenerationsState.modifyCache
  split <;> rfl

theorem Inv.modifyCache (h : s.Inv) (call : EnsureCall) {f : Listing → Listing}
    (hf : ∀ listing, ListingInv s.sessions listing → ListingInv s.sessions (f listing)) :
    Inv (s.modifyCache call f) := by
  unfold GenerationsState.modifyCache
  split
  · exact { h with
      cache := fun listing hmem => by
        obtain ⟨listing₀, hmem₀, rfl⟩ := Option.map_eq_some_iff.mp hmem
        exact hf listing₀ (h.cache listing₀ hmem₀) }
  · exact h

/-- **A copy is written back** of a session that is not archived. -/
theorem Inv.save (h : s.Inv) {session : SessionMetadata} (hactive : s.isActive session.id = true) :
    Inv (s.save session) := by
  refine h.modify fun g hg => ⟨(h.ids _ g hg).symm, fun hcurrent => ?_⟩
  rw [isActive, hg, Option.any_some] at hactive
  simp only [Generation.current, hactive, Bool.and_true, Bool.true_and, Bool.and_eq_true]
    at hcurrent ⊢
  exact hcurrent.2

theorem Inv.append (h : s.Inv) (hnone : CurrentOnly s.sessions fun _ => False) {new : Generation}
    (hid : new.record.id = s.sessions.length) :
    Inv { s with sessions := s.sessions ++ [new] } := by
  have hlength : (s.sessions ++ [new]).length = s.sessions.length + 1 := List.length_append
  have hcases : ∀ (i : ℕ) (g : Generation), (s.sessions ++ [new])[i]? = some g →
      s.sessions[i]? = some g ∨ i = s.sessions.length ∧ g = new := by
    intro i g hi
    by_cases hlt : i < s.sessions.length
    · rw [List.getElem?_append_left hlt] at hi
      exact .inl hi
    · rw [List.getElem?_append_right (Nat.le_of_not_lt hlt)] at hi
      have hzero := (List.getElem?_eq_some_iff.mp hi).1
      rw [List.length_singleton] at hzero
      exact .inr ⟨by omega, List.mem_singleton.mp (List.mem_of_getElem? hi)⟩
  exact { h with
    ids := fun i g hi => by
      rcases hcases i g hi with hold | ⟨rfl, rfl⟩
      · exact h.ids i g hold
      · exact hid
    last := fun i g hi hcurrent => by
      rcases hcases i g hi with hold | ⟨rfl, -⟩
      · exact (hnone i g hold hcurrent).elim
      · exact hlength.symm
    cache := fun listing hmem => (h.cache listing hmem).append new
    calls := fun c call hcall => (h.calls c call hcall).append new }

theorem Inv.listing (h : s.Inv) : ListingInv s.sessions s.listing where
  known session hmem := by
    obtain ⟨g, hg, rfl⟩ := List.mem_map.mp hmem
    obtain ⟨i, hi⟩ := List.mem_iff_getElem?.mp hg
    rw [h.ids i g hi]
    exact (List.getElem?_eq_some_iff.mp hi).1
  seen := Nat.le_refl _
  fresh _ i g hi hcurrent := by
    refine ⟨g.record, List.mem_map.mpr ⟨g, List.mem_of_getElem? hi, rfl⟩, h.ids i g hi, ?_⟩
    exact (Bool.and_eq_true _ _ ▸ hcurrent).1

/-! ## The steps of a call -/

theorem Inv.archive (h : s.Inv) {c : ℕ} {call : EnsureCall} {old : SessionMetadata}
    (hcall : CallInv s.sessions call) (hphase : call.phase = .archiving old)
    (hthinking : (s.sessions[old.id]?).all (fun g => g.record.thinking = old.thinking) = true)
    (hrunning : (s.sessions[old.id]?).all (fun g => !g.running) = true) :
    Inv { ((s.modify old.id fun generation =>
        { generation with record := { generation.record with active := false } }).goto c call
          (.creating (some old))) with
      archivals := s.archivals ++ [⟨old.id, s.isIdle old.id⟩] } := by
  have hknown := hcall.phase
  rw [hphase] at hknown
  obtain ⟨⟨-, honly⟩, hfalse⟩ := hknown
  have hmodify : Inv (s.modify old.id fun generation =>
      { generation with record := { generation.record with active := false } }) :=
    h.modify fun g _ => ⟨rfl, fun hcurrent => by cases hcurrent⟩
  have hkept : Kept s.sessions (s.sessions.modify old.id fun generation =>
      { generation with record := { generation.record with active := false } }) :=
    kept_modify fun g _ => ⟨rfl, fun hcurrent => by cases hcurrent⟩
  have hcreating : CallInv (s.sessions.modify old.id fun generation =>
      { generation with record := { generation.record with active := false } })
      { call with phase := .creating (some old) } := by
    refine ⟨(hcall.kept hkept).seen, fun hseen i g' hi hcurrent => ?_⟩
    have hold : i = old.id :=
      hkept.currentOnly (honly (hseen.trans hkept.length)) i g' hi hcurrent
    rw [hold, List.getElem?_modify] at hi
    obtain ⟨g, -, rfl⟩ := Option.map_eq_some_iff.mp hi
    simp [Generation.current] at hcurrent
  refine { hmodify.setCall c hcreating with idle := fun archival hmem => ?_ }
  rcases List.mem_append.mp hmem with hbefore | hnew
  · exact h.idle archival hbefore
  · rw [List.mem_singleton.mp hnew]
    show s.isIdle old.id = true
    rw [isIdle]
    cases hg : s.sessions[old.id]? with
    | none => rfl
    | some g =>
      rw [hg, Option.all_some] at hthinking hrunning
      rw [Option.all_some, of_decide_eq_true hthinking, hfalse, hrunning]
      rfl

theorem Inv.create (h : s.Inv) {c : ℕ} {call : EnsureCall} {old : Option SessionMetadata}
    (hcall : CallInv s.sessions call) (hphase : call.phase = .creating old)
    (hread : call.seen = s.sessions.length) {created : SessionMetadata}
    (hid : created.id = s.sessions.length) (hactive : created.active = true)
    (hfresh : created.bookkeeping = {}) :
    Inv { s.goto c call (.naming old created) with
      sessions := s.sessions ++ [⟨created, false, false⟩] } := by
  have hknown := hcall.phase
  rw [hphase] at hknown
  have happend : Inv { s with sessions := s.sessions ++ [⟨created, false, false⟩] } :=
    h.append (hknown hread) hid
  have hlt : call.seen < (s.sessions ++ [(⟨created, false, false⟩ : Generation)]).length := by
    rw [List.length_append, hread]
    exact Nat.lt_succ_self _
  have hnaming : CallInv (s.sessions ++ [⟨created, false, false⟩])
      { call with phase := .naming old created } :=
    ⟨Nat.le_of_lt hlt, hid.trans hread.symm, hlt, hactive, hfresh⟩
  exact happend.setCall c hnaming

/-- Where the old session keeps what it kept when it was listed, a generation with its
bookkeeping carries it. -/
theorem carried_rotationOf {old : Option SessionMetadata} {created : SessionMetadata}
    (hbooked : ∀ known ∈ old, s.bookkeepingOf known.id = some created.bookkeeping)
    {rotation : Rotation} (hmem : rotation ∈ s.rotationOf old created) :
    rotation.carried = true := by
  obtain ⟨known, hknown, rfl⟩ := List.mem_map.mp hmem
  exact decide_eq_true (hbooked known (Option.mem_toList.mp hknown))

theorem Inv.rotated (h : s.Inv) {rotations : List Rotation}
    (hrotations : ∀ rotation ∈ rotations, rotation.carried = true) :
    Inv { s with rotations := s.rotations ++ rotations } :=
  { h with
    carried := fun rotation hmem => (List.mem_append.mp hmem).elim
      (h.carried rotation) (hrotations rotation) }

theorem Inv.brokeOff (h : s.Inv) {brokenOff : List Bool}
    (hleft : ∀ hadActive ∈ brokenOff, hadActive = true) :
    Inv { s with brokenOff := s.brokenOff ++ brokenOff } :=
  { h with
    left := fun hadActive hmem => (List.mem_append.mp hmem).elim
      (h.left hadActive) (hleft hadActive) }

theorem ListingInv.rotate {sessions : List Generation} {listing : Listing}
    (h : ListingInv sessions listing) (hlast : CurrentOnly sessions (· + 1 = sessions.length))
    (old : Option SessionMetadata) {created : SessionMetadata} {seen : ℕ}
    (hid : created.id = seen) (hseen : seen < sessions.length) (hactive : created.active = true) :
    ListingInv sessions (listing.rotate old created (seen + 1)) where
  known session hmem := by
    rcases List.mem_cons.mp hmem with rfl | hmap
    · exact hid ▸ hseen
    · obtain ⟨known, hknown, rfl⟩ := List.mem_map.mp hmap
      exact h.known known hknown
  seen := hseen
  fresh hsame i g hi hcurrent := by
    refine ⟨created, List.mem_cons_self, ?_, hactive⟩
    have hi' := hlast i g hi hcurrent
    have hsame' : seen + 1 = sessions.length := hsame
    omega

theorem Inv.finish (h : s.Inv) {c : ℕ} {call : EnsureCall} {old : Option SessionMetadata}
    {created : SessionMetadata} (hcall : CallInv s.sessions call)
    (hphase : call.phase = .naming old created) (hisActive : s.isActive created.id = true)
    (hbooked : ∀ known ∈ old, s.bookkeepingOf known.id = some known.bookkeeping) :
    Inv (s.finish c call old created) := by
  have hknown := hcall.phase
  rw [hphase] at hknown
  obtain ⟨hid, hlt, hactive, -⟩ := hknown
  have hsaved : Inv (if old.isSome || call.group.isSome then s.save (inherit call old created)
        else s)
      ∧ (if old.isSome || call.group.isSome then s.save (inherit call old created)
        else s).sessions.length = s.sessions.length := by
    split
    · exact ⟨h.save hisActive, List.length_modify ..⟩
    · exact ⟨h, rfl⟩
  unfold GenerationsState.finish
  simp only
  generalize (if old.isSome || call.group.isSome then s.save (inherit call old created)
    else s) = saved at hsaved ⊢
  obtain ⟨hinv, hlength⟩ := hsaved
  have hcached : Inv (saved.modifyCache call
      (Listing.rotate old (inherit call old created) (call.seen + 1))) :=
    hinv.modifyCache call fun listing hlisting =>
      hlisting.rotate hinv.last old hid (hlength ▸ hlt) hactive
  have hholding : CallInv (saved.modifyCache call
      (Listing.rotate old (inherit call old created) (call.seen + 1))).sessions
      { call with phase := .holding (inherit call old created) } := by
    rw [modifyCache_sessions]
    refine ⟨hlength ▸ hcall.seen, ?_, hactive⟩
    show created.id < saved.sessions.length
    omega
  refine { hcached.setCall c hholding with
    carried := fun rotation hmem => (List.mem_append.mp hmem).elim (h.carried rotation)
      fun hnew => carried_rotationOf (fun known hold => ?_) hnew }
  rw [hbooked known hold]
  cases hold
  rfl

theorem hasActive_of_isActive {id : ℕ} (h : s.isActive id = true) : s.hasActive = true := by
  unfold isActive at h
  cases hg : s.sessions[id]? with
  | none => rw [hg] at h; cases h
  | some g =>
    rw [hg, Option.any_some] at h
    exact List.any_eq_true.mpr ⟨g, List.mem_of_getElem? hg, h⟩

/-- **A step of a call** that acts on what is as it was read. -/
theorem Inv.stepCall (h : s.Inv) {c : ℕ} {call : EnsureCall} {a : GenerationsAction}
    (hcall : CallInv s.sessions call) (hread : s.AsRead call a)
    (hstep : s.stepCall c call a = some t) : t.Inv := by
  have hknown := hcall.phase
  cases a with
  | check c' =>
    simp only [GenerationsState.stepCall] at hstep
    split at hstep
    next old hphase =>
      rw [hphase] at hknown
      split at hstep
      · cases hstep
        exact h.drop c
      next hbusy =>
        cases hstep
        have hthinking : old.thinking = false := by
          rw [Bool.or_eq_true, not_or, Bool.not_eq_true] at hbusy
          exact hbusy.1
        exact h.setCall c ⟨hcall.seen, hknown, hthinking⟩
    · cases hstep
  | archive c' =>
    simp only [GenerationsState.stepCall] at hstep
    split at hstep
    next old hphase =>
      cases hstep
      simp only [AsRead, hphase] at hread
      exact h.archive hcall hphase hread.1 hread.2
    · cases hstep
  | archiveFails c' =>
    simp only [GenerationsState.stepCall] at hstep
    split at hstep
    · cases hstep
      exact h.drop c
    · cases hstep
  | create c' =>
    simp only [GenerationsState.stepCall] at hstep
    split at hstep
    next old hphase =>
      cases hstep
      exact h.create hcall hphase hread rfl rfl rfl
    · cases hstep
  | createFails c' =>
    simp only [GenerationsState.stepCall] at hstep
    split at hstep
    next old hphase =>
      cases hstep
      refine (h.drop c).brokeOff fun hadActive hmem => ?_
      obtain ⟨known, hold, rfl⟩ := List.mem_map.mp hmem
      obtain rfl : old = some known := Option.mem_toList.mp hold
      simp only [AsRead, hphase] at hread
      exact hread
    · cases hstep
  | finish c' =>
    simp only [GenerationsState.stepCall] at hstep
    split at hstep
    next old created hphase =>
      cases hstep
      simp only [AsRead, hphase] at hread
      exact h.finish hcall hphase hread.1 hread.2
    · cases hstep
  | finishFails c' =>
    simp only [GenerationsState.stepCall] at hstep
    split at hstep
    next old created hphase =>
      cases hstep
      rw [hphase] at hknown
      simp only [AsRead, hphase] at hread
      have hcarried : ∀ rotation ∈ s.rotationOf old created, rotation.carried = true :=
        fun rotation hmem => carried_rotationOf (fun known hold => by
          rw [(hread.2 known hold).1, (hread.2 known hold).2, hknown.2.2.2]) hmem
      refine ((h.drop c).rotated hcarried).brokeOff fun hadActive hmem => ?_
      obtain ⟨known, -, rfl⟩ := List.mem_map.mp hmem
      exact hasActive_of_isActive hread.1
    · cases hstep
  | save c' bookkeeping =>
    simp only [GenerationsState.stepCall] at hstep
    split at hstep
    next session hphase =>
      cases hstep
      rw [hphase] at hknown
      simp only [AsRead, hphase] at hread
      have hsaved : Inv (s.save { session with bookkeeping }) := h.save hread
      have hlength : (s.save { session with bookkeeping }).sessions.length = s.sessions.length :=
        List.length_modify ..
      have hcached := hsaved.modifyCache call (f := fun listing =>
        { listing with sessions := listing.sessions.map fun known =>
            if known.id = session.id then { known with bookkeeping } else known })
        fun listing hlisting => hlisting.map fun known => by split <;> exact ⟨rfl, rfl⟩
      refine hcached.setCall c ?_
      refine ⟨?_, ?_⟩
      · rw [modifyCache_sessions, hlength]
        exact hcall.seen
      · rw [modifyCache_sessions]
        exact ⟨hlength ▸ hknown.1, hknown.2⟩
    · cases hstep
  | release c' =>
    simp only [GenerationsState.stepCall] at hstep
    split at hstep
    · cases hstep
      exact h.drop c
    · cases hstep
  | list => cases hstep
  | ensure c' backend role group cached => cases hstep
  | archiveSession id => cases hstep
  | unarchiveSession id => cases hstep
  | think id thinking => cases hstep
  | work id running => cases hstep

/-- **Every step that meets the condition** leaves one generation. -/
theorem Inv.step (h : s.Inv) {a : GenerationsAction} (hmeets : s.Meets a)
    (hstep : s.step a = some t) : t.Inv := by
  have hbind : ∀ c a', s.step a = (s.calls c).bind (fun call => s.stepCall c call a') →
      (∀ call ∈ s.calls c, s.AsRead call a') → t.Inv := by
    intro c a' heq hread
    rw [heq] at hstep
    obtain ⟨call, hcall, hstep⟩ := Option.bind_eq_some_iff.mp hstep
    exact h.stepCall (h.calls c call hcall) (hread call hcall) hstep
  cases a with
  | list =>
    simp only [GenerationsState.step] at hstep
    split at hstep
    · cases hstep
    · cases hstep
      exact { h with cache := fun listing hmem => Option.some.inj hmem ▸ h.listing }
  | ensure c backend role group cached =>
    simp only [GenerationsState.step] at hstep
    split at hstep
    · cases hstep
    · split at hstep
      · split at hstep
        next listing hcache _ =>
          cases hstep
          have hlisting := h.cache listing hcache
          have hcall : CallInv s.sessions
              ⟨backend, role, group, true, listing.seen, .find backend listing.sessions⟩ :=
            ⟨hlisting.seen, phaseInv_find hlisting h.last backend⟩
          exact { h.setCall c hcall with }
        · cases hstep
      · cases hstep
        exact h.setCall c ⟨Nat.le_refl _, phaseInv_find h.listing h.last backend⟩
  | check c => exact hbind c (.check c) rfl fun _ _ => trivial
  | archive c => exact hbind c (.archive c) rfl hmeets
  | archiveFails c => exact hbind c (.archiveFails c) rfl fun _ _ => trivial
  | create c => exact hbind c (.create c) rfl hmeets
  | createFails c => exact hbind c (.createFails c) rfl hmeets
  | finish c => exact hbind c (.finish c) rfl hmeets
  | finishFails c => exact hbind c (.finishFails c) rfl hmeets
  | save c bookkeeping => exact hbind c (.save c bookkeeping) rfl hmeets
  | release c => exact hbind c (.release c) rfl fun _ _ => trivial
  | archiveSession id =>
    cases hstep
    exact h.modify fun g _ => ⟨rfl, fun hcurrent => by cases hcurrent⟩
  | unarchiveSession id =>
    cases hstep
    refine h.modify fun g _ => ⟨rfl, fun hcurrent => ?_⟩
    simp only [Generation.current, Bool.true_and, Bool.not_or, Bool.not_not, Bool.and_eq_true]
      at hcurrent ⊢
    exact ⟨hcurrent.2, hcurrent.1⟩
  | think id thinking =>
    cases hstep
    exact h.modify fun g _ => ⟨rfl, fun hcurrent => hcurrent⟩
  | work id running =>
    cases hstep
    exact h.modify fun g _ => ⟨rfl, fun hcurrent => hcurrent⟩

end GenerationsState

/-! ## The main result -/

section Main

variable {as : List GenerationsAction} {s : GenerationsState}

/-- **One generation at a time**, in every run in which what a step of a call acts on is as it
was read and no rotation breaks off without another session being active. -/
theorem oneGeneration_of_run (hmeets : GenerationsState.system.Guarded GenerationsState.Meets {} as)
    (hrun : GenerationsState.system.run {} as = some s) : s.OneGeneration :=
  (GenerationsState.system.run_invariant_of_guarded
    (fun _ _ _ hinv hm hstep => GenerationsState.Inv.step hinv hm hstep)
    GenerationsState.inv_start hmeets hrun).oneGeneration

end Main

/-! ## Two generations -/

/-- What is kept of a run. -/
def booked : Bookkeeping where
  lastScheduledRun := some ⟨60, 0⟩
  lastScheduledCron := some "* * * * *"

/-- A tick creates the session and books a run; then the backend of the task changes, and
the session is rotated. -/
theorem oneGeneration_of_run_rotation :
    ∃ s, GenerationsState.system.run {}
        [.list, .ensure 0 "claude" none none true, .create 0, .finish 0, .save 0 booked,
          .release 0, .ensure 1 "codex" none none false, .check 1, .archive 1, .create 1,
          .finish 1, .release 1] = some s
      ∧ s.archivals = [⟨0, true⟩] ∧ s.rotations = [⟨0, 1, true⟩] ∧ s.OneGeneration := by
  obtain ⟨s, hrun, hlogs⟩ := Option.map_eq_some_iff.mp
    (show (GenerationsState.system.run {}
        [.list, .ensure 0 "claude" none none true, .create 0, .finish 0, .save 0 booked,
          .release 0, .ensure 1 "codex" none none false, .check 1, .archive 1, .create 1,
          .finish 1, .release 1]).map (fun s => (s.archivals, s.rotations))
      = some ([⟨0, true⟩], [⟨0, 1, true⟩]) by decide +kernel)
  obtain ⟨harchivals, hrotations⟩ := Prod.mk.inj hlogs
  exact ⟨s, hrun, harchivals, hrotations,
    oneGeneration_of_run (TransitionSystem.guarded_of_check (by decide +kernel)) hrun⟩

/-- **Two generations**: a tick and a run by hand that both found no session create one each;
when both are over, both are active. -/
theorem two_generations :
    ∃ s, GenerationsState.system.run {}
        [.list, .ensure 0 "claude" none none true, .ensure 1 "claude" none none false,
          .create 0, .create 1, .finish 0, .finish 1, .release 0, .release 1] = some s
      ∧ (∀ c, s.calls c = none) ∧ ¬ s.OneGeneration := by
  refine ⟨_, rfl, fun c => ?_, fun h => ?_⟩
  · by_cases hone : c = 1
    · rw [hone]
      rfl
    · by_cases hzero : c = 0
      · rw [hzero]
        rfl
      · simp [GenerationsState.drop, GenerationsState.finish, GenerationsState.modifyCache,
          GenerationsState.goto, GenerationsState.setCall, hone, hzero]
  · cases h.single 0 1 _ _ rfl rfl rfl rfl

end ScheduledSessions
