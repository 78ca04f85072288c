import CharlieBot.Lib.Json
import CharlieBot.Lib.Transition
import CharlieBot.Lib.Versioned

/-!
# Session metadata: the file, the cache and the mutators

A session's metadata is one file, written whole, and one cache entry. A
mutator reads the metadata – from the cache, or past it from the file –
sets the fields it is about, and saves the whole object: the file is
replaced in a worker thread, and when the event loop is back the entry is
replaced by what was written. Most mutators hold the session's lock from
the read to the end of the save. Reads that fill the cache hold none, and
neither do the saves of the scheduler, of the finalizer and of the weekly
recycle, which save an object they may have read long before.

The module models one session with any number of such tasks interleaved
at their suspension points, and says which interleavings lose an update.
**Nothing is lost as long as every whole-object save writes an object of
the file's last version, and every fill and every refresh of the cache
stores the file's last version** (`lostUpdateFree_of_guarded`). The lock
gives that to the tasks that hold it (`guarded_of_locked`); a fill that is
slow, or a save of an old object, does without it.

The pre-UUID keys of `round_ratings` are read as migrated, so a migration
is a save that sets no field.
-/

/-! ## The object -/

inductive MetaField where
  | id | name | status | hasUnread | starred | createdAt | updatedAt
  | ccSessionId | ccSessionStartedAt | claudeAccount | masterRun | backend
  | scheduledTask | role | lastScheduledRun | lastRunStatus | lastScheduledCron
  | parentSessionId | successorSessionId | slackOrigin | slackWatermarkTs
  | rating | roundRatings | group | archiveOffset
  deriving DecidableEq

abbrev SessionMetadata := MetaField → Json

namespace SessionMetadata

/-- `setattr(meta, field, value)` for each pair. -/
def setFields (m : SessionMetadata) (fields : List (MetaField × Json)) : SessionMetadata :=
  fields.foldl (fun m f => Function.update m f.1 f.2) m

theorem setFields_of_notMem (m : SessionMetadata) {fields : List (MetaField × Json)}
    {f : MetaField} (h : f ∉ fields.map Prod.fst) : m.setFields fields f = m f := by
  induction fields generalizing m with
  | nil => rfl
  | cons p ps ih =>
    rw [List.map_cons, List.mem_cons, not_or] at h
    show setFields (Function.update m p.1 p.2) ps f = m f
    rw [ih _ h.2, Function.update_of_ne h.1]

/-- `meta.status == SessionStatus.ARCHIVED`. -/
def isArchived (m : SessionMetadata) : Bool := (m .status).isText "archived"

end SessionMetadata

/-! ## Mutators -/

/-- **What one save of a mutator sets.** It may find nothing to save. -/
structure Update where
  /-- The fields the mutator is about. -/
  owns : MetaField → Bool
  /-- The object to save, from the object in hand. -/
  apply : SessionMetadata → Option SessionMetadata
  /-- The other fields are saved as they are in hand. -/
  frame : ∀ m m' f, apply m = some m' → owns f = false → m' f = m f

namespace Update

/-- Sets the named fields, to values that may depend on the object in
hand. -/
def assign (fields : List MetaField) (value : SessionMetadata → MetaField → Json) : Update where
  owns f := decide (f ∈ fields)
  apply m := some (m.setFields (fields.map fun f => (f, value m f)))
  frame m m' f h hf := by
    cases h
    refine m.setFields_of_notMem ?_
    rw [List.map_map, show (Prod.fst ∘ fun f => (f, value m f)) = id from rfl, List.map_id]
    exact of_decide_eq_false hf

def set (field : MetaField) (value : Json) : Update := assign [field] fun _ _ => value

/-- Saves only an object that meets the condition. -/
def skipIf (u : Update) (done : SessionMetadata → Bool) : Update where
  owns := u.owns
  apply m := if done m then none else u.apply m
  frame m m' f h hf := by
    split at h
    · cases h
    · exact u.frame m m' f h hf

/-- The save of an object whose rating keys were migrated. -/
def migrateRoundRatingKeys : Update := assign [] fun _ _ => .null

/-- A value for the field that is not the first, another for the first. -/
def either (field : MetaField) (value other : Json) : MetaField → Json := fun f =>
  if f = field then value else other

end Update

inductive CacheFill where
  | replace
  /-- An entry that is there stays. -/
  | setDefault
  deriving DecidableEq

/-- **A task on a session**: a read, the saves of the object read, and a
read behind them. A task with no saves is a reader. -/
structure Mutator where
  /-- Whether the task holds the session's lock throughout. -/
  locked : Bool := true
  /-- Whether the read goes past the cache. -/
  bypassing : Bool := false
  fill : CacheFill := .replace
  /-- The saves, first to last. -/
  saves : List Update := []
  /-- Whether the task reads the file again behind its saves. -/
  readBack : Bool := false

namespace Mutator

def getSession : Mutator := { locked := false }

/-- A listing's read of the session. -/
def loadSessionMetas : Mutator := { locked := false, fill := .setDefault }

/-- Sets one field and the time of the change. -/
def updateField (field : MetaField) (value utcNow : Json) : Mutator :=
  { saves := [.assign [field, .updatedAt] fun _ => Update.either field value utcNow] }

def archiveSession (utcNow : Json) : Mutator :=
  updateField .status (.str "archived") utcNow

def setUnreadFlag (hasUnread : Bool) : Mutator :=
  { saves := [(Update.set .hasUnread (.bool hasUnread)).skipIf fun m =>
      (m .hasUnread).truthy == hasUnread] }

/-- Sets one field on a read past the cache. -/
def saveFieldFresh (field : MetaField) (value : Json) : Mutator :=
  { bypassing := true, saves := [.set field value] }

/-- Sets the conversation's id, and when it changed. -/
def persistCcSessionId (ccSessionId : String) (utcNow : Json) : Mutator :=
  { bypassing := true, readBack := true,
    saves := [.assign [.ccSessionId, .ccSessionStartedAt] fun m f =>
      if (m .ccSessionId).isText ccSessionId then m f
      else Update.either .ccSessionId (.str ccSessionId) utcNow f] }

/-- Sets the pool account where it changes. -/
def persistClaudeAccount (claudeAccount : String) : Mutator :=
  { bypassing := true, readBack := true,
    saves := [(Update.set .claudeAccount (.str claudeAccount)).skipIf fun m =>
      (m .claudeAccount).isText claudeAccount] }

def eloneParent (successorId utcNow : Json) : Mutator :=
  { saves := [.assign [.status, .rating, .successorSessionId, .updatedAt] fun _ f =>
      match f with
      | .status => .str "archived"
      | .rating => .str "thumbs_down"
      | .successorSessionId => successorId
      | _ => utcNow] }

def recycleScheduledSession (eventsArchived : ℕ) : Mutator :=
  { saves := [.assign [.archiveOffset] fun m _ =>
      match m .archiveOffset with
      | .int n => .int (n + eventsArchived)
      | v => v] }

/-- The scheduler's save where the cron expression changed. -/
def maybeRunCronChanged (cron : String) (now utcNow : Json) : Mutator :=
  { locked := false, fill := .setDefault,
    saves := [(Update.assign [.lastScheduledRun, .lastScheduledCron, .updatedAt] fun _ f =>
        match f with
        | .lastScheduledRun => now
        | .lastScheduledCron => .str cron
        | _ => utcNow).skipIf fun m =>
      (m .lastScheduledCron).isNone || (m .lastScheduledCron).isText cron] }

/-- The scheduler's save where the previous round still runs. -/
def maybeRunSkipped (now utcNow : Json) : Mutator :=
  { locked := false, fill := .setDefault,
    saves := [.assign [.lastScheduledRun, .lastRunStatus, .updatedAt] fun _ f =>
      match f with
      | .lastScheduledRun => now
      | .lastRunStatus => .str "skipped"
      | _ => utcNow] }

/-- The scheduler's saves around a handler: the bookkeeping before it, and
the outcome, on the same object, behind it. -/
def executeHandlerTask (cron : String) (now utcNow : Json) (ok : Bool) (later : Json) :
    Mutator :=
  { locked := false, fill := .setDefault,
    saves := [
      .assign [.lastScheduledRun, .lastScheduledCron, .lastRunStatus, .updatedAt] fun _ f =>
        match f with
        | .lastScheduledRun => now
        | .lastScheduledCron => .str cron
        | .lastRunStatus => .str "running"
        | _ => utcNow,
      .assign [.lastRunStatus, .updatedAt] fun _ =>
        Update.either .lastRunStatus (.str (if ok then "success" else "failed")) later] }

/-- The finalizer's save on a scheduled session. -/
def notifyCompletion (exitCode : ℤ) (utcNow : Json) : Mutator :=
  { locked := false,
    saves := [(Update.assign [.lastRunStatus, .updatedAt] fun _ =>
        Update.either .lastRunStatus
          (.str (if exitCode = 0 then "success" else "failed")) utcNow).skipIf fun m =>
      !(m .scheduledTask).truthy] }

/-- The weekly recycle's save, which clears the conversation; whether it
is due is the caller's clock. -/
def clearExpiredAnchor : Mutator :=
  { locked := false,
    saves := [(Update.assign [.ccSessionId, .ccSessionStartedAt] fun _ _ => .null).skipIf
      fun m => !((m .scheduledTask).truthy && (m .ccSessionId).truthy
        && (m .ccSessionStartedAt).truthy)] }

end Mutator

/-! ## The session as a system -/

inductive TaskPhase where
  /-- Not started, or done. -/
  | idle
  /-- About to read. -/
  | waiting (m : Mutator)
  /-- The cache did not serve; the file's signature is taken. -/
  | missing (m : Mutator) (sig : ℕ)
  /-- The file is read. -/
  | loaded (m : Mutator) (sig : ℕ) (snap : Versioned SessionMetadata)
  /-- The object is in hand, with the saves still to do. -/
  | held (m : Mutator) (snap : Versioned SessionMetadata) (rest : List Update)
  /-- The object to save is serialized. -/
  | saving (m : Mutator) (snap : Versioned SessionMetadata) (u : Update)
      (new : SessionMetadata) (rest : List Update)
  /-- The file is replaced; the cache is not. -/
  | published (m : Mutator) (u : Update) (new : Versioned SessionMetadata)
      (rest : List Update)

/-- What a task remembers is true to the file. -/
def TaskPhase.Sound (disk : Versioned SessionMetadata) : TaskPhase → Prop
  | .idle => True
  | .waiting _ => True
  | .missing _ sig => sig ≤ disk.version
  | .loaded _ sig snap => snap.TrueTo disk ∧ sig ≤ snap.version
  | .held _ snap _ => snap.TrueTo disk
  | .saving _ snap u new _ => snap.TrueTo disk ∧ u.apply snap.content = some new
  | .published _ _ new _ => new.TrueTo disk

theorem TaskPhase.Sound.write {disk : Versioned SessionMetadata} {p : TaskPhase}
    (h : p.Sound disk) (m : SessionMetadata) : p.Sound (disk.write m) := by
  cases p with
  | idle => trivial
  | waiting _ => trivial
  | missing _ _ => exact Nat.le_succ_of_le h
  | loaded _ _ _ => exact ⟨h.1.write m, h.2⟩
  | held _ _ _ => exact Versioned.TrueTo.write h m
  | saving _ _ _ _ _ => exact ⟨h.1.write m, h.2⟩
  | published _ _ _ _ => exact Versioned.TrueTo.write h m

/-- **A cache entry**: the object, and the signature it is proved by. -/
structure CacheEntry where
  /-- The object, of the version it was parsed from. -/
  snap : Versioned SessionMetadata
  /-- The file's signature, taken before the read; a save leaves none. -/
  sig : Option ℕ

/-- A cache entry is true to the file, and its signature is not of a later
version than its object. -/
structure CacheEntry.Sound (e : CacheEntry) (disk : Versioned SessionMetadata) : Prop where
  /-- The object is true to the file. -/
  trueTo : e.snap.TrueTo disk
  /-- The signature was taken before the read. -/
  sig_le : ∀ v, e.sig = some v → v ≤ e.snap.version

theorem CacheEntry.Sound.write {e : CacheEntry} {disk : Versioned SessionMetadata}
    (h : e.Sound disk) (m : SessionMetadata) : e.Sound (disk.write m) :=
  ⟨h.trueTo.write m, h.sig_le⟩

/-- **The state of a session's metadata.** A write always moves the file's
signature, so the signature is the number of writes. -/
structure SessionState where
  disk : Versioned SessionMetadata
  cache : Option CacheEntry := none
  /-- The task that holds the session's lock. -/
  lock : Option ℕ := none
  tasks : ℕ → TaskPhase := fun _ => .idle
  /-- Of each field, the value the last completed save that is about it
  wrote. -/
  lastWritten : SessionMetadata

/-- What the event loop and its worker threads do next. -/
inductive SessionAction where
  /-- A task starts. -/
  | call (t : ℕ) (m : Mutator)
  /-- A task takes the lock, if it takes any, and looks the cache up;
  `expired` says whether an entry is past its time to live, `legacy`
  whether the object's rating keys are to be migrated. -/
  | enter (t : ℕ) (expired legacy : Bool)
  /-- The worker thread reads the file. -/
  | read (t : ℕ)
  /-- The read is back on the loop. -/
  | fill (t : ℕ) (legacy : Bool)
  /-- The task sets what it sets and serializes, or is done. -/
  | modify (t : ℕ)
  /-- The worker thread replaces the file. -/
  | publish (t : ℕ)
  /-- The save is back on the loop. -/
  | refresh (t : ℕ)
  /-- The boot scan reads the file and fills the cache, all on the loop. -/
  | listActiveSessionMetas

namespace SessionState

/-- The session before anything happened. -/
def initial (m : SessionMetadata) : SessionState :=
  { disk := ⟨m, 0⟩, lastWritten := m }

def setTask (s : SessionState) (t : ℕ) (p : TaskPhase) : SessionState :=
  { s with tasks := Function.update s.tasks t p }

/-- The saves of an object just read: its migration comes first. -/
def savesOf (m : Mutator) (legacy : Bool) : List Update :=
  if legacy then .migrateRoundRatingKeys :: m.saves else m.saves

/-- The entry the cache serves: an archived one, one within its time to
live, or one whose signature the file still has. -/
def freshCachedMeta (s : SessionState) (expired : Bool) : Option CacheEntry :=
  s.cache.filter fun e =>
    e.snap.content.isArchived || !expired || e.sig == some s.disk.version

/-- The read of a task: the cache serves it, or its entry is dropped and
the file has to be read. -/
def lookUp (s : SessionState) (t : ℕ) (m : Mutator) (expired legacy : Bool) :
    SessionState :=
  match if m.bypassing then none else s.freshCachedMeta expired with
  | some e => s.setTask t (.held m e.snap (savesOf m legacy))
  | none => { s with cache := none }.setTask t (.missing m s.disk.version)

/-- A task ends, and gives its lock back. -/
def finish (s : SessionState) (t : ℕ) (m : Mutator) : SessionState :=
  { s with lock := if m.locked then none else s.lock }.setTask t .idle

/-- What a read leaves in the cache. -/
def filled (s : SessionState) (m : Mutator) (e : CacheEntry) : SessionState :=
  match m.fill, s.cache with
  | .setDefault, some _ => s
  | _, _ => { s with cache := some e }

/-- **One step of the session.** -/
def step (s : SessionState) : SessionAction → Option SessionState
  | .call t m =>
    match s.tasks t with
    | .idle => some (s.setTask t (.waiting m))
    | _ => none
  | .enter t expired legacy =>
    match s.tasks t with
    | .waiting m =>
      if m.locked then
        if s.lock.isSome then none
        else some ({ s with lock := some t }.lookUp t m expired legacy)
      else some (s.lookUp t m expired legacy)
    | _ => none
  | .read t =>
    match s.tasks t with
    | .missing m sig => some (s.setTask t (.loaded m sig s.disk))
    | _ => none
  | .fill t legacy =>
    match s.tasks t with
    | .loaded m sig snap =>
      -- a migrated object is saved at once, and the save fills the cache
      if legacy then some (s.setTask t (.held m snap (savesOf m true)))
      else some ((s.filled m ⟨snap, some sig⟩).setTask t (.held m snap m.saves))
    | _ => none
  | .modify t =>
    match s.tasks t with
    | .held m snap (u :: rest) =>
      match u.apply snap.content with
      | none => some (s.setTask t (.held m snap rest))
      | some new => some (s.setTask t (.saving m snap u new rest))
    | .held m _ [] =>
      if m.readBack then
        some ({ s with cache := none }.setTask t
          (.missing { m with saves := [], readBack := false } s.disk.version))
      else some (s.finish t m)
    | _ => none
  | .publish t =>
    match s.tasks t with
    | .saving m _ u new rest =>
      some ({ s with disk := s.disk.write new }.setTask t
        (.published m u (s.disk.write new) rest))
    | _ => none
  | .refresh t =>
    match s.tasks t with
    | .published m u new rest =>
      some ({ s with
        cache := some ⟨new, none⟩
        lastWritten := fun f => if u.owns f then new.content f else s.lastWritten f
        }.setTask t (.held m new rest))
    | _ => none
  | .listActiveSessionMetas =>
    some { s with cache := some ⟨s.disk, some s.disk.version⟩ }

def system : TransitionSystem SessionState SessionAction := ⟨step⟩

/-! ## What is lost and what is not -/

/-- A save of a task that has replaced the file and is not completed, and
that is about the field. -/
def Publishing (p : TaskPhase) (f : MetaField) : Prop :=
  match p with
  | .published _ u _ _ => u.owns f = true
  | _ => False

/-- **No update is lost**: a field that no save under way has published
holds, in the file and in the cache, what the last completed save about it
wrote. -/
def NoLostUpdate (s : SessionState) : Prop :=
  ∀ f, (∀ t, ¬ Publishing (s.tasks t) f) →
    s.disk.content f = s.lastWritten f ∧
    ∀ e, s.cache = some e → e.snap.content f = s.lastWritten f

/-- The fields an action may change in the file. -/
def owner (s : SessionState) (a : SessionAction) (f : MetaField) : Prop :=
  match a with
  | .publish t =>
    match s.tasks t with
    | .saving _ _ u _ _ => u.owns f = true
    | _ => False
  | _ => False

/-- **The condition on a step.** A save publishes an object of the file's
last version; a fill and a refresh store the file's last version. -/
def Current (s : SessionState) (a : SessionAction) : Prop :=
  match a with
  | .publish t =>
    match s.tasks t with
    | .saving _ snap _ _ _ => snap.version = s.disk.version
    | _ => True
  | .fill t legacy =>
    match s.tasks t with
    | .loaded m _ snap =>
      legacy = false → (m.fill = .replace ∨ s.cache = none) →
        snap.version = s.disk.version
    | _ => True
  | .refresh t =>
    match s.tasks t with
    | .published _ _ new _ => new.version = s.disk.version
    | _ => True
  | _ => True

/-- **What holds of a session at any time.** -/
structure Inv (s : SessionState) : Prop where
  /-- Every task remembers what is true to the file. -/
  tasks : ∀ t, (s.tasks t).Sound s.disk
  cache : ∀ e, s.cache = some e → e.Sound s.disk
  noLostUpdate : s.NoLostUpdate

/-! ## One step -/

variable {s s' : SessionState}

@[simp] theorem disk_setTask (t : ℕ) (p : TaskPhase) :
    (s.setTask t p).disk = s.disk := rfl

@[simp] theorem cache_setTask (t : ℕ) (p : TaskPhase) :
    (s.setTask t p).cache = s.cache := rfl

theorem tasks_setTask_self (t : ℕ) (p : TaskPhase) : (s.setTask t p).tasks t = p :=
  Function.update_self ..

theorem tasks_setTask_of_ne {t t' : ℕ} (p : TaskPhase) (h : t' ≠ t) :
    (s.setTask t p).tasks t' = s.tasks t' := Function.update_of_ne h ..

theorem Inv.setTask (h : s.Inv) {t : ℕ} {p : TaskPhase} (hp : p.Sound s.disk)
    (hquiet : ∀ f, ¬ Publishing (s.tasks t) f) : (s.setTask t p).Inv := by
  refine ⟨fun t' => ?_, h.cache, fun f hf => ?_⟩
  · by_cases ht : t' = t
    · subst ht
      rw [tasks_setTask_self]
      exact hp
    · rw [tasks_setTask_of_ne p ht]
      exact h.tasks t'
  · refine h.noLostUpdate f fun t' hpub => ?_
    by_cases ht : t' = t
    · subst ht
      exact hquiet f hpub
    · refine hf t' ?_
      rw [tasks_setTask_of_ne p ht]
      exact hpub

theorem Inv.dropCache (h : s.Inv) : Inv { s with cache := none } :=
  ⟨h.tasks, fun _ he => (by cases he),
    fun f hf => ⟨(h.noLostUpdate f hf).1, fun _ he => (by cases he)⟩⟩

theorem Inv.storeCache (h : s.Inv) {e : CacheEntry} (he : e.Sound s.disk)
    (hcurrent : e.snap.version = s.disk.version) : Inv { s with cache := some e } := by
  refine ⟨h.tasks, fun e' he' => ?_, fun f hf => ?_⟩
  · cases he'
    exact he
  · obtain ⟨hdisk, -⟩ := h.noLostUpdate f hf
    refine ⟨hdisk, fun e' he' => ?_⟩
    cases he'
    rw [he.trueTo.content_eq hcurrent]
    exact hdisk

theorem Inv.setLock (h : s.Inv) (l : Option ℕ) : Inv { s with lock := l } :=
  ⟨h.tasks, h.cache, h.noLostUpdate⟩

theorem Inv.lookUp (h : s.Inv) {t : ℕ} {m : Mutator} (expired legacy : Bool)
    (hquiet : ∀ f, ¬ Publishing (s.tasks t) f) : (s.lookUp t m expired legacy).Inv := by
  unfold SessionState.lookUp
  split
  · next e he =>
    refine h.setTask ?_ hquiet
    split at he
    · cases he
    · exact (h.cache e (Option.filter_eq_some_iff.mp he).1).trueTo
  · exact h.dropCache.setTask (le_refl _) hquiet

theorem Inv.filled (h : s.Inv) {m : Mutator} {e : CacheEntry} (he : e.Sound s.disk)
    (hcurrent : m.fill = .replace ∨ s.cache = none → e.snap.version = s.disk.version) :
    (s.filled m e).Inv := by
  unfold SessionState.filled
  split
  · exact h
  · next hother =>
    refine h.storeCache he (hcurrent ?_)
    cases hfill : m.fill with
    | replace => exact .inl rfl
    | setDefault =>
      cases hcache : s.cache with
      | none => exact .inr rfl
      | some e' => exact absurd hcache (hother e' hfill)

theorem Inv.publish (h : s.Inv) {t : ℕ} {m : Mutator} {snap : Versioned SessionMetadata}
    {u : Update} {new : SessionMetadata} {rest : List Update}
    (ht : s.tasks t = .saving m snap u new rest) (hcurrent : snap.version = s.disk.version) :
    Inv ({ s with disk := s.disk.write new }.setTask t
      (.published m u (s.disk.write new) rest)) := by
  obtain ⟨hsnap, happly⟩ : TaskPhase.Sound s.disk (.saving m snap u new rest) :=
    ht ▸ h.tasks t
  have hframe : ∀ f, u.owns f = false → new f = s.disk.content f := fun f hf => by
    rw [u.frame _ _ f happly hf, hsnap.content_eq hcurrent]
  refine ⟨fun t' => ?_, fun e he => ?_, fun f hf => ?_⟩
  · by_cases htt : t' = t
    · subst htt
      rw [tasks_setTask_self]
      exact .refl _
    · rw [tasks_setTask_of_ne _ htt]
      exact (h.tasks t').write new
  · exact (h.cache e he).write new
  · -- the save under way is not about this field, so it changes nothing
    have howns : u.owns f = false := by
      have := hf t
      rw [tasks_setTask_self] at this
      exact Bool.eq_false_iff.mpr this
    have hquiet : ∀ t', ¬ Publishing (s.tasks t') f := fun t' hpub => by
      by_cases htt : t' = t
      · subst htt
        rw [ht] at hpub
        exact hpub
      · refine hf t' ?_
        rw [tasks_setTask_of_ne _ htt]
        exact hpub
    obtain ⟨hdisk, hcache⟩ := h.noLostUpdate f hquiet
    refine ⟨?_, hcache⟩
    show new f = s.lastWritten f
    rw [hframe f howns]
    exact hdisk

theorem Inv.refresh (h : s.Inv) {t : ℕ} {m : Mutator} {u : Update}
    {new : Versioned SessionMetadata} {rest : List Update}
    (ht : s.tasks t = .published m u new rest) (hcurrent : new.version = s.disk.version) :
    Inv ({ s with
      cache := some ⟨new, none⟩
      lastWritten := fun f => if u.owns f then new.content f else s.lastWritten f
      }.setTask t (.held m new rest)) := by
  have hnew : new.TrueTo s.disk := by
    have := h.tasks t
    rw [ht] at this
    exact this
  have hdisk : new.content = s.disk.content := hnew.content_eq hcurrent
  refine ⟨fun t' => ?_, fun e he => ?_, fun f hf => ?_⟩
  · by_cases htt : t' = t
    · subst htt
      rw [tasks_setTask_self]
      exact hnew
    · rw [tasks_setTask_of_ne _ htt]
      exact h.tasks t'
  · cases he
    exact ⟨hnew, fun _ hv => (by cases hv)⟩
  · have hwritten : s.disk.content f
        = if u.owns f then new.content f else s.lastWritten f := by
      by_cases howns : u.owns f = true
      · rw [if_pos howns, hdisk]
      · rw [if_neg howns]
        refine (h.noLostUpdate f fun t' hpub => ?_).1
        by_cases htt : t' = t
        · subst htt
          rw [ht] at hpub
          exact howns hpub
        · refine hf t' ?_
          rw [tasks_setTask_of_ne _ htt]
          exact hpub
    refine ⟨hwritten, fun e he => ?_⟩
    cases he
    exact (congrFun hdisk f).trans hwritten

/-- **Every step that meets its condition loses nothing.** -/
theorem Inv.step (h : s.Inv) {a : SessionAction} (ha : s.Current a)
    (hstep : s.step a = some s') : s'.Inv := by
  cases a with
  | call t m =>
    cases ht : s.tasks t with
    | idle =>
      simp only [SessionState.step, ht, Option.some.injEq] at hstep
      subst hstep
      exact h.setTask trivial fun f hf => by rw [ht] at hf; exact hf
    | _ => simp [SessionState.step, ht] at hstep
  | enter t expired legacy =>
    cases ht : s.tasks t with
    | waiting m =>
      have hquiet : ∀ f, ¬ Publishing (s.tasks t) f := fun f hf => by
        rw [ht] at hf
        exact hf
      simp only [SessionState.step, ht] at hstep
      split at hstep
      · split at hstep
        · cases hstep
        · cases hstep
          exact (h.setLock (some t)).lookUp expired legacy hquiet
      · cases hstep
        exact h.lookUp expired legacy hquiet
    | _ => simp [SessionState.step, ht] at hstep
  | read t =>
    cases ht : s.tasks t with
    | missing m sig =>
      have hsig : sig ≤ s.disk.version := by
        have := h.tasks t
        rw [ht] at this
        exact this
      simp only [SessionState.step, ht, Option.some.injEq] at hstep
      subst hstep
      exact h.setTask ⟨.refl _, hsig⟩ fun f hf => by rw [ht] at hf; exact hf
    | _ => simp [SessionState.step, ht] at hstep
  | fill t legacy =>
    cases ht : s.tasks t with
    | loaded m sig snap =>
      have hquiet : ∀ f, ¬ Publishing (s.tasks t) f := fun f hf => by
        rw [ht] at hf
        exact hf
      obtain ⟨hsnap, hsig⟩ : TaskPhase.Sound s.disk (.loaded m sig snap) := ht ▸ h.tasks t
      simp only [SessionState.Current, ht] at ha
      simp only [SessionState.step, ht] at hstep
      split at hstep
      · cases hstep
        exact h.setTask hsnap hquiet
      · next hlegacy =>
        cases hstep
        have hentry : CacheEntry.Sound ⟨snap, some sig⟩ s.disk :=
          ⟨hsnap, fun v hv => by cases hv; exact hsig⟩
        have hfilled := h.filled (m := m) hentry (ha (Bool.eq_false_iff.mpr hlegacy))
        refine hfilled.setTask ?_ ?_
        · unfold SessionState.filled
          split <;> exact hsnap
        · unfold SessionState.filled
          split <;> exact hquiet
    | _ => simp [SessionState.step, ht] at hstep
  | modify t =>
    cases ht : s.tasks t with
    | held m snap rest =>
      have hquiet : ∀ f, ¬ Publishing (s.tasks t) f := fun f hf => by
        rw [ht] at hf
        exact hf
      have hsnap : snap.TrueTo s.disk := by
        have := h.tasks t
        rw [ht] at this
        exact this
      cases rest with
      | nil =>
        simp only [SessionState.step, ht] at hstep
        split at hstep
        · cases hstep
          exact h.dropCache.setTask (le_refl _) hquiet
        · cases hstep
          exact (h.setLock _).setTask trivial hquiet
      | cons u rest =>
        simp only [SessionState.step, ht] at hstep
        split at hstep
        · cases hstep
          exact h.setTask hsnap hquiet
        · next new hnew =>
          cases hstep
          exact h.setTask ⟨hsnap, hnew⟩ hquiet
    | _ => simp [SessionState.step, ht] at hstep
  | publish t =>
    cases ht : s.tasks t with
    | saving m snap u new rest =>
      simp only [SessionState.Current, ht] at ha
      simp only [SessionState.step, ht, Option.some.injEq] at hstep
      subst hstep
      exact h.publish ht ha
    | _ => simp [SessionState.step, ht] at hstep
  | refresh t =>
    cases ht : s.tasks t with
    | published m u new rest =>
      simp only [SessionState.Current, ht] at ha
      simp only [SessionState.step, ht, Option.some.injEq] at hstep
      subst hstep
      exact h.refresh ht ha
    | _ => simp [SessionState.step, ht] at hstep
  | listActiveSessionMetas =>
    cases hstep
    exact h.storeCache ⟨.refl _, fun v hv => by cases hv; exact le_refl _⟩ rfl

@[simp] theorem disk_lookUp (t : ℕ) (m : Mutator) (expired legacy : Bool) :
    (s.lookUp t m expired legacy).disk = s.disk := by
  unfold lookUp
  split <;> rfl

@[simp] theorem disk_filled (m : Mutator) (e : CacheEntry) :
    (s.filled m e).disk = s.disk := by
  unfold filled
  split <;> rfl

theorem disk_step {a : SessionAction} (hstep : s.step a = some s') :
    s'.disk = s.disk ∨ ∃ t m snap u new rest, a = .publish t
      ∧ s.tasks t = .saving m snap u new rest ∧ s'.disk = s.disk.write new := by
  cases a with
  | publish t =>
    simp only [SessionState.step] at hstep
    split at hstep
    · next m snap u new rest ht =>
      cases hstep
      exact .inr ⟨t, m, snap, u, new, rest, rfl, ht, rfl⟩
    · cases hstep
  | _ =>
    refine .inl ?_
    simp only [SessionState.step] at hstep
    grind [disk_lookUp, disk_filled, disk_setTask, finish]

theorem Inv.disk_step (h : s.Inv) {a : SessionAction} (ha : s.Current a)
    (hstep : s.step a = some s') {f : MetaField} (hf : ¬ s.owner a f) :
    s'.disk.content f = s.disk.content f := by
  rcases SessionState.disk_step hstep with heq | ⟨t, m, snap, u, new, rest, rfl, ht, heq⟩
  · rw [heq]
  · simp only [SessionState.Current, ht] at ha
    simp only [SessionState.owner, ht] at hf
    obtain ⟨hsnap, happly⟩ : TaskPhase.Sound s.disk (.saving m snap u new rest) :=
      ht ▸ h.tasks t
    rw [heq, Versioned.content_write, u.frame _ _ f happly (Bool.eq_false_iff.mpr hf),
      hsnap.content_eq ha]

/-! ## What the lock gives -/

/-- A task that is past its lock holds it, and has in hand the file's last
version. -/
def Holds (mine : Prop) (version : ℕ) : TaskPhase → Prop
  | .idle => True
  | .waiting m => m.locked = true
  | .missing m _ => m.locked = true ∧ mine
  | .loaded m _ snap => m.locked = true ∧ mine ∧ snap.version = version
  | .held m snap _ => m.locked = true ∧ mine ∧ snap.version = version
  | .saving m snap _ _ _ => m.locked = true ∧ mine ∧ snap.version = version
  | .published m _ new _ => m.locked = true ∧ mine ∧ new.version = version

theorem Holds.of_not {mine mine' : Prop} {v v' : ℕ} {p : TaskPhase}
    (h : Holds mine v p) (hmine : ¬ mine) : Holds mine' v' p := by
  cases p with
  | idle => trivial
  | waiting _ => exact h
  | missing _ _ => exact absurd h.2 hmine
  | loaded _ _ _ => exact absurd h.2.1 hmine
  | held _ _ _ => exact absurd h.2.1 hmine
  | saving _ _ _ _ _ => exact absurd h.2.1 hmine
  | published _ _ _ _ => exact absurd h.2.1 hmine

/-- Whether a save has replaced the file and is not completed. -/
def IsPublished : TaskPhase → Prop
  | .published _ _ _ _ => True
  | _ => False

/-- **One task at a time, and what it has is current.** -/
structure Exclusive (s : SessionState) : Prop where
  /-- Every task past its lock holds it. -/
  tasks : ∀ t, Holds (s.lock = some t) s.disk.version (s.tasks t)
  /-- The cache is current, but for a save under way. -/
  cache : (∀ t, ¬ IsPublished (s.tasks t)) →
    ∀ e, s.cache = some e → e.snap.version = s.disk.version

theorem Exclusive.others {s : SessionState} (h : s.Exclusive) {t : ℕ}
    (hlock : ∀ t', s.lock = some t' → t' = t) {mine : Prop} {v : ℕ} {t' : ℕ}
    (ht : t' ≠ t) : Holds mine v (s.tasks t') :=
  (h.tasks t').of_not fun heq => ht (hlock t' heq)

theorem exclusive_setTask {s : SessionState} {t : ℕ} {p : TaskPhase}
    (hothers : ∀ t', t' ≠ t → Holds (s.lock = some t') s.disk.version (s.tasks t'))
    (hp : Holds (s.lock = some t) s.disk.version p)
    (hcache : ¬ IsPublished p → (∀ t', t' ≠ t → ¬ IsPublished (s.tasks t')) →
      ∀ e, s.cache = some e → e.snap.version = s.disk.version) :
    (s.setTask t p).Exclusive := by
  refine ⟨fun t' => ?_, fun hquiet => hcache ?_ fun t' ht => ?_⟩
  · by_cases ht : t' = t
    · subst ht
      rw [tasks_setTask_self]
      exact hp
    · rw [tasks_setTask_of_ne p ht]
      exact hothers t' ht
  · have := hquiet t
    rw [tasks_setTask_self] at this
    exact this
  · have := hquiet t'
    rw [tasks_setTask_of_ne p ht] at this
    exact this

theorem Exclusive.cache_of {s : SessionState} (h : s.Exclusive) {t : ℕ}
    (ht : ¬ IsPublished (s.tasks t)) (hothers : ∀ t', t' ≠ t → ¬ IsPublished (s.tasks t')) :
    ∀ e, s.cache = some e → e.snap.version = s.disk.version := by
  refine h.cache fun t' => ?_
  by_cases htt : t' = t
  · subst htt
    exact ht
  · exact hothers t' htt

/-- The tasks that may start where only the lock protects. -/
def Locked : SessionAction → Prop
  | .call _ m => m.locked = true
  | _ => True

theorem Exclusive.step {s s' : SessionState} (h : s.Exclusive) {a : SessionAction}
    (ha : Locked a) (hstep : s.step a = some s') : s'.Exclusive := by
  cases a with
  | call t m =>
    cases ht : s.tasks t with
    | idle =>
      simp only [SessionState.step, ht, Option.some.injEq] at hstep
      subst hstep
      exact exclusive_setTask (fun t' _ => h.tasks t') ha fun _ =>
        h.cache_of (by rw [ht]; exact id)
    | _ => simp [SessionState.step, ht] at hstep
  | enter t expired legacy =>
    cases ht : s.tasks t with
    | waiting m =>
      have hm : m.locked = true := by
        have := h.tasks t
        rw [ht] at this
        exact this
      simp only [SessionState.step, ht, hm, if_true] at hstep
      split at hstep
      · cases hstep
      · next hfree =>
        cases hstep
        have hnone : s.lock = none := Option.not_isSome_iff_eq_none.mp hfree
        have hother : ∀ {mine v} t', Holds mine v (s.tasks t') := fun t' =>
          (h.tasks t').of_not (by rw [hnone]; exact (Option.some_ne_none t').symm)
        have hcurrent : ∀ e, s.cache = some e → e.snap.version = s.disk.version := by
          refine h.cache fun t' hpub => ?_
          have : Holds False 0 (s.tasks t') := hother t'
          cases hp : s.tasks t' with
          | published _ _ _ _ =>
            rw [hp] at this
            exact this.2.1
          | _ =>
            rw [hp] at hpub
            exact hpub
        unfold lookUp
        split
        · next e he =>
          refine exclusive_setTask (fun t' _ => hother t') ⟨hm, rfl, hcurrent e ?_⟩
            fun _ _ => hcurrent
          split at he
          · cases he
          · exact (Option.filter_eq_some_iff.mp he).1
        · exact exclusive_setTask (fun t' _ => hother t') ⟨hm, rfl⟩
            fun _ _ _ he => (by cases he)
    | _ => simp [SessionState.step, ht] at hstep
  | read t =>
    cases ht : s.tasks t with
    | missing m sig =>
      have hold : Holds _ _ (.missing m sig) := ht ▸ h.tasks t
      simp only [SessionState.step, ht, Option.some.injEq] at hstep
      subst hstep
      exact exclusive_setTask (fun t' _ => h.tasks t') ⟨hold.1, hold.2, rfl⟩ fun _ =>
        h.cache_of (by rw [ht]; exact id)
    | _ => simp [SessionState.step, ht] at hstep
  | fill t legacy =>
    cases ht : s.tasks t with
    | loaded m sig snap =>
      have hold : Holds _ _ (.loaded m sig snap) := ht ▸ h.tasks t
      have hquiet : ¬ IsPublished (s.tasks t) := by
        rw [ht]
        exact id
      simp only [SessionState.step, ht] at hstep
      split at hstep
      · cases hstep
        exact exclusive_setTask (fun t' _ => h.tasks t') hold fun _ => h.cache_of hquiet
      · cases hstep
        unfold filled
        split
        · exact exclusive_setTask (fun t' _ => h.tasks t') hold fun _ => h.cache_of hquiet
        · refine exclusive_setTask (fun t' _ => h.tasks t') hold fun _ _ e he => ?_
          cases he
          exact hold.2.2
    | _ => simp [SessionState.step, ht] at hstep
  | modify t =>
    cases ht : s.tasks t with
    | held m snap rest =>
      have hold : Holds _ _ (.held m snap rest) := ht ▸ h.tasks t
      have hquiet : ¬ IsPublished (s.tasks t) := by
        rw [ht]
        exact id
      cases rest with
      | nil =>
        simp only [SessionState.step, ht] at hstep
        split at hstep
        · cases hstep
          exact exclusive_setTask (fun t' _ => h.tasks t') ⟨hold.1, hold.2.1⟩
            fun _ _ _ he => (by cases he)
        · cases hstep
          refine exclusive_setTask (fun t' ht' => ?_) trivial fun _ => h.cache_of hquiet
          refine h.others (t := t) (fun t'' hlock => ?_) ht'
          exact Option.some_inj.mp (hlock.symm.trans hold.2.1)
      | cons u rest =>
        simp only [SessionState.step, ht] at hstep
        split at hstep <;>
        · cases hstep
          exact exclusive_setTask (fun t' _ => h.tasks t') hold fun _ => h.cache_of hquiet
    | _ => simp [SessionState.step, ht] at hstep
  | publish t =>
    cases ht : s.tasks t with
    | saving m snap u new rest =>
      have hold : Holds _ _ (.saving m snap u new rest) := ht ▸ h.tasks t
      simp only [SessionState.step, ht, Option.some.injEq] at hstep
      subst hstep
      refine exclusive_setTask (fun t' ht' => ?_) ⟨hold.1, hold.2.1, rfl⟩
        fun hpub => absurd trivial hpub
      refine h.others (t := t) (fun t'' hlock => ?_) ht'
      exact Option.some_inj.mp (hlock.symm.trans hold.2.1)
    | _ => simp [SessionState.step, ht] at hstep
  | refresh t =>
    cases ht : s.tasks t with
    | published m u new rest =>
      have hold : Holds _ _ (.published m u new rest) := ht ▸ h.tasks t
      simp only [SessionState.step, ht, Option.some.injEq] at hstep
      subst hstep
      refine exclusive_setTask (fun t' _ => h.tasks t') hold fun _ _ e he => ?_
      cases he
      exact hold.2.2
    | _ => simp [SessionState.step, ht] at hstep
  | listActiveSessionMetas =>
    cases hstep
    refine ⟨h.tasks, fun _ e he => ?_⟩
    cases he
    rfl

theorem exclusive_initial (m : SessionMetadata) : (initial m).Exclusive :=
  ⟨fun _ => (trivial : Holds _ _ .idle), fun _ _ he => (by cases he)⟩

theorem Exclusive.current {s : SessionState} (h : s.Exclusive) (a : SessionAction) :
    s.Current a := by
  cases a with
  | publish t =>
    have hold := h.tasks t
    unfold Current
    dsimp only
    split
    · next ht =>
      rw [ht] at hold
      exact hold.2.2
    · trivial
  | fill t legacy =>
    have hold := h.tasks t
    unfold Current
    dsimp only
    split
    · next ht =>
      rw [ht] at hold
      exact fun _ _ => hold.2.2
    · trivial
  | refresh t =>
    have hold := h.tasks t
    unfold Current
    dsimp only
    split
    · next ht =>
      rw [ht] at hold
      exact hold.2.2
    · trivial
  | _ => trivial

/-- **Under the lock every step meets its condition**, whatever the tasks
set and however they interleave. -/
theorem guarded_of_locked (m : SessionMetadata) {as : List SessionAction}
    (has : ∀ a ∈ as, Locked a) : system.Guarded Current (initial m) as :=
  system.guarded_of_invariant (fun _ a h _ => h.current a)
    (fun _ _ _ h ha hstep => h.step ha hstep) (exclusive_initial m) has

/-! ## Every run -/

theorem inv_initial (m : SessionMetadata) : (initial m).Inv :=
  ⟨fun _ => trivial, fun _ he => (by cases he), fun _ _ =>
    ⟨rfl, fun _ he => (by cases he)⟩⟩

/-- **Lost update freedom.** Along every run whose saves publish objects of
the file's last version, and whose fills and refreshes store the file's
last version, every field holds – in the file and in the cache – what the
last completed save about it wrote, and no save changes a field it is not
about. -/
theorem lostUpdateFree_of_guarded (m : SessionMetadata) {as : List SessionAction}
    (hguarded : system.Guarded Current (initial m) as) {s : SessionState}
    (hrun : system.run (initial m) as = some s) :
    s.NoLostUpdate ∧ ∀ a s', s.Current a → system.step s a = some s' →
      ∀ f, ¬ s.owner a f → s'.disk.content f = s.disk.content f := by
  have hinv : s.Inv := system.run_invariant_of_guarded (I := Inv)
    (fun _ _ _ h ha hstep => h.step ha hstep) (inv_initial m) hguarded hrun
  exact ⟨hinv.noLostUpdate, fun a s' ha hstep f hf => hinv.disk_step ha hstep hf⟩

def oldSession : SessionMetadata := Function.update (fun _ => .null) .name (.str "old")

/-- The steps of a task with one save whose read misses the cache. -/
def missActions (t : ℕ) (m : Mutator) : List SessionAction :=
  [.call t m, .enter t false false, .read t, .fill t false, .modify t, .publish t,
    .refresh t, .modify t]

/-- A rename nothing interferes with loses nothing. -/
theorem lostUpdateFree_of_guarded_rename : ∃ s,
    system.run (initial oldSession)
        (missActions 0 (.updateField .name (.str "new") .null)) = some s
      ∧ s.disk.content .name = .str "new" ∧ s.NoLostUpdate := by
  have hguarded : system.Guarded Current (initial oldSession)
      (missActions 0 (.updateField .name (.str "new") .null)) := by
    refine guarded_of_locked oldSession ?_
    simp only [missActions, List.forall_mem_cons, Locked]
    exact ⟨rfl, trivial, trivial, trivial, trivial, trivial, trivial, trivial,
      fun _ ha => absurd ha List.not_mem_nil⟩
  exact ⟨_, rfl, rfl, (lostUpdateFree_of_guarded oldSession hguarded rfl).1⟩

/-- **A rename is lost.** A reader misses the cache and has read the file
when a rename goes through; the reader's fill then puts the old name back
into the cache, and a task that sets the unread flag saves it to the file.
Everything is over, and the file holds the name the rename replaced. -/
theorem rename_lost : ∃ s,
    system.run (initial oldSession)
        ([.call 0 .getSession, .enter 0 false false, .read 0]
          ++ missActions 1 (.updateField .name (.str "new") .null)
          ++ [.fill 0 false, .modify 0]
          ++ [.call 2 (.setUnreadFlag true), .enter 2 false false, .modify 2, .publish 2,
            .refresh 2, .modify 2]) = some s
      ∧ s.lastWritten .name = .str "new" ∧ s.disk.content .name = .str "old"
      ∧ ¬ s.NoLostUpdate := by
  refine ⟨_, rfl, rfl, rfl, fun h => ?_⟩
  have hname := (h .name fun t => ?_).1
  · exact absurd (Json.str.inj hname) (by decide)
  · match t with
    | 0 => exact id
    | 1 => exact id
    | 2 => exact id
    | t + 3 => exact id

end SessionState
