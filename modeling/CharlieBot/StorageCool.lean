import CharlieBot.Lib.Json
import Mathlib.Data.List.Nodup
import Mathlib.Algebra.GroupWithZero.Nat

/-!
# The cold-storage sweep

A session is cold when its metadata says that it is archived and was not
touched for some weeks. The sweep deletes what cold sessions leave behind: the
raw output of their runs, and what the agents keep of them – transcript
directories, rollout files, rows of an event store. An agent's record is known
by the id that the metadata of a session, or of one of its threads, refers to;
a record that no metadata refers to goes when it was idle for two days.

What cannot be read is not seen. A transcript directory carries its session in
its name, so a session whose metadata cannot be read keeps its transcripts; its
rollout and its rows are known by the metadata alone, and pass for unreferenced
(`deleted_unreadable`). **The sweep deletes nothing live exactly when no
metadata that cannot be read is all that keeps a record**, and in any case a
sweep of one session deletes part of what the whole sweep deletes, and a dry
run deletes nothing and reports what the sweep deletes (`safe_iff`).

Records are plain files and directories, and what is deleted can be deleted.
-/

/-! ## What is on the disk -/

/-- **A metadata file**: what it said when it was written, and whether that can still be
read. -/
structure MetaFile where
  content : Json
  readable : Bool := true

/-- A session's directory: its metadata, and that of its threads. -/
structure SessionDir where
  name : String
  metadata : MetaFile
  threads : List MetaFile := []

/-- A file, its size, and when it was last written. -/
structure RecordFile where
  name : String
  size : ℕ
  mtime : ℤ
  deriving DecidableEq

/-- A file of a directory that holds a session's runs. -/
structure TransportFile where
  session : String
  file : RecordFile
  deriving DecidableEq

structure TranscriptDir where
  name : String
  files : List RecordFile
  mtime : ℤ
  deriving DecidableEq

/-- The event store: the aggregates, their events with their sizes, and when the agent says
that a session was last touched, in milliseconds. -/
structure OpencodeDb where
  sequence : List String
  events : List (String × ℕ)
  updated : List (String × Option ℤ)
  /-- An aggregate has one row. -/
  nodup : sequence.Nodup

/-- **What a sweep sees.** -/
structure CoolStore where
  sessions : List SessionDir
  worktrees : List String := []
  transport : List TransportFile := []
  /-- The directories of the projects trees, tree after tree. -/
  transcripts : List TranscriptDir := []
  rollouts : List RecordFile := []
  opencode : OpencodeDb := ⟨[], [], [], List.nodup_nil⟩
  nodup : (sessions.map SessionDir.name).Nodup

/-- What a sweep is called with; times are in microseconds. -/
structure SweepEnv where
  now : ℤ
  minIdleDays : ℤ := 14
  /-- `parse_utc_datetime`, where it does not raise. -/
  parseUtcDatetime : String → Option ℤ
  worktreeDir : String := "/worktrees"

structure CategoryResult where
  count : ℕ := 0
  bytes : ℕ := 0
  deriving DecidableEq

structure SweepResult where
  rawTransport : CategoryResult
  claudeTranscripts : CategoryResult
  codexRollouts : CategoryResult
  opencodeEvents : CategoryResult
  deriving DecidableEq

namespace StorageCool

/-! ## The cold rule and what is referred to -/

def day : ℤ := 86400000000

def optionalStr (value : Json) : Option String :=
  if value.truthy then some value.toText else none

def isColdSession (env : SweepEnv) (metadata : Dict) : Bool :=
  if (metadata.get "status").toText ≠ "archived" then false
  else if !(metadata.get "updated_at").truthy then false
  else match env.parseUtcDatetime (metadata.get "updated_at").toText with
    | none => false
    | some updatedAt => decide (env.minIdleDays * day ≤ env.now - updatedAt)

end StorageCool

open StorageCool

namespace MetaFile

/-- `load_json_meta`. -/
def load (m : MetaFile) : Option Json :=
  match m.readable, m.content with
  | false, _ => none
  | true, .null => none
  | true, v => some v

/-- The id that metadata refers to. -/
def ccSessionId (v : Json) : Option String :=
  v.asDict.bind fun metadata => optionalStr (metadata.get "cc_session_id")

/-- **What the file refers to**, whether or not it can be read. -/
def refersTo (m : MetaFile) : Option String := ccSessionId m.content

/-- What a sweep can see of that. -/
def shows (m : MetaFile) : Option String := m.load.bind ccSessionId

end MetaFile

namespace SessionDir

/-- **A session refers to a record** by its own metadata, or by a thread's. -/
def RefersTo (s : SessionDir) (x : String) : Prop :=
  s.metadata.refersTo = some x ∨ ∃ t ∈ s.threads, t.refersTo = some x

/-- A session refers to a record, and that can be read. -/
def Shows (s : SessionDir) (x : String) : Prop :=
  s.metadata.shows = some x ∨ ∃ t ∈ s.threads, t.shows = some x

/-- **A session is cold** if its metadata can be read and says so. -/
def isCold (env : SweepEnv) (s : SessionDir) : Bool :=
  (s.metadata.load.bind Json.asDict).any (isColdSession env)

end SessionDir

namespace StorageCool

/-- What a sweep knows of a session. -/
structure SessionFacts where
  id : String
  cold : Bool
  ccSessionId : Option String
  deriving DecidableEq

/-- What the scan makes of a session's directory. -/
def sessionFacts (env : SweepEnv) (s : SessionDir) : Option SessionFacts :=
  (s.metadata.load.bind Json.asDict).map fun metadata =>
    ⟨s.name, isColdSession env metadata, optionalStr (metadata.get "cc_session_id")⟩

/-- `_scan_sessions`: metadata that is not an object raises. -/
def scanSessions (env : SweepEnv) (sessions : List SessionDir) : Option (List SessionFacts) :=
  if sessions.any fun s => s.metadata.load.any fun v => v.asDict.isNone then none
  else some (sessions.filterMap (sessionFacts env))

/-- `facts.get(name)`. -/
def factsOf (facts : List SessionFacts) (name : String) : Option SessionFacts :=
  facts.find? fun f => decide (f.id = name)

/-- Who a thread's reference is put down to: a session that is not known is not cold. -/
def ownerOf (facts : List SessionFacts) (name : String) : SessionFacts :=
  (factsOf facts name).getD ⟨name, false, none⟩

/-- `_scan_references`, as the pairs of an id and a session that refers to it. -/
def scanReferences (facts : List SessionFacts) (sessions : List SessionDir) :
    Option (List (String × SessionFacts)) :=
  if sessions.any fun s => s.threads.any fun t =>
      t.load.any fun v => v.truthy && v.asDict.isNone then none
  else some ((facts.filterMap fun f => f.ccSessionId.map fun x => (x, f))
    ++ sessions.flatMap fun s => s.threads.filterMap fun t =>
      t.shows.map fun x => (x, ownerOf facts s.name))

/-- `references.get(x)`. -/
def referencing (references : List (String × SessionFacts)) (x : String) : List SessionFacts :=
  (references.filter fun r => decide (r.1 = x)).map Prod.snd

def scopedBackendSessions (facts : List SessionFacts) (references : List (String × SessionFacts))
    (sessionId : String) : List String :=
  ((factsOf facts sessionId).bind SessionFacts.ccSessionId).toList
    ++ (references.filter fun r => decide (r.2.id = sessionId)).map Prod.fst

/-! ## What goes -/

/-- A record was idle for the window. -/
def idlePast (env : SweepEnv) (since : ℤ) : Bool := decide (2 * day ≤ env.now - since)

/-- **Whether a record goes that is known by its id**: a rollout, or an aggregate. -/
def recordGoes (facts : List SessionFacts) (references : List (String × SessionFacts))
    (sessionId : Option String) (idle : Bool) (x : String) : Bool :=
  let referencing := referencing references x
  match sessionId with
  | some sid => decide (x ∈ scopedBackendSessions facts references sid)
      && !referencing.isEmpty && referencing.all SessionFacts.cold
  | none => if referencing.isEmpty then idle else referencing.all SessionFacts.cold

/-- The five reserved names. -/
def rawTransportNames : List String :=
  ["agent.raw.ndjson", "agent.stderr.log", "agent.raw.cursor", "stdout.log", "stderr.log"]

def isTransportName (name : String) : Bool :=
  rawTransportNames.contains name || match Text.rpartition ['.'] name.toList with
    | none => false
    | some (base, suffix) => rawTransportNames.contains (String.ofList base)
        && !suffix.isEmpty && suffix.all Char.isDigit

def knownCold (facts : List SessionFacts) (name : String) : Bool :=
  (factsOf facts name).any SessionFacts.cold

/-- Whether a file of a run goes. -/
def transportGoes (facts : List SessionFacts) (t : TransportFile) : Bool :=
  knownCold facts t.session && isTransportName t.file.name

def claudeProjectDirName (cwd : String) : String :=
  String.ofList (cwd.toList.map fun c => if c = '/' ∨ c = '.' ∨ c = '_' then '-' else c)

def isHex (c : Char) : Bool :=
  c.isDigit || ('a' ≤ c && c ≤ 'f') || ('A' ≤ c && c ≤ 'F')

def sessionIdLength : ℕ := 36

/-- `_SESSION_ID_RE.fullmatch`. -/
def isSessionId (text : List Char) : Bool :=
  decide (text.length = sessionIdLength) && text.zipIdx.all fun p =>
    if p.2 ∈ [8, 13, 18, 23] then decide (p.1 = '-') else isHex p.1

def encodedSessionId (dirName : String) : Option String :=
  match Text.rpartition "-sessions-".toList dirName.toList with
  | none => none
  | some (_, tail) =>
    let id := tail.take sessionIdLength
    let rest := tail.drop sessionIdLength
    if isSessionId id && (rest.isEmpty || rest.head? == some '-') then some (String.ofList id)
    else none

def newestMtime (d : TranscriptDir) : ℤ :=
  match d.files with
  | [] => d.mtime
  | f :: fs => fs.foldl (fun newest f => max newest f.mtime) f.mtime

def liveWorktreeDirNames (store : CoolStore) : List String :=
  store.worktrees.map claudeProjectDirName

/-- **Whether a transcript directory goes.** -/
def transcriptGoes (env : SweepEnv) (store : CoolStore) (facts : List SessionFacts)
    (sessionId : Option String) (d : TranscriptDir) : Bool :=
  match encodedSessionId d.name with
  | some encoded =>
    match factsOf facts encoded with
    | some owner => owner.cold
    | none =>
      -- metadata that cannot be read does not prove that the session is gone
      if store.sessions.any fun s => decide (s.name = encoded) then false
      else sessionId.isNone && idlePast env (newestMtime d)
  | none =>
    sessionId.isNone
      && ((claudeProjectDirName env.worktreeDir).toList ++ ['-']).isPrefixOf d.name.toList
      && !(liveWorktreeDirNames store).contains d.name && idlePast env (newestMtime d)

/-- `codex_rollout_session_id`, of the files that are looked at. -/
def codexRolloutSessionId (name : String) : Option String :=
  if "rollout-".toList.isPrefixOf name.toList && ".jsonl".toList.isSuffixOf name.toList then
    let stem := name.toList.take (name.toList.length - 6)
    let pieces := Text.splitOnChar '-' stem
    let candidate := Text.join ['-'] (pieces.drop (pieces.length - 5))
    if isSessionId candidate then some (String.ofList candidate) else none
  else none

def rolloutGoes (env : SweepEnv) (facts : List SessionFacts)
    (references : List (String × SessionFacts)) (sessionId : Option String) (f : RecordFile) :
    Bool :=
  (codexRolloutSessionId f.name).any (recordGoes facts references sessionId (idlePast env f.mtime))

/-- Whether the agent was idle in a session, as far as it says. -/
def aggregateIdle (env : SweepEnv) (db : OpencodeDb) (x : String) : Bool :=
  (db.updated.lookup x).join.any fun ms => idlePast env (ms * 1000)

def aggregateBytes (db : OpencodeDb) (x : String) : ℕ :=
  ((db.events.filter fun e => decide (e.1 = x)).map Prod.snd).sum

/-- `_opencode_targets`: the aggregates that go, with the bytes of their events. -/
def opencodeTargets (env : SweepEnv) (facts : List SessionFacts)
    (references : List (String × SessionFacts)) (sessionId : Option String) (db : OpencodeDb) :
    List (String × ℕ) :=
  (db.sequence.filter fun x => recordGoes facts references sessionId (aggregateIdle env db x) x).map
    fun x => (x, aggregateBytes db x)

/-! ## The sweep -/

/-- `_Counter.add`. -/
def addSize (c : CategoryResult) (size : ℕ) : CategoryResult := ⟨c.count + 1, c.bytes + size⟩

/-- Deletes what goes, or accounts for it. -/
def sweepRecords {α : Type} (dryRun : Bool) (goes : α → Bool) (size : α → ℕ) :
    List α → List α × CategoryResult
  | [] => ([], {})
  | a :: rest =>
    let (left, c) := sweepRecords dryRun goes size rest
    if goes a then (if dryRun then a :: left else left, addSize c (size a)) else (a :: left, c)

def transcriptBytes (d : TranscriptDir) : ℕ := (d.files.map RecordFile.size).sum

/-- The store without one aggregate. -/
def deleteAggregate (db : OpencodeDb) (x : String) : OpencodeDb where
  sequence := db.sequence.filter fun y => decide (y ≠ x)
  events := db.events.filter fun e => decide (e.1 ≠ x)
  updated := db.updated
  nodup := db.nodup.filter _

/-- Deletes the aggregates that go, and counts the rows that were there. -/
def deleteAggregates : List (String × ℕ) → OpencodeDb → OpencodeDb × CategoryResult
  | [], db => (db, {})
  | (x, size) :: targets, db =>
    let (left, c) := deleteAggregates targets (deleteAggregate db x)
    (left, if x ∈ db.sequence then addSize c size else c)

def sweepOpencode (dryRun : Bool) (targets : List (String × ℕ)) (db : OpencodeDb) :
    OpencodeDb × CategoryResult :=
  if dryRun then (db, targets.foldr (fun t c => addSize c t.2) {}) else deleteAggregates targets db

/-- What a sweep judges by: the sessions in its scope, and the references of all. -/
def judge (env : SweepEnv) (sessionId : Option String) (store : CoolStore) :
    Option (List SessionFacts × List (String × SessionFacts)) := do
  let facts ← scanSessions env store.sessions
  let references ← scanReferences facts store.sessions
  match sessionId with
  | none => some (facts, references)
  | some sid =>
    let owner ← factsOf facts sid
    some (if owner.cold then [owner] else [], references)

/-- **`run_cool_sweep`**, up to the compaction of the store: what it leaves and what it
reports. -/
def runCoolSweep (env : SweepEnv) (dryRun : Bool) (sessionId : Option String) (store : CoolStore) :
    Option (CoolStore × SweepResult) :=
  (judge env sessionId store).map fun (facts, references) =>
    let transport := sweepRecords dryRun (transportGoes facts) (fun t => t.file.size)
      store.transport
    let transcripts := sweepRecords dryRun (transcriptGoes env store facts sessionId)
      transcriptBytes store.transcripts
    let rollouts := sweepRecords dryRun (rolloutGoes env facts references sessionId)
      RecordFile.size store.rollouts
    let opencode := sweepOpencode dryRun
      (opencodeTargets env facts references sessionId store.opencode) store.opencode
    ({ store with
        transport := transport.1, transcripts := transcripts.1
        rollouts := rollouts.1, opencode := opencode.1 },
      ⟨transport.2, transcripts.2, rollouts.2, opencode.2⟩)

/-! ## What a sweep owes -/

variable {env : SweepEnv} {store after : CoolStore}

/-- **A record may go** if all sessions that refer to it are cold, and if it was idle where
none does. -/
def Deletable (env : SweepEnv) (store : CoolStore) (refersTo : SessionDir → Prop) (idle : Bool) :
    Prop :=
  (∀ s ∈ store.sessions, refersTo s → s.isCold env = true) ∧
  ((∀ s ∈ store.sessions, ¬ refersTo s) → idle = true)

/-- **Nothing live is deleted.** A session that cannot be read is not cold, so it protects
what it refers to. -/
structure Protected (env : SweepEnv) (store after : CoolStore) : Prop where
  transport : ∀ t ∈ store.transport, t ∉ after.transport →
    ∃ s ∈ store.sessions, s.name = t.session ∧ s.isCold env = true
  transcripts : ∀ d ∈ store.transcripts, d ∉ after.transcripts →
    Deletable env store (fun s => encodedSessionId d.name = some s.name)
      (idlePast env (newestMtime d))
  rollouts : ∀ f ∈ store.rollouts, f ∉ after.rollouts → ∃ x, codexRolloutSessionId f.name = some x ∧
    Deletable env store (·.RefersTo x) (idlePast env f.mtime)
  aggregates : ∀ x ∈ store.opencode.sequence, x ∉ after.opencode.sequence →
    Deletable env store (·.RefersTo x) (aggregateIdle env store.opencode x)
  /-- An event goes with its aggregate. -/
  events : ∀ e ∈ store.opencode.events, e ∉ after.opencode.events →
    e.1 ∈ store.opencode.sequence ∧ e.1 ∉ after.opencode.sequence

/-- What one sweep leaves, another leaves too. -/
structure Keeps (after after' : CoolStore) : Prop where
  transport : after.transport ⊆ after'.transport
  transcripts : after.transcripts ⊆ after'.transcripts
  rollouts : after.rollouts ⊆ after'.rollouts
  aggregates : after.opencode.sequence ⊆ after'.opencode.sequence
  events : after.opencode.events ⊆ after'.opencode.events

/-- A category's result is what was there and is not any more. -/
def Counted {α : Type} (size : α → ℕ) (before after : List α) (c : CategoryResult) : Prop :=
  after.length + c.count = before.length ∧ (after.map size).sum + c.bytes = (before.map size).sum

/-- **A result tells what was deleted.** -/
structure Accounts (before after : CoolStore) (r : SweepResult) : Prop where
  transport : Counted (fun t => t.file.size) before.transport after.transport r.rawTransport
  transcripts : Counted transcriptBytes before.transcripts after.transcripts r.claudeTranscripts
  rollouts : Counted RecordFile.size before.rollouts after.rollouts r.codexRollouts
  aggregates : after.opencode.sequence.length + r.opencodeEvents.count
    = before.opencode.sequence.length
  events : (after.opencode.events.map Prod.snd).sum + r.opencodeEvents.bytes
    = (before.opencode.events.map Prod.snd).sum

/-- **A sweep of one session** leaves what the whole sweep leaves. -/
def Limited (env : SweepEnv) (store after : CoolStore) : Prop :=
  ∀ sid after' r, runCoolSweep env false (some sid) store = some (after', r) → Keeps after after'

/-- **A dry run** leaves everything, and reports what the sweep deletes. -/
def Rehearsed (env : SweepEnv) (store : CoolStore) : Prop :=
  ∀ sessionId, runCoolSweep env true sessionId store
      = (runCoolSweep env false sessionId store).map (fun r => (store, r.2)) ∧
    ∀ after r, runCoolSweep env false sessionId store = some (after, r) → Accounts store after r

/-- A record known by its id, and whether it was idle. -/
def Record (env : SweepEnv) (store : CoolStore) (x : String) (idle : Bool) : Prop :=
  (∃ f ∈ store.rollouts, codexRolloutSessionId f.name = some x ∧ idle = idlePast env f.mtime) ∨
  (x ∈ store.opencode.sequence ∧ idle = aggregateIdle env store.opencode x)

/-- **A record is exposed** that may go as far as metadata can be read, and that a session
refers to that is not cold. -/
def Exposed (env : SweepEnv) (store : CoolStore) : Prop :=
  ∃ x idle, Record env store x idle ∧ Deletable env store (·.Shows x) idle ∧
    ∃ s ∈ store.sessions, s.RefersTo x ∧ s.isCold env = false

/-! ## What is known of the sessions -/

theorem refersTo_of_shows {m : MetaFile} {x : String} (h : m.shows = some x) :
    m.refersTo = some x := by
  unfold MetaFile.shows MetaFile.load at h
  split at h
  · cases h
  · cases h
  · exact h

theorem RefersTo_of_Shows {s : SessionDir} {x : String} (h : s.Shows x) : s.RefersTo x := by
  rcases h with hown | ⟨t, ht, hthread⟩
  · exact .inl (refersTo_of_shows hown)
  · exact .inr ⟨t, ht, refersTo_of_shows hthread⟩

theorem sessionFacts_eq {s : SessionDir} {f : SessionFacts} (h : sessionFacts env s = some f) :
    f.id = s.name ∧ f.cold = s.isCold env ∧ f.ccSessionId = s.metadata.shows := by
  obtain ⟨metadata, hload, rfl⟩ := Option.map_eq_some_iff.mp h
  refine ⟨rfl, by rw [SessionDir.isCold, hload]; rfl, ?_⟩
  obtain ⟨v, hv, hdict⟩ := Option.bind_eq_some_iff.mp hload
  rw [MetaFile.shows, hv, Option.bind_some, MetaFile.ccSessionId, hdict]
  rfl

theorem isCold_of_sessionFacts_eq_none {s : SessionDir} (h : sessionFacts env s = none) :
    s.isCold env = false ∧ s.metadata.shows = none := by
  have hnone := Option.map_eq_none_iff.mp h
  refine ⟨by rw [SessionDir.isCold, hnone]; rfl, ?_⟩
  rw [MetaFile.shows]
  cases hload : s.metadata.load with
  | none => rfl
  | some v =>
    rw [hload, Option.bind_some] at hnone
    rw [Option.bind_some, MetaFile.ccSessionId, hnone]
    rfl

theorem factsOf_of_mem {sessions : List SessionDir} (hnodup : (sessions.map SessionDir.name).Nodup)
    {s : SessionDir} (hs : s ∈ sessions) :
    factsOf (sessions.filterMap (sessionFacts env)) s.name = sessionFacts env s := by
  induction sessions with
  | nil => cases hs
  | cons s₀ rest ih =>
    rw [List.map_cons, List.nodup_cons] at hnodup
    rcases List.mem_cons.mp hs with rfl | hrest
    · cases hfacts : sessionFacts env s with
      | none =>
        rw [List.filterMap_cons_none hfacts, factsOf, List.find?_eq_none]
        intro f hf hid
        obtain ⟨s', hs', hf'⟩ := List.mem_filterMap.mp hf
        refine hnodup.1 (List.mem_map.mpr ⟨s', hs', ?_⟩)
        rw [← (sessionFacts_eq hf').1]
        exact of_decide_eq_true hid
      | some f =>
        rw [List.filterMap_cons_some hfacts]
        exact List.find?_cons_of_pos (decide_eq_true (sessionFacts_eq hfacts).1)
    · have hne : s₀.name ≠ s.name := fun heq =>
        hnodup.1 (heq ▸ List.mem_map_of_mem hrest)
      rw [← ih hnodup.2 hrest]
      cases hfacts : sessionFacts env s₀ with
      | none => rw [List.filterMap_cons_none hfacts]
      | some f =>
        rw [List.filterMap_cons_some hfacts, factsOf, List.find?_cons_of_neg]
        · rfl
        · rw [(sessionFacts_eq hfacts).1]
          exact fun hid => hne (of_decide_eq_true hid)

theorem exists_of_factsOf {sessions : List SessionDir} {name : String} {f : SessionFacts}
    (h : factsOf (sessions.filterMap (sessionFacts env)) name = some f) :
    ∃ s ∈ sessions, s.name = name ∧ f.cold = s.isCold env := by
  obtain ⟨s, hs, hf⟩ := List.mem_filterMap.mp (List.mem_of_find?_eq_some h)
  have hid : f.id = name := of_decide_eq_true
    (List.find?_some (p := fun f : SessionFacts => decide (f.id = name)) h)
  exact ⟨s, hs, (sessionFacts_eq hf).1 ▸ hid, (sessionFacts_eq hf).2.1⟩

/-- **What a sweep judges by.** -/
structure Knows (env : SweepEnv) (store : CoolStore) (facts : List SessionFacts)
    (references : List (String × SessionFacts)) : Prop where
  facts_eq : facts = store.sessions.filterMap (sessionFacts env)
  references_eq : references = (facts.filterMap fun f => f.ccSessionId.map fun x => (x, f))
    ++ store.sessions.flatMap fun s => s.threads.filterMap fun t =>
      t.shows.map fun x => (x, ownerOf facts s.name)

theorem knows_of_judge {facts : List SessionFacts} {references : List (String × SessionFacts)}
    (h : judge env none store = some (facts, references)) : Knows env store facts references := by
  obtain ⟨facts', hfacts, h⟩ := Option.bind_eq_some_iff.mp h
  obtain ⟨references', hreferences, h⟩ := Option.bind_eq_some_iff.mp h
  cases h
  unfold scanSessions at hfacts
  unfold scanReferences at hreferences
  split at hfacts
  · cases hfacts
  · split at hreferences
    · cases hreferences
    · exact ⟨(Option.some.inj hfacts).symm, (Option.some.inj hreferences).symm⟩

section Knows

variable {facts : List SessionFacts} {references : List (String × SessionFacts)}
  (h : Knows env store facts references)
include h

theorem Knows.cold_ownerOf {s : SessionDir} (hs : s ∈ store.sessions) :
    (ownerOf facts s.name).cold = s.isCold env := by
  rw [ownerOf, h.facts_eq, factsOf_of_mem store.nodup hs]
  cases hfacts : sessionFacts env s with
  | none => exact (isCold_of_sessionFacts_eq_none hfacts).1.symm
  | some f => exact (sessionFacts_eq hfacts).2.1

/-- **The references of an id are the sessions that show it**, each as cold as it is. -/
theorem Knows.mem_referencing {x : String} {cold : Bool} :
    (∃ f ∈ referencing references x, f.cold = cold) ↔
      ∃ s ∈ store.sessions, s.Shows x ∧ s.isCold env = cold := by
  have hmem : ∀ f, f ∈ referencing references x ↔ (x, f) ∈ references := fun f => by
    simp [referencing]
  constructor
  · rintro ⟨f, hf, hcold⟩
    rw [hmem, h.references_eq, List.mem_append] at hf
    rcases hf with hown | hthread
    · obtain ⟨f', hf', hpair⟩ := List.mem_filterMap.mp hown
      obtain ⟨y, hy, heq⟩ := Option.map_eq_some_iff.mp hpair
      cases heq
      rw [h.facts_eq] at hf'
      obtain ⟨s, hs, hfacts⟩ := List.mem_filterMap.mp hf'
      obtain ⟨-, hscold, hshows⟩ := sessionFacts_eq hfacts
      exact ⟨s, hs, .inl (hshows ▸ hy), hscold ▸ hcold⟩
    · obtain ⟨s, hs, hpair⟩ := List.mem_flatMap.mp hthread
      obtain ⟨t, ht, hpair⟩ := List.mem_filterMap.mp hpair
      obtain ⟨y, hy, heq⟩ := Option.map_eq_some_iff.mp hpair
      cases heq
      exact ⟨s, hs, .inr ⟨t, ht, hy⟩, (h.cold_ownerOf hs).symm.trans hcold⟩
  · rintro ⟨s, hs, hown | ⟨t, ht, hthread⟩, hcold⟩
    · cases hfacts : sessionFacts env s with
      | none =>
        rw [(isCold_of_sessionFacts_eq_none hfacts).2] at hown
        cases hown
      | some f =>
        obtain ⟨-, hscold, hshows⟩ := sessionFacts_eq hfacts
        refine ⟨f, ?_, hscold.trans hcold⟩
        rw [hmem, h.references_eq, List.mem_append]
        refine .inl (List.mem_filterMap.mpr ⟨f, ?_, by rw [hshows, hown]; rfl⟩)
        rw [h.facts_eq]
        exact List.mem_filterMap.mpr ⟨s, hs, hfacts⟩
    · refine ⟨ownerOf facts s.name, ?_, (h.cold_ownerOf hs).trans hcold⟩
      rw [hmem, h.references_eq, List.mem_append]
      exact .inr (List.mem_flatMap.mpr ⟨s, hs, List.mem_filterMap.mpr
        ⟨t, ht, by rw [hthread]; rfl⟩⟩)

/-- **The whole sweep deletes a record as metadata shows it.** -/
theorem Knows.recordGoes_iff {x : String} {idle : Bool} :
    recordGoes facts references none idle x = true ↔ Deletable env store (·.Shows x) idle := by
  have hall : (referencing references x).all SessionFacts.cold = true ↔
      ∀ s ∈ store.sessions, s.Shows x → s.isCold env = true := by
    rw [List.all_eq_true]
    constructor
    · intro hcold s hs hshows
      by_contra hnot
      obtain ⟨f, hf, hfcold⟩ := h.mem_referencing.mpr ⟨s, hs, hshows, Bool.eq_false_iff.mpr hnot⟩
      rw [hcold f hf] at hfcold
      cases hfcold
    · intro hcold f hf
      by_contra hnot
      obtain ⟨s, hs, hshows, hscold⟩ := h.mem_referencing.mp ⟨f, hf, Bool.eq_false_iff.mpr hnot⟩
      rw [hcold s hs hshows] at hscold
      cases hscold
  have hnil : (referencing references x).isEmpty = true ↔ ∀ s ∈ store.sessions, ¬ s.Shows x := by
    rw [List.isEmpty_iff, List.eq_nil_iff_forall_not_mem]
    constructor
    · intro hnone s hs hshows
      obtain ⟨f, hf, -⟩ := h.mem_referencing.mpr ⟨s, hs, hshows, rfl⟩
      exact hnone f hf
    · intro hnone f hf
      obtain ⟨s, hs, hshows, -⟩ := h.mem_referencing.mp ⟨f, hf, rfl⟩
      exact hnone s hs hshows
  unfold recordGoes Deletable
  dsimp only
  by_cases hempty : (referencing references x).isEmpty = true
  · rw [if_pos hempty]
    have hnone := hnil.mp hempty
    exact ⟨fun hidle => ⟨fun s hs hshows => absurd hshows (hnone s hs), fun _ => hidle⟩,
      fun hdel => hdel.2 hnone⟩
  · rw [if_neg hempty, hall]
    exact ⟨fun hcold => ⟨hcold, fun hnone => absurd (hnil.mpr hnone) hempty⟩, And.left⟩

end Knows

/-! ## What is deleted and what is counted -/

section Records

variable {α : Type} {goes : α → Bool} {size : α → ℕ}

theorem sweepRecords_cons (dryRun : Bool) (a : α) (rest : List α) :
    sweepRecords dryRun goes size (a :: rest) =
      if goes a then (if dryRun then a :: (sweepRecords dryRun goes size rest).1
          else (sweepRecords dryRun goes size rest).1,
        addSize (sweepRecords dryRun goes size rest).2 (size a))
      else (a :: (sweepRecords dryRun goes size rest).1, (sweepRecords dryRun goes size rest).2) :=
  rfl

theorem mem_sweepRecords {records : List α} {a : α} :
    a ∈ (sweepRecords false goes size records).1 ↔ a ∈ records ∧ goes a = false := by
  induction records with
  | nil => exact ⟨fun h => (by cases h), fun h => (by cases h.1)⟩
  | cons b rest ih =>
    rw [sweepRecords_cons]
    by_cases hb : goes b = true
    · rw [if_pos hb, if_neg Bool.false_ne_true, ih, List.mem_cons]
      constructor
      · exact fun h => ⟨.inr h.1, h.2⟩
      · rintro ⟨rfl | hrest, hgoes⟩
        · cases hb.symm.trans hgoes
        · exact ⟨hrest, hgoes⟩
    · rw [if_neg hb, List.mem_cons, ih, List.mem_cons]
      constructor
      · rintro (rfl | h)
        · exact ⟨.inl rfl, Bool.eq_false_iff.mpr hb⟩
        · exact ⟨.inr h.1, h.2⟩
      · rintro ⟨rfl | hrest, hgoes⟩
        · exact .inl rfl
        · exact .inr ⟨hrest, hgoes⟩

theorem sweepRecords_dryRun (records : List α) : sweepRecords true goes size records
    = (records, (sweepRecords false goes size records).2) := by
  induction records with
  | nil => rfl
  | cons b rest ih =>
    rw [sweepRecords_cons, sweepRecords_cons, ih]
    split <;> rfl

theorem counted_sweepRecords (records : List α) : Counted size records
    (sweepRecords false goes size records).1 (sweepRecords false goes size records).2 := by
  induction records with
  | nil => exact ⟨rfl, rfl⟩
  | cons b rest ih =>
    obtain ⟨hlength, hbytes⟩ := ih
    rw [sweepRecords_cons]
    by_cases hb : goes b = true
    · rw [if_pos hb, if_neg Bool.false_ne_true]
      refine ⟨?_, ?_⟩
      · rw [List.length_cons, ← hlength]
        rfl
      · rw [List.map_cons, List.sum_cons, ← hbytes, addSize]
        dsimp only
        omega
    · rw [if_neg hb]
      refine ⟨?_, ?_⟩
      · rw [List.length_cons, List.length_cons, ← hlength]
        dsimp only
        omega
      · rw [List.map_cons, List.sum_cons, List.map_cons, List.sum_cons, ← hbytes]
        dsimp only
        omega

end Records

section Aggregates

variable {targets : List (String × ℕ)} {db : OpencodeDb}

theorem mem_sequence_deleteAggregates {x : String} :
    x ∈ (deleteAggregates targets db).1.sequence ↔ x ∈ db.sequence ∧ x ∉ targets.map Prod.fst := by
  induction targets generalizing db with
  | nil => simp [deleteAggregates]
  | cons t targets ih =>
    show x ∈ (deleteAggregates targets (deleteAggregate db t.1)).1.sequence ↔ _
    rw [ih, List.map_cons, List.mem_cons, not_or]
    show x ∈ db.sequence.filter _ ∧ _ ↔ _
    rw [List.mem_filter, decide_eq_true_eq, and_assoc]

theorem mem_events_deleteAggregates {e : String × ℕ} :
    e ∈ (deleteAggregates targets db).1.events ↔ e ∈ db.events ∧ e.1 ∉ targets.map Prod.fst := by
  induction targets generalizing db with
  | nil => simp [deleteAggregates]
  | cons t targets ih =>
    show e ∈ (deleteAggregates targets (deleteAggregate db t.1)).1.events ↔ _
    rw [ih, List.map_cons, List.mem_cons, not_or]
    show e ∈ db.events.filter _ ∧ _ ↔ _
    rw [List.mem_filter, decide_eq_true_eq, and_assoc]

theorem aggregateBytes_deleteAggregate {x y : String} (hne : y ≠ x) :
    aggregateBytes (deleteAggregate db x) y = aggregateBytes db y := by
  unfold aggregateBytes deleteAggregate
  dsimp only
  rw [List.filter_filter]
  congr 2
  refine List.filter_congr fun e _ => ?_
  by_cases he : e.1 = y
  · simp [he, hne]
  · simp [he]

theorem sum_events_deleteAggregate (db : OpencodeDb) (x : String) :
    ((deleteAggregate db x).events.map Prod.snd).sum + aggregateBytes db x
      = (db.events.map Prod.snd).sum := by
  unfold aggregateBytes deleteAggregate
  dsimp only
  induction db.events with
  | nil => rfl
  | cons e rest ih =>
    by_cases he : e.1 = x
    · simp only [he, ne_eq, not_true_eq_false, decide_false, Bool.false_eq_true,
        not_false_eq_true, List.filter_cons_of_neg, decide_true, List.filter_cons_of_pos,
        List.map_cons, List.sum_cons] at ih ⊢
      omega
    · simp only [he, ne_eq, not_false_eq_true, decide_true, List.filter_cons_of_pos,
        decide_false, Bool.false_eq_true, List.filter_cons_of_neg, List.map_cons,
        List.sum_cons] at ih ⊢
      omega

theorem length_sequence_deleteAggregate {x : String} (hx : x ∈ db.sequence) :
    (deleteAggregate db x).sequence.length + 1 = db.sequence.length := by
  have herase : (deleteAggregate db x).sequence = db.sequence.erase x := by
    rw [db.nodup.erase_eq_filter]
    refine List.filter_congr fun y _ => ?_
    by_cases hy : y = x
    · simp [hy]
    · simp [hy, bne_iff_ne]
  rw [herase, List.length_erase_of_mem hx]
  have := List.length_pos_of_mem hx
  omega

/-- **The result of the event store is what was there**, and what a rehearsal makes of it. -/
theorem deleteAggregates_spec (hnodup : (targets.map Prod.fst).Nodup)
    (hmem : ∀ t ∈ targets, t.1 ∈ db.sequence ∧ t.2 = aggregateBytes db t.1) :
    (deleteAggregates targets db).2 = targets.foldr (fun t c => addSize c t.2) {} ∧
    (deleteAggregates targets db).1.sequence.length + (deleteAggregates targets db).2.count
      = db.sequence.length ∧
    ((deleteAggregates targets db).1.events.map Prod.snd).sum
        + (deleteAggregates targets db).2.bytes
      = (db.events.map Prod.snd).sum := by
  induction targets generalizing db with
  | nil => exact ⟨rfl, rfl, rfl⟩
  | cons t targets ih =>
    obtain ⟨x, size⟩ := t
    rw [List.map_cons, List.nodup_cons] at hnodup
    obtain ⟨hx, hsize⟩ := hmem (x, size) List.mem_cons_self
    dsimp only at hx hsize
    have hrest : ∀ t ∈ targets, t.1 ∈ (deleteAggregate db x).sequence
        ∧ t.2 = aggregateBytes (deleteAggregate db x) t.1 := fun t ht => by
      obtain ⟨htmem, htsize⟩ := hmem t (List.mem_cons_of_mem _ ht)
      have hne : t.1 ≠ x := fun heq => hnodup.1 (List.mem_map.mpr ⟨t, ht, heq⟩)
      exact ⟨List.mem_filter.mpr ⟨htmem, decide_eq_true hne⟩,
        htsize.trans (aggregateBytes_deleteAggregate hne).symm⟩
    obtain ⟨hresult, hcount, hbytes⟩ := ih hnodup.2 hrest
    have hlength := length_sequence_deleteAggregate hx
    have hsum := sum_events_deleteAggregate db x
    unfold deleteAggregates
    dsimp only
    rw [if_pos hx]
    refine ⟨?_, ?_, ?_⟩
    · rw [hresult, List.foldr_cons]
    · show _ + (_ + 1) = _
      omega
    · show _ + (_ + size) = _
      omega

end Aggregates

/-! ## One sweep -/

/-- **What a sweep leaves**, by what it judges by. -/
structure Left (env : SweepEnv) (store : CoolStore) (sessionId : Option String)
    (facts : List SessionFacts) (references : List (String × SessionFacts)) (after : CoolStore) :
    Prop where
  transport : ∀ t, t ∈ after.transport ↔ t ∈ store.transport ∧ transportGoes facts t = false
  transcripts : ∀ d, d ∈ after.transcripts ↔
    d ∈ store.transcripts ∧ transcriptGoes env store facts sessionId d = false
  rollouts : ∀ f, f ∈ after.rollouts ↔
    f ∈ store.rollouts ∧ rolloutGoes env facts references sessionId f = false
  aggregates : ∀ x, x ∈ after.opencode.sequence ↔ x ∈ store.opencode.sequence ∧
    recordGoes facts references sessionId (aggregateIdle env store.opencode x) x = false
  events : ∀ e, e ∈ after.opencode.events ↔ e ∈ store.opencode.events ∧
    ¬ (e.1 ∈ store.opencode.sequence ∧
      recordGoes facts references sessionId (aggregateIdle env store.opencode e.1) e.1 = true)

section Targets

variable {facts : List SessionFacts} {references : List (String × SessionFacts)}
  {sessionId : Option String} {db : OpencodeDb}

theorem map_fst_opencodeTargets :
    (opencodeTargets env facts references sessionId db).map Prod.fst = db.sequence.filter fun x =>
      recordGoes facts references sessionId (aggregateIdle env db x) x := by
  unfold opencodeTargets
  rw [List.map_map]
  exact List.map_id _

variable (env facts references sessionId db) in
theorem opencodeTargets_spec :
    ((opencodeTargets env facts references sessionId db).map Prod.fst).Nodup ∧
    ∀ t ∈ opencodeTargets env facts references sessionId db,
      t.1 ∈ db.sequence ∧ t.2 = aggregateBytes db t.1 := by
  refine ⟨by rw [map_fst_opencodeTargets]; exact db.nodup.filter _, fun t ht => ?_⟩
  obtain ⟨x, hx, rfl⟩ := List.mem_map.mp ht
  exact ⟨List.mem_of_mem_filter hx, rfl⟩

end Targets

theorem left_of_run {sessionId : Option String} {r : SweepResult}
    (h : runCoolSweep env false sessionId store = some (after, r)) :
    ∃ facts references, judge env sessionId store = some (facts, references) ∧
      Left env store sessionId facts references after := by
  obtain ⟨⟨facts, references⟩, hjudge, heq⟩ := Option.map_eq_some_iff.mp h
  cases heq
  refine ⟨facts, references, hjudge, fun t => mem_sweepRecords, fun d => mem_sweepRecords,
    fun f => mem_sweepRecords, fun x => ?_, fun e => ?_⟩
  · show x ∈ (deleteAggregates _ store.opencode).1.sequence ↔ _
    rw [mem_sequence_deleteAggregates, map_fst_opencodeTargets, List.mem_filter, not_and,
      Bool.not_eq_true]
    exact and_congr_right fun hx => ⟨fun hgoes => hgoes hx, fun hgoes _ => hgoes⟩
  · show e ∈ (deleteAggregates _ store.opencode).1.events ↔ _
    rw [mem_events_deleteAggregates, map_fst_opencodeTargets, List.mem_filter]

/-- **A dry run deletes nothing and reports what the sweep deletes.** -/
theorem rehearsed : Rehearsed env store := by
  intro sessionId
  have hspec := fun (facts : List SessionFacts) (references : List (String × SessionFacts)) =>
    have htargets := opencodeTargets_spec env facts references sessionId store.opencode
    deleteAggregates_spec htargets.1 htargets.2
  refine ⟨?_, fun after r h => ?_⟩
  · unfold runCoolSweep
    rw [Option.map_map]
    refine congrArg (fun f => Option.map f (judge env sessionId store)) (funext fun p => ?_)
    obtain ⟨facts, references⟩ := p
    simp only [Function.comp_apply, sweepRecords_dryRun, sweepOpencode, if_true,
      Bool.false_eq_true, if_false, (hspec facts references).1]
  · obtain ⟨⟨facts, references⟩, -, heq⟩ := Option.map_eq_some_iff.mp h
    cases heq
    obtain ⟨-, hcount, hbytes⟩ := hspec facts references
    exact ⟨counted_sweepRecords _, counted_sweepRecords _, counted_sweepRecords _, hcount, hbytes⟩

/-- A sweep of one session knows that session, where it is cold, and judges it by all
references. -/
theorem judge_scoped {sid : String} {facts : List SessionFacts}
    {references : List (String × SessionFacts)}
    (h : judge env (some sid) store = some (facts, references)) :
    ∃ all, judge env none store = some (all, references) ∧
      ∀ name f, factsOf facts name = some f → factsOf all name = some f ∧ f.cold = true := by
  obtain ⟨all, hall, h⟩ := Option.bind_eq_some_iff.mp h
  obtain ⟨references', hreferences, h⟩ := Option.bind_eq_some_iff.mp h
  obtain ⟨owner, howner, h⟩ := Option.bind_eq_some_iff.mp h
  cases h
  refine ⟨all, ?_, fun name f hf => ?_⟩
  · show (scanSessions env store.sessions).bind _ = _
    rw [hall, Option.bind_some]
    show (scanReferences all store.sessions).bind _ = _
    rw [hreferences]
    rfl
  · have hid : owner.id = sid := of_decide_eq_true
      (List.find?_some (p := fun f : SessionFacts => decide (f.id = sid)) howner)
    by_cases hcold : owner.cold = true
    · rw [if_pos hcold] at hf
      have hname : f.id = name := of_decide_eq_true
        (List.find?_some (p := fun f : SessionFacts => decide (f.id = name)) hf)
      have hf' : f = owner := List.mem_singleton.mp (List.mem_of_find?_eq_some hf)
      subst hf'
      exact ⟨by rw [← hname, hid]; exact howner, hcold⟩
    · rw [if_neg hcold] at hf
      cases hf

/-- **A sweep of one session deletes part of what the whole sweep deletes.** -/
theorem limited {r : SweepResult} (h : runCoolSweep env false none store = some (after, r)) :
    Limited env store after := by
  intro sid after' r' h'
  obtain ⟨all, references, hjudge, hleft⟩ := left_of_run h
  obtain ⟨facts, references', hjudge', hleft'⟩ := left_of_run h'
  obtain ⟨all', hall, hfacts⟩ := judge_scoped hjudge'
  rw [hjudge] at hall
  cases hall
  have hrecord : ∀ idle x, recordGoes facts references (some sid) idle x = true →
      recordGoes all references none idle x = true := fun idle x hgoes => by
    unfold recordGoes at hgoes ⊢
    dsimp only at hgoes ⊢
    rw [Bool.and_eq_true, Bool.and_eq_true, Bool.not_eq_true'] at hgoes
    rw [if_neg (Bool.eq_false_iff.mp hgoes.1.2)]
    exact hgoes.2
  refine ⟨fun t ht => ?_, fun d hd => ?_, fun f hf => ?_, fun x hx => ?_, fun e he => ?_⟩
  · obtain ⟨hmem, hstays⟩ := (hleft.transport t).mp ht
    refine (hleft'.transport t).mpr ⟨hmem, Bool.eq_false_iff.mpr fun hgoes => ?_⟩
    refine Bool.eq_false_iff.mp hstays ?_
    unfold transportGoes knownCold at hgoes ⊢
    rw [Bool.and_eq_true, Option.any_eq_true] at hgoes ⊢
    obtain ⟨⟨f, hf, hcold⟩, hname⟩ := hgoes
    exact ⟨⟨f, (hfacts _ f hf).1, hcold⟩, hname⟩
  · obtain ⟨hmem, hstays⟩ := (hleft.transcripts d).mp hd
    refine (hleft'.transcripts d).mpr ⟨hmem, Bool.eq_false_iff.mpr fun hgoes => ?_⟩
    refine Bool.eq_false_iff.mp hstays ?_
    unfold transcriptGoes at hgoes ⊢
    split at hgoes
    · next encoded hencoded =>
      split at hgoes
      · next owner howner =>
        rw [(hfacts encoded owner howner).1]
        exact hgoes
      · split at hgoes <;> cases hgoes
    · cases hgoes
  · obtain ⟨hmem, hstays⟩ := (hleft.rollouts f).mp hf
    refine (hleft'.rollouts f).mpr ⟨hmem, Bool.eq_false_iff.mpr fun hgoes => ?_⟩
    refine Bool.eq_false_iff.mp hstays ?_
    unfold rolloutGoes at hgoes ⊢
    rw [Option.any_eq_true] at hgoes ⊢
    obtain ⟨x, hx, hgoes⟩ := hgoes
    exact ⟨x, hx, hrecord _ x hgoes⟩
  · obtain ⟨hmem, hstays⟩ := (hleft.aggregates x).mp hx
    exact (hleft'.aggregates x).mpr ⟨hmem, Bool.eq_false_iff.mpr fun hgoes =>
      Bool.eq_false_iff.mp hstays (hrecord _ x hgoes)⟩
  · obtain ⟨hmem, hstays⟩ := (hleft.events e).mp he
    exact (hleft'.events e).mpr ⟨hmem, fun hgoes => hstays ⟨hgoes.1, hrecord _ e.1 hgoes.2⟩⟩

theorem Knows.deletable_transcript {facts : List SessionFacts}
    {references : List (String × SessionFacts)} (h : Knows env store facts references)
    {d : TranscriptDir} (hgoes : transcriptGoes env store facts none d = true) :
    Deletable env store (fun s => encodedSessionId d.name = some s.name)
      (idlePast env (newestMtime d)) := by
  unfold transcriptGoes at hgoes
  cases hencoded : encodedSessionId d.name with
  | none =>
    rw [hencoded] at hgoes
    dsimp only at hgoes
    rw [Bool.and_eq_true] at hgoes
    exact ⟨fun s _ hs => (by cases hs), fun _ => hgoes.2⟩
  | some encoded =>
    rw [hencoded] at hgoes
    dsimp only at hgoes
    cases howner : factsOf facts encoded with
    | some owner =>
      rw [howner] at hgoes
      dsimp only at hgoes
      rw [h.facts_eq] at howner
      obtain ⟨s, hs, hname, hcold⟩ := exists_of_factsOf howner
      refine ⟨fun s' hs' heq => ?_, fun hnone => absurd (congrArg some hname.symm) (hnone s hs)⟩
      have hsame : s' = s := List.inj_on_of_nodup_map store.nodup hs' hs
        ((Option.some.inj heq).symm.trans hname.symm)
      rw [hsame, ← hcold]
      exact hgoes
    | none =>
      rw [howner] at hgoes
      dsimp only at hgoes
      by_cases hthere : (store.sessions.any fun s => decide (s.name = encoded)) = true
      · rw [if_pos hthere] at hgoes
        cases hgoes
      · rw [if_neg hthere, Bool.and_eq_true] at hgoes
        refine ⟨fun s hs heq => absurd ?_ hthere, fun _ => hgoes.2⟩
        exact List.any_eq_true.mpr ⟨s, hs, decide_eq_true (Option.some.inj heq).symm⟩

/-- **What metadata shows may go, may go**, unless it is exposed. -/
theorem deletable_of_shows {x : String} {idle : Bool} (hrecord : Record env store x idle)
    (hsafe : ¬ Exposed env store) (h : Deletable env store (·.Shows x) idle) :
    Deletable env store (·.RefersTo x) idle := by
  refine ⟨fun s hs hrefers => ?_, fun hnone => h.2 fun s hs hshows =>
    hnone s hs (RefersTo_of_Shows hshows)⟩
  by_contra hnot
  exact hsafe ⟨x, idle, hrecord, h, s, hs, hrefers, Bool.eq_false_iff.mpr hnot⟩

/-- **The sweep deletes nothing live, a sweep of one session deletes part of what it deletes,
and a dry run reports it, exactly when no record is exposed.** -/
theorem safe_iff {r : SweepResult} (h : runCoolSweep env false none store = some (after, r)) :
    Protected env store after ∧ Limited env store after ∧ Rehearsed env store ↔
      ¬ Exposed env store := by
  obtain ⟨facts, references, hjudge, hleft⟩ := left_of_run h
  have hknows := knows_of_judge hjudge
  constructor
  · rintro ⟨hprotected, -, -⟩ ⟨x, idle, hrecord, hshows, s, hs, hrefers, hlive⟩
    have hgoes : recordGoes facts references none idle x = true := hknows.recordGoes_iff.mpr hshows
    have hcold : ∀ idle, Deletable env store (·.RefersTo x) idle → False := fun idle hdel => by
      rw [hdel.1 s hs hrefers] at hlive
      cases hlive
    rcases hrecord with ⟨f, hf, hid, rfl⟩ | ⟨hx, rfl⟩
    · have hgone : f ∉ after.rollouts := fun hstays => by
        have := ((hleft.rollouts f).mp hstays).2
        rw [rolloutGoes, hid, Option.any_some, hgoes] at this
        cases this
      obtain ⟨y, hy, hdel⟩ := hprotected.rollouts f hf hgone
      rw [hid] at hy
      cases hy
      exact hcold _ hdel
    · have hgone : x ∉ after.opencode.sequence := fun hstays => by
        have := ((hleft.aggregates x).mp hstays).2
        rw [hgoes] at this
        cases this
      exact hcold _ (hprotected.aggregates x hx hgone)
  · intro hsafe
    refine ⟨⟨fun t ht hgone => ?_, fun d hd hgone => ?_, fun f hf hgone => ?_, fun x hx hgone => ?_,
      fun e he hgone => ?_⟩, limited h, rehearsed⟩
    · have hgoes : transportGoes facts t = true := by
        by_contra hnot
        exact hgone ((hleft.transport t).mpr ⟨ht, Bool.eq_false_iff.mpr hnot⟩)
      rw [transportGoes, Bool.and_eq_true, knownCold, Option.any_eq_true] at hgoes
      obtain ⟨⟨f, hf, hcold⟩, -⟩ := hgoes
      rw [hknows.facts_eq] at hf
      obtain ⟨s, hs, hname, hscold⟩ := exists_of_factsOf hf
      exact ⟨s, hs, hname, hscold ▸ hcold⟩
    · refine hknows.deletable_transcript ?_
      by_contra hnot
      exact hgone ((hleft.transcripts d).mpr ⟨hd, Bool.eq_false_iff.mpr hnot⟩)
    · have hgoes : rolloutGoes env facts references none f = true := by
        by_contra hnot
        exact hgone ((hleft.rollouts f).mpr ⟨hf, Bool.eq_false_iff.mpr hnot⟩)
      rw [rolloutGoes, Option.any_eq_true] at hgoes
      obtain ⟨x, hx, hgoes⟩ := hgoes
      exact ⟨x, hx, deletable_of_shows (.inl ⟨f, hf, hx, rfl⟩) hsafe
        (hknows.recordGoes_iff.mp hgoes)⟩
    · refine deletable_of_shows (.inr ⟨hx, rfl⟩) hsafe (hknows.recordGoes_iff.mp ?_)
      by_contra hnot
      exact hgone ((hleft.aggregates x).mpr ⟨hx, Bool.eq_false_iff.mpr hnot⟩)
    · have hgoes := not_not.mp fun hnot => hgone ((hleft.events e).mpr ⟨he, hnot⟩)
      refine ⟨hgoes.1, fun hstays => ?_⟩
      have := ((hleft.aggregates e.1).mp hstays).2
      rw [hgoes.2] at this
      cases this

/-- Thirty days after the beginning of time, which every text stands for. -/
def exampleEnv : SweepEnv where
  now := 30 * day
  parseUtcDatetime := fun _ => some 0

/-- The rollout of an agent that was last heard of three days ago. -/
def exampleRollout : RecordFile where
  name := "rollout-2026-08-01T00-00-00-01234567-89ab-cdef-0123-456789abcdef.jsonl"
  size := 7
  mtime := 27 * day

def exampleMetadata (status : String) : Json :=
  .obj [("status", .str status), ("updated_at", .str "2026-07-01T00:00:00Z"),
    ("cc_session_id", .str "01234567-89ab-cdef-0123-456789abcdef")]

/-- A store with one session and its rollout. -/
def exampleStore (status : String) (readable : Bool) : CoolStore where
  sessions := [{ name := "s", metadata := { content := exampleMetadata status, readable } }]
  rollouts := [exampleRollout]
  nodup := List.nodup_singleton _

/-- A session that is cold and can be read. -/
theorem safe_iff_cold : ∃ after r,
    runCoolSweep exampleEnv false none (exampleStore "archived" true) = some (after, r)
      ∧ after.rollouts = [] ∧ Protected exampleEnv (exampleStore "archived" true) after := by
  have hrun : (runCoolSweep exampleEnv false none (exampleStore "archived" true)).map
      (fun p => p.1.rollouts) = some [] := by decide +kernel
  obtain ⟨⟨after, r⟩, h, hrollouts⟩ := Option.map_eq_some_iff.mp hrun
  have hcold : ∀ s ∈ (exampleStore "archived" true).sessions, s.isCold exampleEnv = true := by
    decide +kernel
  refine ⟨after, r, h, hrollouts, ((safe_iff h).mpr ?_).1⟩
  rintro ⟨x, idle, -, -, s, hs, -, hlive⟩
  rw [hcold s hs] at hlive
  cases hlive

/-- **The rollout of an active session goes** when its metadata cannot be read. -/
theorem deleted_unreadable : ∃ after r,
    runCoolSweep exampleEnv false none (exampleStore "active" false) = some (after, r)
      ∧ after.rollouts = [] ∧ ¬ Protected exampleEnv (exampleStore "active" false) after := by
  have hrun : (runCoolSweep exampleEnv false none (exampleStore "active" false)).map
      (fun p => p.1.rollouts) = some [] := by decide +kernel
  obtain ⟨⟨after, r⟩, h, hrollouts⟩ := Option.map_eq_some_iff.mp hrun
  refine ⟨after, r, h, hrollouts, fun hprotected => ?_⟩
  have hgone : exampleRollout ∉ after.rollouts := by
    rw [show after.rollouts = [] from hrollouts]
    exact List.not_mem_nil
  obtain ⟨x, hx, hdel⟩ := hprotected.rollouts exampleRollout List.mem_cons_self hgone
  have hid : codexRolloutSessionId exampleRollout.name
      = some "01234567-89ab-cdef-0123-456789abcdef" := by decide +kernel
  rw [hid] at hx
  cases hx
  have hcold := hdel.1 _ List.mem_cons_self (.inl (by decide +kernel))
  revert hcold
  decide +kernel

end StorageCool
