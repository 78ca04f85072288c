import CharlieBot.CronReload
import Mathlib.Data.List.AList

/-!
# Edits of the scheduled tasks

The file of a task is written by the cron editor, by the switch of its session's backend, which is
the same routine, and by the succession of its session, which sets the backend only. Each reads the
whole file, changes some fields and writes the whole file back, with other steps between; a
creation writes a file that was not there, and a deletion unlinks it. None of them takes a lock.

So an update that is overtaken by another takes its fields back (`update_lost`), and one that is
overtaken by a deletion brings the file back. The session is moved to another backend before the
file is written, so an update that fails in between has moved it.

**Along every run in which a file is written while what the writer read is still what it holds,
and what it checked of the other tasks still passes, and in which no update fails behind its first
change**, every field has the value of the last update of it, no deleted file comes back, there is
one enabled master task of a project at most, and an update that fails has changed nothing
(`edits_right_of_run`).
-/

namespace CronEdits

open CronReload (Body without)

/-! ## Files -/

/-- What is in the file of a task. -/
inductive Content where
  | empty
  /-- It is no mapping, or cannot be parsed. -/
  | garbled
  | body (fields : Body)

/-- The files by the name of their task. -/
abbrev Files := AList fun _ : String => Content

/-- What is made of a file's fields. -/
structure Loader where
  /-- `_validate_cron_body` accepts them. -/
  valid : String → Body → Bool
  /-- They hold a name or a prompt of their own, which `_load_cron_file` refuses. -/
  inline : Body → Bool
  /-- `enabled`, where it has a default. -/
  enabled : Option Yaml → Bool
  /-- The backend of `scheduled_task_session_binding`. -/
  backend : Body → String

/-- `_load_cron_file` accepts them. -/
def Loader.load (loader : Loader) (name : String) (fields : Body) : Bool :=
  !loader.inline fields && loader.valid name fields

def isMaster (fields : Body) : Bool := (Yaml.get fields "mode").any (·.isText "master")

def project (fields : Body) : Option String :=
  match Yaml.get fields "project" with
  | some (.str project) => some project
  | _ => none

def Loader.isEnabled (loader : Loader) (fields : Body) : Bool :=
  loader.enabled (Yaml.get fields "enabled")

/-- `_check_master_project_unique`, for a master task: another task, enabled or not, is one of the
same project. -/
def conflict (loader : Loader) (files : Files) (name : String) (fields : Body) : Bool :=
  files.entries.any fun entry => match entry.2 with
    | .body other => entry.1 ≠ name && loader.load entry.1 other && isMaster other
      && project other = project fields
    | _ => false

/-! ## Updates -/

/-- `TaskUpdate`; a backend that is given may be empty. -/
structure TaskUpdate where
  cron : Option String := none
  promptFile : Option String := none
  repo : Option String := none
  backend : Option (Option String) := none
  timezone : Option String := none
  enabled : Option Bool := none
  project : Option String := none
  allowFailure : Option Bool := none

/-- What a field becomes; nothing where it is taken out. -/
abbrev Assignment := String × Option Yaml

/-- `value or None`. -/
def orNull (value : String) : Yaml := if value = "" then .null else .str value

/-- The fields that an update sets. -/
def TaskUpdate.assignments (req : TaskUpdate) : List Assignment :=
  (req.cron.map fun v => ("cron", some (.str v))).toList
    ++ (req.promptFile.map fun v => ("prompt_file", some (.str v))).toList
    ++ (req.repo.map fun v => ("repo", some (orNull v))).toList
    ++ (req.backend.map fun v => ("backend", (v.filter (· ≠ "")).map .str)).toList
    ++ (req.timezone.map fun v => ("timezone", some (.str v))).toList
    ++ (req.enabled.map fun v => ("enabled", some (.bool v))).toList
    ++ (req.project.map fun v => ("project", some (orNull v))).toList
    ++ (req.allowFailure.map fun v => ("allow_failure", some (.bool v))).toList

/-- One field is set, or taken out. -/
def assign (fields : Body) (a : Assignment) : Body :=
  match a.2 with
  | some value => Yaml.set fields a.1 value
  | none => without fields a.1

def applyTaskUpdate (task : Body) (req : TaskUpdate) : Body := req.assignments.foldl assign task

/-! ## Operations -/

structure Session where
  id : ℕ
  backend : String
  deriving DecidableEq

/-- Where an update is; `raw` is what it read, nothing where it took an empty mapping for it. -/
inductive Phase where
  /-- `_load_cron_file`. -/
  | loading
  /-- `_read_cron_yaml`. -/
  | reading
  /-- `_validate_cron_body`. -/
  | validating (raw : Option Body)
  /-- The sessions of the task are listed. -/
  | ensuring (raw : Option Body)
  /-- Whether the session is busy is looked up. -/
  | asking (raw : Option Body) (old : Session)
  | archiving (raw : Option Body) (old : Session)
  /-- A session is created; one may have been archived for it. -/
  | creating (raw : Option Body) (changed : Bool)
  /-- `_write_cron_yaml`; a session may have been created. -/
  | writing (raw : Option Body) (changed : Bool)

/-- The sessions of the task were changed. -/
def Phase.changed : Phase → Bool
  | .creating _ changed | .writing _ changed => changed
  | _ => false

/-- An operation in progress. -/
inductive Op where
  /-- `apply_task_yaml_update`. -/
  | update (name : String) (req : TaskUpdate) (phase : Phase)
  /-- `create_cron_task`: its body, and whether it was validated. -/
  | create (name : String) (fields : Body) (validated : Bool)
  /-- `delete_cron_task`. -/
  | delete (name : String)
  /-- `_elone_scheduled_successor`: the session that was spawned, and what
  `write_scheduled_task_backend` has read. -/
  | elone (name backend : String) (successor : ℕ) (read : Option Body)

/-- What an operation is about to write, and where. -/
def Op.writes : Op → Option (String × Body)
  | .update name req (.writing raw _) => some (name, applyTaskUpdate (raw.getD []) req)
  | .create name fields true => some (name, fields)
  | .elone name backend _ (some fields) => some (name, Yaml.set fields "backend" (.str backend))
  | _ => none

/-- The fields that an operation sets for good. -/
def Op.assignments : Op → List Assignment
  | .update _ req _ => req.assignments
  | .elone _ backend _ _ => [("backend", some (.str backend))]
  | _ => []

/-- **The tasks, their sessions, and what is done to them.** -/
structure CronState where
  files : Files
  /-- The active sessions of a task, the newest first. -/
  active : String → List Session
  ops : ℕ → Option Op := fun _ => none
  /-- What the updates that are through have set. -/
  owed : String → String → Option (Option Yaml) := fun _ _ => none
  /-- The tasks that were deleted, and not created since. -/
  deleted : String → Bool := fun _ => false
  /-- The updates that failed: whether they had changed something. -/
  failures : List Bool := []

inductive CronAction where
  /-- The file is looked for, and the backend checked. -/
  | startUpdate (id : ℕ) (name : String) (req : TaskUpdate) (backendKnown : Bool)
  /-- `_load_cron_file`; in the middle of another's write the file is empty. -/
  | load (id : ℕ) (torn : Option ℕ)
  /-- `_read_cron_yaml`; in the middle of another's write the file is empty. -/
  | read (id : ℕ) (torn : Option ℕ)
  /-- The candidate is validated, and checked against the other tasks. -/
  | validate (id : ℕ)
  /-- The sessions of the task are listed. -/
  | list (id : ℕ)
  | ask (id : ℕ) (busy : Bool)
  | archive (id : ℕ)
  | createSession (id sid : ℕ)
  | startCreate (id : ℕ) (name : String) (fields : Body)
  | validateCreate (id : ℕ)
  | startDelete (id : ℕ) (name : String)
  /-- A session of the task is archived. -/
  | archiveOne (id sid : ℕ)
  | unlink (id : ℕ)
  /-- The successor of the task's session is spawned. -/
  | startElone (id : ℕ) (name backend : String) (sid : ℕ)
  | readElone (id : ℕ) (torn : Option ℕ)
  /-- The file is written; together with another's write it may hold anything. -/
  | write (id : ℕ) (mixed : Option (ℕ × Content))
  /-- An operation fails before it writes. -/
  | fail (id : ℕ)
  /-- A write fails, and leaves part of a file. -/
  | failWrite (id : ℕ) (content : Content)
  /-- Sessions come and go. -/
  | sessions (active : String → List Session)

namespace CronState

variable (loader : Loader)

def archiveSession (s : CronState) (name : String) (sid : ℕ) : CronState :=
  { s with active := Function.update s.active name ((s.active name).filter (·.id ≠ sid)) }

/-- A session of a task is created. -/
def addSession (s : CronState) (name : String) (session : Session) : CronState :=
  { s with active := Function.update s.active name (session :: s.active name) }

def goto (s : CronState) (id : ℕ) (op : Op) : CronState :=
  { s with ops := Function.update s.ops id (some op) }

def drop (s : CronState) (id : ℕ) : CronState := { s with ops := Function.update s.ops id none }

/-- An update fails, and may have changed something. -/
def reject (s : CronState) (id : ℕ) (changed : Bool) : CronState :=
  { s.drop id with failures := s.failures ++ [changed] }

/-- An operation of another is writing the file. -/
def writtenBy (s : CronState) (id other : ℕ) (name : String) : Bool :=
  other ≠ id && ((s.ops other).bind Op.writes).any fun write => write.1 = name

/-- What is read of a file: it may be in the middle of a write. -/
def seen (s : CronState) (id : ℕ) (name : String) (torn : Option ℕ) : Option (Option Content) :=
  match torn with
  | none => some (s.files.lookup name)
  | some other => if s.writtenBy id other name then some (some .empty) else none

/-- A file is written, and its operation is over. -/
def land (s : CronState) (id : ℕ) (op : Op) (name : String) (content : Content) : CronState :=
  { s.drop id with
    files := s.files.insert name content
    owed := Function.update s.owed name
      (op.assignments.foldl (fun owed a => Function.update owed a.1 (some a.2)) (s.owed name))
    deleted := match op with
      | .create .. => Function.update s.deleted name false
      | _ => s.deleted }

/-- An operation fails before it writes: a succession takes its session back. -/
def failOp (s : CronState) (id : ℕ) : Op → CronState
  | .update _ _ phase => s.reject id phase.changed
  | .elone name _ successor _ => (s.drop id).archiveSession name successor
  | _ => s.drop id

def stepUpdate (s : CronState) (id : ℕ) (name : String) (req : TaskUpdate) (phase : Phase) :
    CronAction → Option CronState
  | .load _ torn =>
    match phase, s.seen id name torn with
    | .loading, some content =>
      match content with
      | some (.body fields) =>
        if loader.load name fields then some (s.goto id (.update name req .reading))
        else some (s.reject id false)
      | _ => some (s.reject id false)
    | _, _ => none
  | .read _ torn =>
    match phase, s.seen id name torn with
    | .reading, some content =>
      match content with
      | some (.body fields) => some (s.goto id (.update name req (.validating (some fields))))
      | some .garbled => some (s.reject id false)
      | _ => some (s.goto id (.update name req (.validating none)))
    | _, _ => none
  | .validate _ =>
    match phase with
    | .validating raw =>
      let candidate := applyTaskUpdate (raw.getD []) req
      if !loader.valid name candidate then some (s.reject id false)
      else if loader.isEnabled candidate && isMaster candidate
          && conflict loader s.files name candidate then some (s.reject id false)
      else if req.backend.isSome then some (s.goto id (.update name req (.ensuring raw)))
      else some (s.goto id (.update name req (.writing raw false)))
    | _ => none
  | .list _ =>
    match phase with
    | .ensuring raw =>
      let backend := loader.backend (applyTaskUpdate (raw.getD []) req)
      if (s.active name).any (·.backend = backend) then
        some (s.goto id (.update name req (.writing raw false)))
      else match (s.active name).head? with
        | some old => some (s.goto id (.update name req (.asking raw old)))
        | none => some (s.goto id (.update name req (.creating raw false)))
    | _ => none
  | .ask _ busy =>
    match phase with
    | .asking raw old =>
      if busy then some (s.reject id false)
      else some (s.goto id (.update name req (.archiving raw old)))
    | _ => none
  | .archive _ =>
    match phase with
    | .archiving raw old =>
      some ((s.goto id (.update name req (.creating raw true))).archiveSession name old.id)
    | _ => none
  | .createSession _ sid =>
    match phase with
    | .creating raw _ =>
      let backend := loader.backend (applyTaskUpdate (raw.getD []) req)
      some ((s.goto id (.update name req (.writing raw true))).addSession name ⟨sid, backend⟩)
    | _ => none
  | _ => none

def ofUpdate (s : CronState) (id : ℕ) (a : CronAction) : Option CronState :=
  match s.ops id with
  | some (.update name req phase) => s.stepUpdate loader id name req phase a
  | _ => none

def start (s : CronState) (id : ℕ) (op : Op) : Option CronState :=
  match s.ops id with
  | none => some (s.goto id op)
  | some _ => none

/-- **One step.** -/
def step (s : CronState) (a : CronAction) : Option CronState :=
  match a with
  | .startUpdate id name req backendKnown =>
    if (s.files.lookup name).isSome && backendKnown then s.start id (.update name req .loading)
    else some { s with failures := s.failures ++ [false] }
  | .load id _ | .read id _ | .validate id | .list id | .ask id _ | .archive id
  | .createSession id _ => s.ofUpdate loader id a
  | .startCreate id name fields =>
    if isMaster fields && conflict loader s.files name fields then none
    else if (s.files.lookup name).isSome then none
    else s.start id (.create name fields false)
  | .validateCreate id =>
    match s.ops id with
    | some (.create name fields false) =>
      if loader.valid name fields then some (s.goto id (.create name fields true))
      else some (s.drop id)
    | _ => none
  | .startDelete id name =>
    if (s.files.lookup name).isSome then s.start id (.delete name) else none
  | .archiveOne id sid =>
    match s.ops id with
    | some (.delete name) => some (s.archiveSession name sid)
    | _ => none
  | .unlink id =>
    match s.ops id with
    | some (.delete name) =>
      if (s.files.lookup name).isSome then
        some { s.drop id with
          files := s.files.erase name
          owed := Function.update s.owed name fun _ => none
          deleted := Function.update s.deleted name true }
      else some (s.drop id)
    | _ => none
  | .startElone id name backend sid =>
    (s.start id (.elone name backend sid none)).map (·.addSession name ⟨sid, backend⟩)
  | .readElone id torn =>
    match s.ops id with
    | some (.elone name backend sid none) =>
      match s.seen id name torn with
      | some (some (.body fields)) => some (s.goto id (.elone name backend sid (some fields)))
      | some _ => some (s.failOp id (.elone name backend sid none))
      | none => none
    | _ => none
  | .write id mixed =>
    match s.ops id with
    | some op =>
      match op.writes, mixed with
      | some (name, fields), none => some (s.land id op name (.body fields))
      | some (name, _), some (other, content) =>
        if s.writtenBy id other name then some (s.land id op name content) else none
      | none, _ => none
    | none => none
  | .fail id => (s.ops id).map (s.failOp id)
  | .failWrite id content =>
    match s.ops id with
    | some op =>
      match op.writes with
      | some (name, _) => some { s.failOp id op with
          files := s.files.insert name content
          failures := s.failures ++ match op with
            | .update .. => [true]
            | _ => [] }
      | none => none
    | none => none
  | .sessions active => some { s with active := active }

/-- **The editors of the tasks, step by step.** -/
def system : TransitionSystem CronState CronAction := ⟨step loader⟩

/-! ## What is to hold -/

/-- A name's file is an enabled master task of a project. -/
def EnabledMaster (files : Files) (name : String) (of : Option String) : Prop :=
  ∃ fields, files.lookup name = some (.body fields) ∧ loader.load name fields = true
    ∧ loader.isEnabled fields = true ∧ isMaster fields = true ∧ project fields = of

/-- There is one enabled master task of a project at most. -/
def Unique (files : Files) : Prop :=
  ∀ name other of, EnabledMaster loader files name of → EnabledMaster loader files other of →
    name = other

/-- A file's fields are as they are owed. -/
def Shows (owed : String → Option (Option Yaml)) (fields : Body) : Prop :=
  ∀ key value, owed key = some value → Yaml.get fields key = value

/-- **What is to hold of the tasks.** -/
structure Right (s : CronState) : Prop where
  /-- What an update has set is in the file. -/
  kept : ∀ name key value, s.owed name key = some value →
    ∃ fields, s.files.lookup name = some (.body fields) ∧ Yaml.get fields key = value
  gone : ∀ name, s.deleted name = true → s.files.lookup name = none
  unique : Unique loader s.files
  /-- An update that failed has changed nothing. -/
  unchanged : ∀ changed ∈ s.failures, changed = false

/-- **What is asked of a step.** A write lands alone, on the file that its writer read or, for a
creation, on none, and the check against the other tasks that it was let through by still passes;
what sets the backend only has read a file that loads. An update fails before it has changed
something, and no write fails halfway. -/
def Meets (s : CronState) : CronAction → Prop
  | .write id mixed => mixed = none ∧ match s.ops id with
    | some (.update name req (.writing raw _)) => ∃ fields, raw = some fields
      ∧ s.files.lookup name = some (.body fields)
      ∧ (loader.isEnabled (applyTaskUpdate fields req) = true →
        isMaster (applyTaskUpdate fields req) = true →
          conflict loader s.files name (applyTaskUpdate fields req) = false)
    | some (.create name fields true) => s.files.lookup name = none
      ∧ (isMaster fields = true → conflict loader s.files name fields = false)
    | some (.elone name _ _ (some fields)) => s.files.lookup name = some (.body fields)
      ∧ loader.load name fields = true
    | _ => True
  | .fail id => match s.ops id with
    | some (.update _ _ phase) => phase.changed = false
    | _ => True
  | .failWrite _ _ => False
  | _ => True

end CronState

/-! ## Fields and tasks -/

theorem get_without (fields : Body) (key other : String) :
    Yaml.get (without fields key) other = if other = key then none else Yaml.get fields other := by
  unfold Yaml.get without
  split
  · next heq =>
    rw [heq, Option.map_eq_none_iff, List.find?_eq_none]
    intro field hmem htext
    simp only [List.mem_filter, htext, Bool.not_true, Bool.false_eq_true, and_false] at hmem
  · next hne =>
    rw [List.find?_filter]
    refine congrArg (fun test => (fields.find? test).map Prod.snd) (funext fun field => ?_)
    cases htext : field.1.isText other with
    | true => rw [Yaml.isText_eq_false htext (Ne.symm hne)]; rfl
    | false => simp only [Bool.false_eq_true, and_false, decide_false]

theorem get_assign (fields : Body) (a : Assignment) (key : String) :
    Yaml.get (assign fields a) key = if key = a.1 then a.2 else Yaml.get fields key := by
  unfold assign
  cases hvalue : a.2 with
  | some value =>
    show Yaml.get (Yaml.set fields a.1 value) key = _
    split
    · next heq => rw [heq, Yaml.get_set_self]
    · next hne => exact Yaml.get_set_of_ne _ _ hne
  | none => exact get_without fields a.1 key

theorem conflict_eq_false_iff (loader : Loader) (files : Files) (name : String) (fields : Body) :
    conflict loader files name fields = false ↔ ∀ other body,
      files.lookup other = some (.body body) → loader.load other body = true →
        isMaster body = true → project body = project fields → other = name := by
  unfold conflict
  rw [List.any_eq_false]
  refine ⟨fun h other body hlookup hload hmaster hproject => ?_, fun h entry hmem hany => ?_⟩
  · by_contra hne
    refine h ⟨other, .body body⟩ (AList.mem_lookup_iff.mp hlookup) ?_
    simp only [hload, hmaster, hproject, hne, ne_eq, not_false_eq_true, decide_true, Bool.and_self]
  · obtain ⟨other, content⟩ := entry
    cases content with
    | body body =>
      simp only [Bool.and_eq_true, decide_eq_true_eq] at hany
      obtain ⟨⟨⟨hne, hload⟩, hmaster⟩, hproject⟩ := hany
      exact hne (h other body (AList.mem_lookup_iff.mpr hmem) hload hmaster hproject)
    | empty => cases hany
    | garbled => cases hany

namespace CronState

variable {loader : Loader} {s t : CronState} {id : ℕ} {name other : String} {fields : Body}

/-! ## What a write makes of the files -/

/-- **A field that is set is as it is owed**, and so are the others. -/
theorem Shows.assign {owed : String → Option (Option Yaml)} (h : Shows owed fields)
    (a : Assignment) :
    Shows (Function.update owed a.1 (some a.2)) (CronEdits.assign fields a) := by
  intro key value howed
  rw [get_assign]
  by_cases heq : key = a.1
  · rw [heq, Function.update_self] at howed
    rw [if_pos heq]
    exact Option.some.inj howed
  · rw [Function.update_of_ne heq] at howed
    rw [if_neg heq]
    exact h key value howed

theorem Shows.foldl {owed : String → Option (Option Yaml)} (h : Shows owed fields)
    (as : List Assignment) :
    Shows (as.foldl (fun owed a => Function.update owed a.1 (some a.2)) owed)
      (as.foldl CronEdits.assign fields) := by
  induction as generalizing owed fields with
  | nil => exact h
  | cons a as ih => exact ih (h.assign a)

theorem enabledMaster_insert {files : Files} {of : Option String}
    (h : EnabledMaster loader (files.insert name (.body fields)) other of) :
    (other ≠ name ∧ EnabledMaster loader files other of)
      ∨ other = name ∧ loader.load name fields = true ∧ loader.isEnabled fields = true
        ∧ isMaster fields = true ∧ project fields = of := by
  obtain ⟨body, hlookup, hmaster⟩ := h
  by_cases heq : other = name
  · subst heq
    rw [AList.lookup_insert] at hlookup
    cases hlookup
    exact .inr ⟨rfl, hmaster⟩
  · rw [AList.lookup_insert_ne heq] at hlookup
    exact .inl ⟨heq, body, hlookup, hmaster⟩

/-- **A task that no other is in conflict with is let in.** -/
theorem Unique.insert {files : Files} (h : Unique loader files)
    (hcheck : loader.isEnabled fields = true → isMaster fields = true →
      conflict loader files name fields = false) :
    Unique loader (files.insert name (.body fields)) := by
  -- another enabled master of the project would be in conflict
  have halone : ∀ other of, other ≠ name → EnabledMaster loader files other of →
      loader.isEnabled fields = true → isMaster fields = true → project fields ≠ of := by
    rintro other of hne ⟨body, hlookup, hload, -, hmaster, hproject⟩ henabled hfields heq
    exact hne ((conflict_eq_false_iff _ _ _ _).mp (hcheck henabled hfields) other body hlookup
      hload hmaster (hproject.trans heq.symm))
  intro first second of hfirst hsecond
  rcases enabledMaster_insert hfirst with ⟨hne, hfirst⟩ | ⟨heq, -, henabled, hmaster, hproject⟩
  · rcases enabledMaster_insert hsecond with ⟨-, hsecond⟩ | ⟨-, -, henabled, hmaster, hproject⟩
    · exact h first second of hfirst hsecond
    · exact absurd hproject (halone first of hne hfirst henabled hmaster)
  · rcases enabledMaster_insert hsecond with ⟨hne, hsecond⟩ | ⟨heq', -⟩
    · exact absurd hproject (halone second of hne hsecond henabled hmaster)
    · rw [heq, heq']

theorem Unique.mono {files files' : Files} (h : Unique loader files)
    (hle : ∀ name of, EnabledMaster loader files' name of → EnabledMaster loader files name of) :
    Unique loader files' :=
  fun first second of hfirst hsecond => h first second of (hle _ _ hfirst) (hle _ _ hsecond)

theorem Unique.setBackend {files : Files} (h : Unique loader files) (backend : String)
    (hlookup : files.lookup name = some (.body fields)) (hload : loader.load name fields = true) :
    Unique loader (files.insert name (.body (Yaml.set fields "backend" (.str backend)))) := by
  have hsame : ∀ key, key ≠ "backend" →
      Yaml.get (Yaml.set fields "backend" (.str backend)) key = Yaml.get fields key :=
    fun key hne => Yaml.get_set_of_ne _ _ hne
  refine h.mono fun other of hmaster => ?_
  rcases enabledMaster_insert hmaster with ⟨-, hmaster⟩ | ⟨heq, -, henabled, hmaster, hproject⟩
  · exact hmaster
  · rw [heq]
    rw [Loader.isEnabled, hsame _ (by decide)] at henabled
    rw [isMaster, hsame _ (by decide)] at hmaster
    rw [project, hsame _ (by decide)] at hproject
    exact ⟨fields, hlookup, hload, henabled, hmaster, hproject⟩

theorem Unique.erase {files : Files} (h : Unique loader files) (name : String) :
    Unique loader (files.erase name) := by
  refine h.mono fun other of ⟨fields, hlookup, hmaster⟩ => ⟨fields, ?_, hmaster⟩
  have hne : other ≠ name := by
    rintro rfl
    rw [AList.lookup_erase] at hlookup
    cases hlookup
  rwa [AList.lookup_erase_ne hne] at hlookup

/-! ## What the steps preserve -/

theorem Right.shows (h : s.Right loader) (hlookup : s.files.lookup name = some (.body fields)) :
    Shows (s.owed name) fields := by
  intro key value howed
  obtain ⟨body, hbody, hvalue⟩ := h.kept name key value howed
  cases hlookup.symm.trans hbody
  exact hvalue

theorem Right.shows_of_none (h : s.Right loader) (hlookup : s.files.lookup name = none)
    (fields : Body) : Shows (s.owed name) fields := by
  intro key value howed
  obtain ⟨body, hbody, -⟩ := h.kept name key value howed
  cases hlookup.symm.trans hbody

theorem Right.not_deleted (h : s.Right loader) {content : Content}
    (hlookup : s.files.lookup name = some content) : s.deleted name = false := by
  cases hdeleted : s.deleted name with
  | false => rfl
  | true => cases hlookup.symm.trans (h.gone name hdeleted)

/-- **A write of fields that are as they will be owed**, to a task that is not deleted then, and
that leaves one enabled master of a project. -/
theorem Right.land (h : s.Right loader) (id : ℕ) {op : Op}
    (hshows : Shows ((s.land id op name (.body fields)).owed name) fields)
    (hdeleted : (s.land id op name (.body fields)).deleted name = false)
    (hunique : Unique loader (s.files.insert name (.body fields))) :
    (s.land id op name (.body fields)).Right loader where
  kept other key value howed := by
    by_cases heq : other = name
    · subst heq
      exact ⟨fields, AList.lookup_insert _, hshows key value howed⟩
    · change Function.update s.owed name _ other key = some value at howed
      rw [Function.update_of_ne heq] at howed
      obtain ⟨body, hbody, hvalue⟩ := h.kept other key value howed
      exact ⟨body, (AList.lookup_insert_ne heq).trans hbody, hvalue⟩
  gone other hgone := by
    by_cases heq : other = name
    · rw [heq, hdeleted] at hgone
      cases hgone
    · refine (AList.lookup_insert_ne heq).trans (h.gone other ?_)
      rw [← hgone]
      cases op with
      | create _ _ _ => exact (Function.update_of_ne heq _ _).symm
      | update _ _ _ => rfl
      | delete _ => rfl
      | elone _ _ _ _ => rfl
  unique := hunique
  unchanged := h.unchanged

/-- **A step that leaves the files alone**, and by which no update fails that has changed
something. -/
structure Quiet (s t : CronState) : Prop where
  files : t.files = s.files
  owed : t.owed = s.owed
  deleted : t.deleted = s.deleted
  failures : ∀ changed ∈ t.failures, changed ∈ s.failures ∨ changed = false

theorem Quiet.right (h : Quiet s t) (hright : s.Right loader) : t.Right loader where
  kept name key value howed := by
    rw [h.owed] at howed
    rw [h.files]
    exact hright.kept name key value howed
  gone name hdeleted := by
    rw [h.deleted] at hdeleted
    rw [h.files]
    exact hright.gone name hdeleted
  unique := by
    rw [h.files]
    exact hright.unique
  unchanged changed hmem := (h.failures changed hmem).elim (hright.unchanged changed) id

theorem Quiet.goto (s : CronState) (id : ℕ) (op : Op) : Quiet s (s.goto id op) :=
  ⟨rfl, rfl, rfl, fun _ hmem => .inl hmem⟩

theorem Quiet.drop (s : CronState) (id : ℕ) : Quiet s (s.drop id) :=
  ⟨rfl, rfl, rfl, fun _ hmem => .inl hmem⟩

theorem Quiet.reject (s : CronState) (id : ℕ) : Quiet s (s.reject id false) :=
  ⟨rfl, rfl, rfl, fun _ hmem => (List.mem_append.mp hmem).imp_right List.eq_of_mem_singleton⟩

theorem Quiet.archiveSession (h : Quiet s t) (name : String) (sid : ℕ) :
    Quiet s (t.archiveSession name sid) := ⟨h.files, h.owed, h.deleted, h.failures⟩

theorem Quiet.addSession (h : Quiet s t) (name : String) (session : Session) :
    Quiet s (t.addSession name session) := ⟨h.files, h.owed, h.deleted, h.failures⟩

theorem Quiet.failOp (s : CronState) (id : ℕ) (op : Op)
    (h : ∀ name req phase, op = .update name req phase → phase.changed = false) :
    Quiet s (s.failOp id op) := by
  cases op with
  | update name req phase =>
    show Quiet s (s.reject id phase.changed)
    rw [h name req phase rfl]
    exact .reject s id
  | create _ _ _ => exact .drop s id
  | delete _ => exact .drop s id
  | elone name _ successor _ => exact (Quiet.drop s id).archiveSession name successor

theorem Quiet.stepUpdate {req : TaskUpdate} {phase : Phase} {a : CronAction}
    (h : s.stepUpdate loader id name req phase a = some t) : Quiet s t := by
  unfold CronState.stepUpdate at h
  split at h
  -- the file is loaded
  · split at h
    · split at h
      · split at h
        all_goals cases h
        · exact .goto _ _ _
        · exact .reject _ _
      · cases h
        exact .reject _ _
    · cases h
  -- and read
  · split at h
    · split at h
      all_goals cases h
      · exact .goto _ _ _
      · exact .reject _ _
      · exact .goto _ _ _
    · cases h
  -- the candidate is checked
  · split at h
    · dsimp only at h
      split_ifs at h
      all_goals cases h
      · exact .reject _ _
      · exact .reject _ _
      · exact .goto _ _ _
      · exact .goto _ _ _
    · cases h
  -- the sessions are listed
  · split at h
    · dsimp only at h
      split at h
      · cases h
        exact .goto _ _ _
      · split at h
        all_goals cases h
        · exact .goto _ _ _
        · exact .goto _ _ _
    · cases h
  -- one is busy, or is not
  · split at h
    · split at h
      all_goals cases h
      · exact .reject _ _
      · exact .goto _ _ _
    · cases h
  · split at h
    · cases h
      exact (Quiet.goto _ _ _).archiveSession _ _
    · cases h
  · split at h
    · cases h
      exact (Quiet.goto _ _ _).addSession _ _
    · cases h
  · cases h

theorem Quiet.ofUpdate {a : CronAction} (h : s.ofUpdate loader id a = some t) : Quiet s t := by
  unfold CronState.ofUpdate at h
  split at h
  · exact .stepUpdate h
  · cases h

theorem Quiet.start {op : Op} (h : s.start id op = some t) : Quiet s t := by
  unfold CronState.start at h
  split at h
  · cases h
    exact .goto s id op
  · cases h

theorem Right.write (h : s.Right loader) {op : Op} (hop : s.ops id = some op)
    (hwrites : op.writes = some (name, fields)) (hmeets : s.Meets loader (.write id none)) :
    (s.land id op name (.body fields)).Right loader := by
  have hmeets := hmeets.2
  rw [hop] at hmeets
  unfold Op.writes at hwrites
  split at hwrites
  · -- an update
    next name' req raw changed =>
    cases hwrites
    obtain ⟨read, rfl, hlookup, hcheck⟩ := hmeets
    refine h.land id ?_ (h.not_deleted hlookup) (h.unique.insert hcheck)
    change Shows (Function.update s.owed name _ name) _
    rw [Function.update_self]
    exact (h.shows hlookup).foldl req.assignments
  · -- a creation
    cases hwrites
    obtain ⟨hlookup, hcheck⟩ := hmeets
    refine h.land id ?_ (Function.update_self ..) (h.unique.insert fun _ => hcheck)
    change Shows (Function.update s.owed name _ name) _
    rw [Function.update_self]
    exact h.shows_of_none hlookup fields
  · -- a succession
    next name' backend successor read =>
    cases hwrites
    obtain ⟨hlookup, hload⟩ := hmeets
    refine h.land id ?_ (h.not_deleted hlookup) (h.unique.setBackend backend hlookup hload)
    change Shows (Function.update s.owed name _ name) _
    rw [Function.update_self]
    exact (h.shows hlookup).foldl [("backend", some (.str backend))]
  · cases hwrites

theorem Right.unlink (h : s.Right loader) (id : ℕ) (name : String) :
    Right loader { s.drop id with
      files := s.files.erase name
      owed := Function.update s.owed name fun _ => none
      deleted := Function.update s.deleted name true } where
  kept other key value howed := by
    by_cases heq : other = name
    · subst heq
      simp only [Function.update_self, reduceCtorEq] at howed
    · dsimp only at howed
      rw [Function.update_of_ne heq] at howed
      obtain ⟨fields, hlookup, hvalue⟩ := h.kept other key value howed
      exact ⟨fields, (AList.lookup_erase_ne heq).trans hlookup, hvalue⟩
  gone other hgone := by
    by_cases heq : other = name
    · exact heq ▸ AList.lookup_erase _ _
    · dsimp only at hgone
      rw [Function.update_of_ne heq] at hgone
      exact (AList.lookup_erase_ne heq).trans (h.gone other hgone)
  unique := h.unique.erase name
  unchanged := h.unchanged

theorem Right.step (h : s.Right loader) {a : CronAction} (hmeets : s.Meets loader a)
    (hstep : s.step loader a = some t) : t.Right loader := by
  cases a with
  | startUpdate id name req backendKnown =>
    simp only [CronState.step] at hstep
    split at hstep
    · exact (Quiet.start hstep).right h
    · cases hstep
      have hquiet : Quiet s { s with failures := s.failures ++ [false] } := ⟨rfl, rfl, rfl,
        fun _ hmem => (List.mem_append.mp hmem).imp_right List.eq_of_mem_singleton⟩
      exact hquiet.right h
  | load id torn => exact (Quiet.ofUpdate hstep).right h
  | read id torn => exact (Quiet.ofUpdate hstep).right h
  | validate id => exact (Quiet.ofUpdate hstep).right h
  | list id => exact (Quiet.ofUpdate hstep).right h
  | ask id busy => exact (Quiet.ofUpdate hstep).right h
  | archive id => exact (Quiet.ofUpdate hstep).right h
  | createSession id sid => exact (Quiet.ofUpdate hstep).right h
  | startCreate id name fields =>
    simp only [CronState.step] at hstep
    split_ifs at hstep
    exact (Quiet.start hstep).right h
  | validateCreate id =>
    simp only [CronState.step] at hstep
    split at hstep
    · split at hstep
      all_goals cases hstep
      · exact (Quiet.goto _ _ _).right h
      · exact (Quiet.drop _ _).right h
    · cases hstep
  | startDelete id name =>
    simp only [CronState.step] at hstep
    split_ifs at hstep
    exact (Quiet.start hstep).right h
  | archiveOne id sid =>
    simp only [CronState.step] at hstep
    split at hstep
    · cases hstep
      have hquiet : Quiet s s := ⟨rfl, rfl, rfl, fun _ hmem => .inl hmem⟩
      exact (hquiet.archiveSession _ _).right h
    · cases hstep
  | unlink id =>
    simp only [CronState.step] at hstep
    split at hstep
    · split at hstep
      all_goals cases hstep
      · exact h.unlink id _
      · exact (Quiet.drop _ _).right h
    · cases hstep
  | startElone id name backend sid =>
    obtain ⟨u, hu, rfl⟩ := Option.map_eq_some_iff.mp hstep
    exact ((Quiet.start hu).addSession _ _).right h
  | readElone id torn =>
    simp only [CronState.step] at hstep
    split at hstep
    · split at hstep
      all_goals cases hstep
      · exact (Quiet.goto _ _ _).right h
      · refine (Quiet.failOp s id _ fun _ _ _ heq => ?_).right h
        cases heq
    · cases hstep
  | write id mixed =>
    cases hmeets.1
    simp only [CronState.step] at hstep
    cases hop : s.ops id with
    | none =>
      rw [hop] at hstep
      cases hstep
    | some op =>
      rw [hop] at hstep
      dsimp only at hstep
      cases hwrites : op.writes with
      | none =>
        rw [hwrites] at hstep
        cases hstep
      | some write =>
        rw [hwrites] at hstep
        cases hstep
        exact h.write hop hwrites hmeets
  | fail id =>
    obtain ⟨op, hop, rfl⟩ := Option.map_eq_some_iff.mp hstep
    refine (Quiet.failOp s id op fun name req phase heq => ?_).right h
    subst heq
    simp only [Meets, hop] at hmeets
    exact hmeets
  | failWrite id content => exact hmeets.elim
  | sessions active =>
    cases hstep
    have hquiet : Quiet s { s with active := active } := ⟨rfl, rfl, rfl, fun _ hmem => .inl hmem⟩
    exact hquiet.right h

theorem right_start {files : Files} (active : String → List Session)
    (h : Unique loader files) : Right loader { files, active } where
  kept _ _ _ howed := nomatch howed
  gone _ hdeleted := nomatch hdeleted
  unique := h
  unchanged _ hmem := nomatch hmem

/-- **Along every run in which each write lands on what its writer read**, and no update fails
that has changed something, the tasks are right. -/
theorem edits_right_of_run (loader : Loader) (files : Files) (active : String → List Session)
    (hunique : Unique loader files) (as : List CronAction) (s : CronState)
    (hmeets : (system loader).Guarded (Meets loader) { files, active } as)
    (hrun : (system loader).run { files, active } as = some s) : s.Right loader :=
  (system loader).run_invariant_of_guarded (fun _ _ _ h hmeets hstep => h.step hmeets hstep)
    (right_start active hunique) hmeets hrun

/-- What accepts every file; a task is enabled unless it says otherwise. -/
def anyFile : Loader where
  valid _ _ := true
  inline _ := false
  enabled
    | some (.bool enabled) => enabled
    | _ => true
  backend _ := "codex"

/-- An update is taken to its write. -/
def updating (id : ℕ) (name : String) (req : TaskUpdate) : List CronAction :=
  [.startUpdate id name req true, .load id none, .read id none, .validate id]

def nineOClock : Body :=
  [(.str "cron", .str "0 9 * * *"), (.str "mode", .str "master"), (.str "project", .str "home")]

def atEight : TaskUpdate := { cron := some "0 8 * * *" }

def creatingNine : List CronAction := [.startCreate 0 "job" nineOClock, .validateCreate 0]

/-- A master task is created, and set to another time. -/
theorem edits_right_of_run_one_by_one : ∃ s, (system anyFile).run { files := ∅, active := fun _ => [] }
    (creatingNine ++ [.write 0 none] ++ updating 1 "job" atEight ++ [.write 1 none]) = some s
      ∧ s.owed "job" "cron" = some (some (.str "0 8 * * *")) ∧ s.Right anyFile := by
  have hunique : Unique anyFile ∅ := fun _ _ _ ⟨_, hlookup, _⟩ => nomatch hlookup
  have hmeets : (system anyFile).Guarded (Meets anyFile) { files := ∅, active := fun _ => [] }
      (creatingNine ++ [.write 0 none] ++ updating 1 "job" atEight ++ [.write 1 none]) := by
    refine TransitionSystem.guarded_append (TransitionSystem.guarded_append
      (TransitionSystem.guarded_append ⟨trivial, fun _ _ => ⟨trivial, fun _ _ => trivial⟩⟩
        fun s hs => ?_) fun _ _ => ?_) fun s hs => ?_
    · cases hs
      exact ⟨⟨rfl, rfl, fun _ => rfl⟩, fun _ _ => trivial⟩
    · exact ⟨trivial, fun _ _ => ⟨trivial, fun _ _ => ⟨trivial, fun _ _ => ⟨trivial,
        fun _ _ => trivial⟩⟩⟩⟩
    · cases hs
      exact ⟨⟨rfl, nineOClock, rfl, rfl, fun _ _ => rfl⟩, fun _ _ => trivial⟩
  exact ⟨_, rfl, rfl, edits_right_of_run anyFile _ _ hunique _ _ hmeets rfl⟩

/-- **An update is lost**: another has read the file before it was written, and writes what it
has read. -/
theorem update_lost :
    ¬ ∀ (loader : Loader) (files : Files) (active : String → List Session)
      (as : List CronAction) (s : CronState), Unique loader files →
        (system loader).run { files, active } as = some s → s.Right loader := by
  intro hall
  let files : Files := (∅ : Files).insert "job" (.body nineOClock)
  have hunique : Unique anyFile files :=
    Unique.insert (fun _ _ _ ⟨_, hlookup, _⟩ => nomatch hlookup) fun _ _ => rfl
  have hlost : ((system anyFile).run { files, active := fun _ => [] }
      (updating 0 "job" atEight ++ updating 1 "job" { repo := some "/repo" }
        ++ [.write 0 none, .write 1 none])).map
          (fun s => (s.owed "job" "cron", s.files.lookup "job"))
      = some (some (some (.str "0 8 * * *")),
          some (.body (nineOClock ++ [(.str "repo", .str "/repo")]))) := rfl
  obtain ⟨s, hs, heq⟩ := Option.map_eq_some_iff.mp hlost
  obtain ⟨howed, hlookup⟩ := Prod.mk.inj heq
  obtain ⟨fields, hfields, hvalue⟩ := (hall _ _ _ _ s hunique hs).kept _ _ _ howed
  cases hlookup.symm.trans hfields
  exact absurd (Yaml.str.inj (Option.some.inj hvalue)) (by decide)

end CronState

end CronEdits
