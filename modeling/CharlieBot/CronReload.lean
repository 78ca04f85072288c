import CharlieBot.Lib.Transition
import CharlieBot.Lib.Traverse
import CharlieBot.Lib.Yaml
import Mathlib.Control.Monad.Basic
import Mathlib.Data.List.Sort
import Mathlib.Data.String.Basic

/-!
# The scheduled tasks and their reload

Every file of `cron.d` is a task, and a task and its steps may point to files with their
prompts. A call for the tasks compares the times of the files of `cron.d` and of the
prompts that the last load met with those of that load, and loads again where one differs.

The times of the prompts are compared as one: as long as one of the prompts is missing, they count
as the same, and what is edited meanwhile is not seen. And the loader, which keeps the
pointers of a file that fails so as to look after them, walks over the steps of that file once
more outside of what catches the failure: where they are a number, the call raises
(`not_fresh`).

Along every run in which the steps of every file can be walked over, and in which, whenever
nothing is loaded, what has the time it had at the last load is what it was, and
no prompt was edited behind one that is missing, every call returns what a fresh load
gives (`fresh_of_run`). It rests on one fact about the loader: what it makes of a file depends only
on the prompts it keeps for that file (`loadFile_congr`).
-/

namespace CronReload

/-- The fields of a task, or of a step. -/
abbrev Body := List (Yaml × Yaml)

/-! ## The disk -/

/-- Why a file cannot be read. -/
inductive ReadError where
  /-- `OSError`, with its text. -/
  | os (text : String)
  /-- `ValueError`, with its text. -/
  | value (text : String)
  deriving DecidableEq

def ReadError.text : ReadError → String
  | .os text => text
  | .value text => text

/-- A file: what comes of reading it, and its time. -/
structure FileState where
  content : Except ReadError String
  mtime : ℚ
  deriving DecidableEq

/-- An entry of `cron.d`. -/
structure CronEntry where
  name : String
  isFile : Bool := true
  state : FileState
  deriving DecidableEq

/-- What the loader reads. -/
structure Disk where
  /-- `cron.d`, where it is a directory. -/
  cronD : Option (List CronEntry) := none
  /-- The files that a pointer may lead to. -/
  prompts : List (String × FileState) := []
  /-- Whether there is a `cron.yaml`. -/
  legacy : Bool := false

/-- The files of `cron.d` that are tasks, in the order of their names. -/
def Disk.files (disk : Disk) : List CronEntry :=
  ((disk.cronD.getD []).insertionSort fun a b => a.name ≤ b.name).filter fun entry =>
    entry.isFile && ".yaml".toList.isSuffixOf entry.name.toList
      && !".".toList.isPrefixOf entry.name.toList

/-- `path.stem` of a name that ends so. -/
def stem (name : String) : String := String.ofList (name.toList.take (name.toList.length - 5))

def validCronName (name : String) : Bool :=
  match name.toList with
  | [] => false
  | first :: rest => first.isAlphanum
      && rest.all fun c => c.isAlphanum || c == '.' || c == '_' || c == '-'

/-- What the loader is made with: the paths of the repository, of `cron.d` and of the old file,
the YAML parser, `os.path.expanduser`, the zone of the host, and the validation of
`ScheduledTaskConfig`, which gives a task or the text of an error. -/
structure Loader (T : Type*) where
  repo : String
  cronD : String
  legacyFile : String
  parse : String → Except String Yaml
  expanduser : String → String
  localTimezone : String
  validate : String → Body → Except String T

/-! ## Pointers -/

def pathText (text : String) : String :=
  let parts := (Text.splitOnChar '/' text.toList).filter fun part => part ≠ [] && part ≠ ['.']
  let slashes := (text.toList.takeWhile (· == '/')).length
  let root := if slashes = 0 then "" else if slashes = 2 then "//" else "/"
  if root = "" && parts = [] then "." else root ++ String.ofList (Text.join ['/'] parts)

/-- Whether a file of the name can be asked for: there is no null byte. -/
def statable (path : String) : Bool := path.toList.all (· ≠ Char.ofNat 0)

/-- `path.read_text`. -/
def Disk.readText (disk : Disk) (path : String) : Except ReadError String :=
  if statable path then
    match disk.prompts.lookup path with
    | none => .error (.os ("[Errno 2] No such file or directory: "
        ++ String.ofList (Text.reprStr path.toList)))
    | some file => file.content
  else .error (.value "embedded null byte")

/-- `type(x).__name__`. -/
def typeName : Yaml → String
  | .null => "NoneType"
  | .bool _ => "bool"
  | .int _ => "int"
  | .float _ => "float"
  | .str _ => "str"
  | .date .. => "datetime.date"
  | .datetime .. => "datetime.datetime"
  | .seq _ => "list"
  | .map _ => "dict"

/-- `dict.pop(key, None)`, without the value. -/
def without (fields : Body) (key : String) : Body := fields.filter fun field => !field.1.isText key

/-- `iter(x)`. -/
def iterate : Yaml → Except String (List Yaml)
  | .seq items => .ok items
  | .map fields => .ok (fields.map Prod.fst)
  | .str s => .ok (s.toList.map fun c => .str (String.ofList [c]))
  | x => .error ("'" ++ typeName x ++ "' object is not iterable")

/-- `body.get("steps") or []`, walked over. -/
def steps (body : Body) : Except String (List Yaml) :=
  match Yaml.get body "steps" with
  | some x => if x.truthy then iterate x else .ok []
  | none => .ok []

def promptPointerEntries (body : Body) : Except String (List Body) :=
  (steps body).map fun items => body :: items.filterMap Yaml.asMap

namespace Loader

variable {T : Type*} (loader : Loader T)

def resolvePointerPath (pointer : String) : String :=
  if "~".toList.isPrefixOf pointer.toList || "/".toList.isPrefixOf pointer.toList then
    pathText (loader.expanduser pointer)
  else pathText (loader.repo ++ "/" ++ pointer)

/-- A complaint about an entry, which is named by its `repr`. -/
def cronEntryError (entry : Body) (complaint : String) : String :=
  match ((Yaml.get entry "name").getD .null).repr with
  | some name => "cron entry " ++ String.ofList name ++ complaint
  | none => "Exceeds the limit (4300 digits) for integer string conversion; "
      ++ "use sys.set_int_max_str_digits() to increase the limit"

/-- `entry.get(key)` where it counts as true. -/
def getTruthy (entry : Body) (key : String) : Option Yaml := (Yaml.get entry key).filter Yaml.truthy

/-- `_resolve_prompt_file`: the entry with its prompt, and the path; nothing for an entry without
a pointer. -/
def resolvePromptFile (disk : Disk) (entry : Body) : Except String (Option (Body × String)) :=
  match getTruthy entry "prompt_file" with
  | none => .ok none
  | some pointer =>
    if (getTruthy entry "prompt").isSome then
      .error (cronEntryError entry (" has both 'prompt' and 'prompt_file'; "
        ++ "exactly one prompt source is allowed"))
    else
      match pointer with
      | .str pointer =>
        let path := loader.resolvePointerPath pointer
        match disk.readText path with
        | .ok body => .ok (some (without (Yaml.set entry "prompt" (.str body)) "prompt_file", path))
        | .error (.os e) =>
          .error (cronEntryError entry (" prompt_file unreadable: " ++ path ++ " (" ++ e ++ ")"))
        | .error (.value e) => .error e
      | x => .error ("'" ++ typeName x ++ "' object has no attribute 'startswith'")

/-- `_resolve_prompt_pointer`: the entry behind it, and the path that was recorded. -/
def resolvePromptPointer (disk : Disk) (entry : Body) : Except String (Body × List String) :=
  match loader.resolvePromptFile disk entry with
  | .error e => .error e
  | .ok none => .ok (entry, [])
  | .ok (some (resolved, path)) =>
    let pointer := (Yaml.get entry "prompt_file").getD .null
    .ok (Yaml.set resolved "prompt_file" pointer, [path])

/-- The steps that are mappings, each resolved where it stands. -/
def resolveSteps (disk : Disk) : List Yaml → Except String (List Yaml × List String)
  | [] => .ok ([], [])
  | step :: items =>
    match step.asMap with
    | none => (resolveSteps disk items).map fun resolved => (step :: resolved.1, resolved.2)
    | some entry =>
      match loader.resolvePromptPointer disk entry with
      | .error e => .error e
      | .ok first => (resolveSteps disk items).map fun resolved =>
          (.map first.1 :: resolved.1, first.2 ++ resolved.2)

/-! ## One file -/

def resolveLocalTimezone (body : Body) : Body :=
  match Yaml.get body "timezone" with
  | some (.str "local") => Yaml.set body "timezone" (.str loader.localTimezone)
  | _ => body

/-- `~` in `repo`. -/
def expandRepo (body : Body) : Except String Body :=
  match getTruthy body "repo" with
  | none => .ok body
  | some (.str repo) => .ok (Yaml.set body "repo" (.str (loader.expanduser repo)))
  | some x => .error ("expected str, bytes or os.PathLike object, not " ++ typeName x)

/-- The steps of a list are what became of them. -/
def withSteps (body : Body) (items : List Yaml) : Body :=
  match Yaml.get body "steps" with
  | some (.seq _) => Yaml.set body "steps" (.seq items)
  | _ => body

/-- `_validate_cron_body`: the task, and the paths of the prompts that were read. -/
def validateCronBody (disk : Disk) (body : Body) (stem : String) :
    Except String (T × List String) :=
  match steps body with
  | .error e => .error e
  | .ok items =>
    match loader.resolvePromptPointer disk body with
    | .error e => .error e
    | .ok (resolved, paths) =>
      match loader.resolveSteps disk items with
      | .error e => .error e
      | .ok (items, below) =>
        match loader.expandRepo (loader.resolveLocalTimezone (withSteps resolved items)) with
        | .error e => .error e
        | .ok body => (loader.validate stem body).map fun task => (task, paths ++ below)

def loadYaml (entry : CronEntry) : Except String Yaml :=
  match entry.state.content with
  | .error e => .error e.text
  | .ok text => loader.parse text

/-- What a file of `cron.d` must not hold besides its pointers. -/
def inlineError (body : Body) : Except String Unit :=
  if (Yaml.get body "name").isSome then
    .error "the body must not carry a 'name' key; the file name is the job name"
  else if (Yaml.get body "prompt").isSome then
    .error ("a cron.d host file must not carry an inline 'prompt'; it holds the "
      ++ "path to the prompt source under 'prompt_file', and the loader reads "
      ++ "that file on every load")
  else
    match steps body with
    | .error e => .error e
    | .ok items =>
      if (items.filterMap Yaml.asMap).any fun step => (Yaml.get step "prompt").isSome then
        .error ("a cron.d host file must not carry an inline 'prompt'; a step holds the "
          ++ "path to its prompt source under 'prompt_file', and the loader reads "
          ++ "that file on every load")
      else .ok ()

def loadCronFile (disk : Disk) (entry : CronEntry) : Except String (T × List String) :=
  match loader.loadYaml entry with
  | .error e => .error e
  | .ok (.map body) =>
    match inlineError body with
    | .error e => .error e
    | .ok _ => loader.validateCronBody disk body (stem entry.name)
  | .ok _ => .error "cron config must be a mapping"

def readCronFileEnabled (entry : CronEntry) : Option Bool :=
  match loader.loadYaml entry with
  | .ok (.map body) =>
    match Yaml.get body "enabled" with
    | some (.bool enabled) => some enabled
    | _ => none
  | _ => none

/-- The path of a pointer that is kept for an entry of a file that failed. -/
def pointerPath (entry : Body) : Option String :=
  match getTruthy entry "prompt_file" with
  | some (.str pointer) => (some (loader.resolvePointerPath pointer)).filter statable
  | _ => none

/-- The pointers of a file that failed; it raises where its steps cannot be walked over. -/
def failedPointers (entry : CronEntry) : Except String (List String) :=
  match loader.loadYaml entry with
  | .ok (.map body) => (promptPointerEntries body).map fun entries =>
      entries.filterMap loader.pointerPath
  | _ => .ok []

/-- `ScheduledTaskError`. -/
structure TaskError where
  name : String
  path : String
  error : String
  enabled : Option Bool
  deriving DecidableEq

/-- What comes of one file. -/
structure Outcome (T : Type*) where
  task : Option (String × T) := none
  error : Option TaskError := none
  /-- The prompts that are looked after. -/
  prompts : List String := []

/-- The record of a file that failed. -/
def taskError (entry : CronEntry) (error : String) : TaskError :=
  ⟨stem entry.name, loader.cronD ++ "/" ++ entry.name, error, loader.readCronFileEnabled entry⟩

/-- One file; an error is what escapes. -/
def loadFile (disk : Disk) (entry : CronEntry) : Except String (Outcome T) :=
  if !validCronName (stem entry.name) then
    .ok { error := some (loader.taskError entry "file name is not a valid cron task name") }
  else
    match loader.loadCronFile disk entry with
    | .ok (task, prompts) => .ok { task := some (stem entry.name, task), prompts }
    | .error e => (loader.failedPointers entry).map fun prompts =>
        { error := some (loader.taskError entry e), prompts }

/-! ## The snapshot -/

end Loader

/-- `_cron_fingerprint`. -/
structure Fingerprint where
  files : List (String × ℚ)
  /-- The times of the prompts, or nothing where one of them is missing. -/
  prompts : Option (List (String × ℚ))
  legacy : Bool
  deriving DecidableEq

def Disk.statPromptFiles (disk : Disk) : List String → Option (List (String × ℚ))
  | [] => some []
  | path :: paths =>
    match disk.prompts.lookup path with
    | none => none
    | some file => (disk.statPromptFiles paths).map ((path, file.mtime) :: ·)

/-- The fingerprint of a disk, with the prompts that are looked after. -/
def Disk.fingerprint (disk : Disk) (prompts : List String) : Fingerprint where
  files := disk.files.map fun entry => (entry.name, entry.state.mtime)
  prompts := disk.statPromptFiles prompts
  legacy := disk.legacy

structure CronSnapshot (T : Type*) where
  tasks : List (String × T) := []
  errors : List Loader.TaskError := []
  prompts : List String := []
  fingerprint : Option Fingerprint := none

namespace Loader

variable {T : Type*} (loader : Loader T)

/-- Every file on its own, up to one for which it raises. -/
def loadFiles (disk : Disk) : List CronEntry → Except String (List (Outcome T))
  | [] => .ok []
  | entry :: entries =>
    match loader.loadFile disk entry with
    | .error e => .error e
    | .ok outcome => (loadFiles disk entries).map (outcome :: ·)

/-- The old file, which is an error by itself. -/
def legacyErrors (disk : Disk) : List TaskError :=
  if disk.legacy then
    [⟨"cron.yaml (legacy)", loader.legacyFile,
      "legacy config.d/cron.yaml present; entries not loaded — "
        ++ "split into config.d/cron.d/<name>.yaml", none⟩]
  else []

/-- The snapshot of what came of the files. -/
def snapshot (disk : Disk) (outcomes : List (Outcome T)) : CronSnapshot T :=
  let prompts := outcomes.flatMap Outcome.prompts
  { tasks := (outcomes.filterMap Outcome.task).insertionSort fun a b => a.1 ≤ b.1
    errors := (outcomes.filterMap Outcome.error ++ loader.legacyErrors disk).insertionSort
      fun a b => a.name ≤ b.name
    prompts
    fingerprint := some (disk.fingerprint prompts) }

/-- `_reload_cron_snapshot`: the snapshot, or what it raises. -/
def reloadCronSnapshot (disk : Disk) : Except String (CronSnapshot T) :=
  (loader.loadFiles disk disk.files).map (loader.snapshot disk)

end Loader

/-! ## Runs -/

/-- The disk and the snapshot, and what is known of what came before. -/
structure CronState (T : Type*) where
  disk : Disk := {}
  snapshot : CronSnapshot T := {}
  loaded : Option Disk := none
  /-- Whether a call looked at the disk as it is. -/
  looked : Bool := false
  /-- What the last call returned, tasks and errors, or raised. -/
  answer : Option (Except String (List (String × T) × List Loader.TaskError)) := none

inductive CronAction where
  | change (disk : Disk)
  /-- `get_scheduled_tasks`. -/
  | get

/-- Whatever changes its content changes its time. -/
def Disk.Moves (old new : Disk) : Prop :=
  (∀ entry ∈ old.files, ∀ other ∈ new.files, entry.name = other.name →
      entry.state.mtime = other.state.mtime → entry = other)
    ∧ ∀ path ∈ old.prompts.map Prod.fst, ∀ file ∈ old.prompts.lookup path,
      ∀ other ∈ new.prompts.lookup path, file.mtime = other.mtime → file = other

instance (old new : Disk) : Decidable (old.Moves new) := by
  unfold Disk.Moves
  infer_instance

namespace CronState

variable {T : Type*} (loader : Loader T) (s : CronState T)

/-- Whether a call loads. -/
def reloads : Bool := s.snapshot.fingerprint ≠ some (s.disk.fingerprint s.snapshot.prompts)

def step : CronAction → Option (CronState T)
  | .change disk =>
    if s.disk.Moves disk then some { s with disk := disk, looked := false } else none
  | .get =>
    if s.reloads then
      match loader.reloadCronSnapshot s.disk with
      | .error e => some { s with looked := true, answer := some (.error e) }
      | .ok snapshot => some { s with
          snapshot := snapshot
          loaded := some s.disk
          looked := true
          answer := some (.ok (snapshot.tasks, snapshot.errors)) }
    else
      some { s with
        looked := true
        answer := some (.ok (s.snapshot.tasks, s.snapshot.errors)) }

def system : TransitionSystem (CronState T) CronAction := ⟨step loader⟩

/-! ## What is claimed -/

/-- **The answer is fresh**: a call that looked at the disk as it is returned, with the tasks and
the errors of a fresh load. -/
def Fresh : Prop :=
  s.looked = true → ∃ snapshot, loader.reloadCronSnapshot s.disk = .ok snapshot
    ∧ s.answer = some (.ok (snapshot.tasks, snapshot.errors))

/-- Whether the steps of a file can be walked over. -/
def stepsIterable (entry : CronEntry) : Bool :=
  match loader.loadYaml entry with
  | .ok (.map body) => (steps body).toOption.isSome
  | _ => true

/-- What the condition asks of a disk where nothing is loaded, compared with that of the last
load. -/
structure Steady (now old : Disk) (prompts : List String) : Prop where
  files : ∀ entry ∈ now.files, ∀ before ∈ old.files, entry.name = before.name →
    entry.state.mtime = before.state.mtime → entry = before
  contents : ∀ path ∈ prompts, (now.prompts.lookup path).map FileState.mtime
    = (old.prompts.lookup path).map FileState.mtime →
      now.prompts.lookup path = old.prompts.lookup path
  /-- Where a prompt is missing, all of them have the times they had. -/
  times : now.statPromptFiles prompts = none → ∀ path ∈ prompts,
    (now.prompts.lookup path).map FileState.mtime = (old.prompts.lookup path).map FileState.mtime

instance (now old : Disk) (prompts : List String) : Decidable (Steady now old prompts) :=
  decidable_of_iff ((∀ entry ∈ now.files, ∀ before ∈ old.files, entry.name = before.name →
      entry.state.mtime = before.state.mtime → entry = before)
    ∧ (∀ path ∈ prompts, (now.prompts.lookup path).map FileState.mtime
        = (old.prompts.lookup path).map FileState.mtime →
          now.prompts.lookup path = old.prompts.lookup path)
    ∧ (now.statPromptFiles prompts = none → ∀ path ∈ prompts,
        (now.prompts.lookup path).map FileState.mtime
          = (old.prompts.lookup path).map FileState.mtime))
    ⟨fun h => ⟨h.1, h.2.1, h.2.2⟩, fun h => ⟨h.files, h.contents, h.times⟩⟩

/-- **The condition on a step.** -/
def Meets : CronAction → Prop
  | .change _ => True
  | .get =>
    (∀ entry ∈ s.disk.files, validCronName (stem entry.name) = true →
        stepsIterable loader entry = true)
      ∧ (s.reloads = false → ∀ old ∈ s.loaded, Steady s.disk old s.snapshot.prompts)

instance (a : CronAction) : Decidable (s.Meets loader a) := by
  unfold Meets
  split <;> infer_instance

end CronState

/-! ## What a file depends on -/

/-- The prompts are the same on two disks. -/
def Same (d d' : Disk) (paths : List String) : Prop :=
  ∀ path ∈ paths, d.prompts.lookup path = d'.prompts.lookup path

variable {T : Type*} {loader : Loader T} {d d' : Disk}

theorem Same.mono {paths others : List String} (h : Same d d' paths)
    (hsub : ∀ path ∈ others, path ∈ paths) : Same d d' others :=
  fun path hpath => h path (hsub path hpath)

theorem resolvePromptPointer_congr {entry : Body}
    (h : Same d d' (loader.pointerPath entry).toList) :
    loader.resolvePromptPointer d entry = loader.resolvePromptPointer d' entry := by
  have hfile : loader.resolvePromptFile d entry = loader.resolvePromptFile d' entry := by
    unfold Loader.resolvePromptFile
    cases hpointer : Loader.getTruthy entry "prompt_file" with
    | none => rfl
    | some pointer =>
      dsimp only
      cases pointer with
      | str pointer =>
        have hread : d.readText (loader.resolvePointerPath pointer)
            = d'.readText (loader.resolvePointerPath pointer) := by
          unfold Disk.readText
          cases hstat : statable (loader.resolvePointerPath pointer) with
          | false => rfl
          | true =>
            rw [h (loader.resolvePointerPath pointer) (by
              unfold Loader.pointerPath
              rw [hpointer]
              dsimp only
              rw [Option.filter_some, if_pos hstat]
              exact List.mem_singleton_self _)]
        dsimp only
        rw [hread]
      | _ => rfl
  unfold Loader.resolvePromptPointer
  rw [hfile]

theorem resolveSteps_congr {items : List Yaml}
    (h : Same d d' ((items.filterMap Yaml.asMap).filterMap loader.pointerPath)) :
    loader.resolveSteps d items = loader.resolveSteps d' items := by
  induction items with
  | nil => rfl
  | cons step items ih =>
    unfold Loader.resolveSteps
    cases hstep : step.asMap with
    | none =>
      rw [List.filterMap_cons_none hstep] at h
      rw [ih h]
    | some entry =>
      rw [List.filterMap_cons_some hstep, List.filterMap_cons] at h
      have hentry : Same d d' (loader.pointerPath entry).toList := h.mono fun path hpath => by
        rw [Option.mem_toList.mp hpath]
        exact List.mem_cons_self
      have hitems := ih (h.mono fun path hpath => by
        split
        · exact hpath
        · exact List.mem_cons_of_mem _ hpath)
      dsimp only
      rw [resolvePromptPointer_congr hentry, hitems]

/-- **A body depends on the prompts that it and its steps point to.** -/
theorem validateCronBody_congr {body : Body} {entries : List Body} (stem : String)
    (hentries : promptPointerEntries body = .ok entries)
    (h : Same d d' (entries.filterMap loader.pointerPath)) :
    loader.validateCronBody d body stem = loader.validateCronBody d' body stem := by
  unfold promptPointerEntries at hentries
  unfold Loader.validateCronBody
  cases hsteps : steps body with
  | error e => rfl
  | ok items =>
    rw [hsteps] at hentries
    cases hentries
    rw [List.filterMap_cons] at h
    have hbody : Same d d' (loader.pointerPath body).toList := h.mono fun path hpath => by
      rw [Option.mem_toList.mp hpath]
      exact List.mem_cons_self
    have hitems : Same d d' ((items.filterMap Yaml.asMap).filterMap loader.pointerPath) :=
      h.mono fun path hpath => by
        split
        · exact hpath
        · exact List.mem_cons_of_mem _ hpath
    dsimp only
    rw [resolvePromptPointer_congr hbody, resolveSteps_congr hitems]

/-! ## What is kept of a file -/

theorem mem_of_resolvePromptPointer {entry : Body} {resolved : Body × List String}
    (h : loader.resolvePromptPointer d entry = .ok resolved) {path : String}
    (hpath : loader.pointerPath entry = some path) : path ∈ resolved.2 := by
  unfold Loader.pointerPath at hpath
  split at hpath
  · next pointer hpointer =>
    obtain ⟨hpath, -⟩ := Option.filter_eq_some_iff.mp hpath
    cases hpath
    unfold Loader.resolvePromptPointer Loader.resolvePromptFile at h
    rw [hpointer] at h
    dsimp only at h
    split at h
    · cases h
    · next hfile =>
      split at hfile
      · cases hfile
      · split at hfile <;> cases hfile
    · next resolved' path' hfile =>
      cases h
      split at hfile
      · cases hfile
      · split at hfile
        · cases hfile
          exact List.mem_singleton_self _
        · cases hfile
        · cases hfile
  · cases hpath

theorem mem_of_resolveSteps {items : List Yaml} {resolved : List Yaml × List String}
    (h : loader.resolveSteps d items = .ok resolved) :
    ∀ path ∈ (items.filterMap Yaml.asMap).filterMap loader.pointerPath, path ∈ resolved.2 := by
  induction items generalizing resolved with
  | nil => exact fun path hpath => absurd hpath List.not_mem_nil
  | cons step items ih =>
    unfold Loader.resolveSteps at h
    cases hstep : step.asMap with
    | none =>
      rw [hstep] at h
      dsimp only at h
      cases hrest : loader.resolveSteps d items with
      | error e =>
        rw [hrest] at h
        cases h
      | ok rest =>
        rw [hrest] at h
        cases h
        rw [List.filterMap_cons_none hstep]
        have hmem := ih hrest
        exact hmem
    | some entry =>
      rw [hstep] at h
      dsimp only at h
      cases hfirst : loader.resolvePromptPointer d entry with
      | error e =>
        rw [hfirst] at h
        cases h
      | ok first =>
        rw [hfirst] at h
        dsimp only at h
        cases hrest : loader.resolveSteps d items with
        | error e =>
          rw [hrest] at h
          cases h
        | ok rest =>
          rw [hrest] at h
          cases h
          intro path hpath
          rw [List.filterMap_cons_some hstep, List.mem_filterMap] at hpath
          obtain ⟨other, hother, hpointer⟩ := hpath
          rcases List.mem_cons.mp hother with rfl | hother
          · exact List.mem_append_left _ (mem_of_resolvePromptPointer hfirst hpointer)
          · exact List.mem_append_right _
              (ih hrest path (List.mem_filterMap.mpr ⟨other, hother, hpointer⟩))

/-- **A task has all its prompts among those that were read.** -/
theorem mem_of_validateCronBody {body : Body} {stem : String} {entries : List Body} {task : T}
    {prompts : List String} (h : loader.validateCronBody d body stem = .ok (task, prompts))
    (hentries : promptPointerEntries body = .ok entries) :
    ∀ path ∈ entries.filterMap loader.pointerPath, path ∈ prompts := by
  unfold promptPointerEntries at hentries
  unfold Loader.validateCronBody at h
  cases hsteps : steps body with
  | error e =>
    rw [hsteps] at h
    cases h
  | ok items =>
    rw [hsteps] at h hentries
    cases hentries
    dsimp only at h
    cases hbody : loader.resolvePromptPointer d body with
    | error e =>
      rw [hbody] at h
      cases h
    | ok resolved =>
      rw [hbody] at h
      dsimp only at h
      cases hitems : loader.resolveSteps d items with
      | error e =>
        rw [hitems] at h
        cases h
      | ok below =>
        rw [hitems] at h
        dsimp only at h
        split at h
        · cases h
        · next expanded hexpanded =>
          cases hvalid : loader.validate stem expanded with
          | error e =>
            rw [hvalid] at h
            cases h
          | ok valid =>
            rw [hvalid] at h
            cases h
            intro path hpath
            obtain ⟨entry, hentry, hpointer⟩ := List.mem_filterMap.mp hpath
            rcases List.mem_cons.mp hentry with rfl | hentry
            · exact List.mem_append_left _ (mem_of_resolvePromptPointer hbody hpointer)
            · exact List.mem_append_right _ (mem_of_resolveSteps hitems path
                (List.mem_filterMap.mpr ⟨entry, hentry, hpointer⟩))

theorem loadCronFile_congr {entry : CronEntry}
    (h : ∀ body, loader.loadYaml entry = .ok (.map body) → ∀ entries,
      promptPointerEntries body = .ok entries → Same d d' (entries.filterMap loader.pointerPath)) :
    loader.loadCronFile d entry = loader.loadCronFile d' entry := by
  unfold Loader.loadCronFile
  split
  · rfl
  · next body hbody =>
    split
    · rfl
    · cases hentries : promptPointerEntries body with
      | ok entries => exact validateCronBody_congr _ hentries (h body hbody entries hentries)
      | error e =>
        have hsteps : steps body = .error e := by
          unfold promptPointerEntries at hentries
          cases hsteps : steps body with
          | ok items =>
            rw [hsteps] at hentries
            cases hentries
          | error e' =>
            rw [hsteps] at hentries
            cases hentries
            rfl
        unfold Loader.validateCronBody
        rw [hsteps]
  · rfl

/-- **What is made of a file depends only on the prompts that are kept for it.** -/
theorem loadFile_congr {entry : CronEntry} {outcome : Loader.Outcome T}
    (h : loader.loadFile d entry = .ok outcome) (hsame : Same d d' outcome.prompts) :
    loader.loadFile d' entry = .ok outcome := by
  have hcongr : validCronName (stem entry.name) = true →
      loader.loadCronFile d entry = loader.loadCronFile d' entry := by
    intro hname
    refine loadCronFile_congr fun body hbody entries hentries => hsame.mono fun path hpath => ?_
    unfold Loader.loadFile at h
    rw [hname, if_neg (fun hnot => nomatch hnot)] at h
    cases hload : loader.loadCronFile d entry with
    | error e =>
      rw [hload] at h
      dsimp only at h
      unfold Loader.failedPointers at h
      rw [hbody] at h
      dsimp only at h
      rw [hentries] at h
      cases h
      exact hpath
    | ok loaded =>
      rw [hload] at h
      cases h
      unfold Loader.loadCronFile at hload
      rw [hbody] at hload
      dsimp only at hload
      split at hload
      · cases hload
      · exact mem_of_validateCronBody hload hentries path hpath
  rw [← h]
  unfold Loader.loadFile
  cases hname : validCronName (stem entry.name) with
  | false => rfl
  | true => rw [hcongr hname]

theorem loadFiles_congr {entries : List CronEntry} {outcomes : List (Loader.Outcome T)}
    (h : loader.loadFiles d entries = .ok outcomes)
    (hsame : Same d d' (outcomes.flatMap Loader.Outcome.prompts)) :
    loader.loadFiles d' entries = .ok outcomes := by
  induction entries generalizing outcomes with
  | nil => exact h
  | cons entry entries ih =>
    unfold Loader.loadFiles at h ⊢
    cases hfirst : loader.loadFile d entry with
    | error e =>
      rw [hfirst] at h
      cases h
    | ok outcome =>
      rw [hfirst] at h
      dsimp only at h
      cases hrest : loader.loadFiles d entries with
      | error e =>
        rw [hrest] at h
        cases h
      | ok rest =>
        rw [hrest] at h
        cases h
        rw [loadFile_congr hfirst (hsame.mono fun path hpath =>
          List.mem_append_left _ hpath)]
        dsimp only
        rw [ih hrest (hsame.mono fun path hpath => List.mem_append_right _ hpath)]
        rfl

theorem statPromptFiles_congr {prompts : List String} (h : Same d d' prompts) :
    d.statPromptFiles prompts = d'.statPromptFiles prompts := by
  induction prompts with
  | nil => rfl
  | cons path prompts ih =>
    unfold Disk.statPromptFiles
    rw [h path List.mem_cons_self, ih (h.mono fun _ hmem => List.mem_cons_of_mem _ hmem)]

/-- **A load depends only on the files, and on the prompts that it keeps.** -/
theorem reloadCronSnapshot_congr {snapshot : CronSnapshot T}
    (h : loader.reloadCronSnapshot d = .ok snapshot) (hfiles : d'.files = d.files)
    (hlegacy : d'.legacy = d.legacy) (hsame : Same d d' snapshot.prompts) :
    loader.reloadCronSnapshot d' = .ok snapshot := by
  unfold Loader.reloadCronSnapshot at h ⊢
  rw [hfiles]
  cases houtcomes : loader.loadFiles d d.files with
  | error e =>
    rw [houtcomes] at h
    cases h
  | ok outcomes =>
    rw [houtcomes] at h
    cases h
    have hsame : Same d d' (outcomes.flatMap Loader.Outcome.prompts) := hsame
    rw [loadFiles_congr houtcomes hsame]
    have hfingerprint : d'.fingerprint (outcomes.flatMap Loader.Outcome.prompts)
        = d.fingerprint (outcomes.flatMap Loader.Outcome.prompts) := by
      unfold Disk.fingerprint
      rw [hlegacy, hfiles, statPromptFiles_congr hsame]
    show Except.ok (loader.snapshot d' outcomes) = Except.ok (loader.snapshot d outcomes)
    dsimp only [Loader.snapshot, Loader.legacyErrors]
    rw [hlegacy, hfingerprint]

/-! ## Where nothing is loaded -/

theorem mtime_eq_of_statPromptFiles {prompts : List String} {times : List (String × ℚ)}
    (h : d.statPromptFiles prompts = some times) (h' : d'.statPromptFiles prompts = some times) :
    ∀ path ∈ prompts, (d.prompts.lookup path).map FileState.mtime
      = (d'.prompts.lookup path).map FileState.mtime := by
  induction prompts generalizing times with
  | nil => exact fun path hpath => absurd hpath List.not_mem_nil
  | cons first prompts ih =>
    unfold Disk.statPromptFiles at h h'
    split at h
    · cases h
    · next file hfile =>
      split at h'
      · cases h'
      · next file' hfile' =>
        obtain ⟨rest, hrest, rfl⟩ := Option.map_eq_some_iff.mp h
        obtain ⟨rest', hrest', heq⟩ := Option.map_eq_some_iff.mp h'
        rw [List.cons.injEq, Prod.mk.injEq] at heq
        obtain ⟨⟨-, htime⟩, rfl⟩ := heq
        intro path hpath
        rcases List.mem_cons.mp hpath with rfl | hpath
        · rw [hfile, hfile', Option.map_some, Option.map_some, htime]
        · exact ih hrest hrest' path hpath

/-- **Where the fingerprint is what it was, on a disk that is steady**, the prompts are. -/
theorem same_of_steady {prompts : List String}
    (hfingerprint : d.fingerprint prompts = d'.fingerprint prompts)
    (hsteady : CronState.Steady d' d prompts) :
    d'.files = d.files ∧ d'.legacy = d.legacy ∧ Same d d' prompts := by
  rw [Disk.fingerprint, Disk.fingerprint, Fingerprint.mk.injEq] at hfingerprint
  obtain ⟨hfiles, hprompts, hlegacy⟩ := hfingerprint
  have hsame : d'.files = d.files :=
    List.eq_of_map_eq hfiles.symm fun entry hentry before hbefore heq =>
      hsteady.files entry hentry before hbefore (Prod.mk.inj heq).1 (Prod.mk.inj heq).2
  refine ⟨hsame, hlegacy.symm, fun path hpath => ?_⟩
  refine (hsteady.contents path hpath ?_).symm
  cases htimes : d'.statPromptFiles prompts with
  | none => exact hsteady.times htimes path hpath
  | some times => exact mtime_eq_of_statPromptFiles htimes (hprompts.trans htimes) path hpath

/-! ## Where nothing is raised -/

theorem loadFile_of_stepsIterable {entry : CronEntry}
    (h : validCronName (stem entry.name) = true → CronState.stepsIterable loader entry = true) :
    ∃ outcome, loader.loadFile d entry = .ok outcome := by
  unfold Loader.loadFile
  cases hname : validCronName (stem entry.name) with
  | false => exact ⟨_, rfl⟩
  | true =>
    rw [if_neg (fun hnot => nomatch hnot)]
    split
    · exact ⟨_, rfl⟩
    · have hiterable := h hname
      unfold CronState.stepsIterable at hiterable
      unfold Loader.failedPointers
      split
      · next body hbody =>
        rw [hbody] at hiterable
        dsimp only at hiterable
        unfold promptPointerEntries
        cases hsteps : steps body with
        | ok items => exact ⟨_, rfl⟩
        | error e =>
          rw [hsteps] at hiterable
          cases hiterable
      · exact ⟨_, rfl⟩

theorem reloadCronSnapshot_of_stepsIterable
    (h : ∀ entry ∈ d.files, validCronName (stem entry.name) = true →
      CronState.stepsIterable loader entry = true) :
    ∃ snapshot, loader.reloadCronSnapshot d = .ok snapshot := by
  have hall : ∀ entries : List CronEntry, (∀ entry ∈ entries,
      validCronName (stem entry.name) = true → CronState.stepsIterable loader entry = true) →
      ∃ outcomes, loader.loadFiles d entries = .ok outcomes := by
    intro entries hentries
    induction entries with
    | nil => exact ⟨[], rfl⟩
    | cons entry entries ih =>
      obtain ⟨outcome, houtcome⟩ :=
        loadFile_of_stepsIterable (d := d) (hentries entry List.mem_cons_self)
      obtain ⟨rest, hrest⟩ := ih fun entry hentry => hentries entry (List.mem_cons_of_mem _ hentry)
      exact ⟨outcome :: rest, by unfold Loader.loadFiles; rw [houtcome, hrest]; rfl⟩
  obtain ⟨outcomes, houtcomes⟩ := hall d.files h
  exact ⟨_, by unfold Loader.reloadCronSnapshot; rw [houtcomes]; rfl⟩

/-! ## What holds in every state -/

namespace CronState

variable {s t : CronState T}

/-- What holds in every state. -/
structure Inv (loader : Loader T) (s : CronState T) : Prop where
  /-- The snapshot is that of the last load, with its fingerprint. -/
  loaded : ∀ fingerprint, s.snapshot.fingerprint = some fingerprint →
    ∃ old, s.loaded = some old ∧ loader.reloadCronSnapshot old = .ok s.snapshot
  fresh : s.Fresh loader

theorem inv_start (disk : Disk) : Inv loader { disk } where
  loaded _ h := nomatch h
  fresh h := nomatch h

theorem fingerprint_of_reload {snapshot : CronSnapshot T}
    (h : loader.reloadCronSnapshot d = .ok snapshot) :
    snapshot.fingerprint = some (d.fingerprint snapshot.prompts) := by
  unfold Loader.reloadCronSnapshot at h
  cases houtcomes : loader.loadFiles d d.files with
  | error e =>
    rw [houtcomes] at h
    cases h
  | ok outcomes =>
    rw [houtcomes] at h
    cases h
    rfl

/-- **What is served without a load** is what a load would give. -/
theorem Inv.served (h : s.Inv loader) (hmeets : s.Meets loader .get)
    (hnot : s.reloads = false) : loader.reloadCronSnapshot s.disk = .ok s.snapshot := by
  have hsame : s.snapshot.fingerprint = some (s.disk.fingerprint s.snapshot.prompts) := by
    unfold reloads at hnot
    exact not_not.mp (of_decide_eq_false hnot)
  obtain ⟨old, hold, hload⟩ := h.loaded _ hsame
  have hsteady := hmeets.2 hnot old hold
  rw [fingerprint_of_reload hload, Option.some.injEq] at hsame
  obtain ⟨hfiles, hlegacy, hprompts⟩ := same_of_steady hsame hsteady
  exact reloadCronSnapshot_congr hload hfiles hlegacy hprompts

/-- **Every step that meets the condition** keeps the answers fresh. -/
theorem Inv.step (h : s.Inv loader) {a : CronAction} (hmeets : s.Meets loader a)
    (hstep : s.step loader a = some t) : t.Inv loader := by
  cases a with
  | change disk =>
    simp only [CronState.step] at hstep
    split at hstep
    · cases hstep
      exact ⟨h.loaded, fun hlooked => nomatch hlooked⟩
    · cases hstep
  | get =>
    simp only [CronState.step] at hstep
    split at hstep
    · split at hstep
      · next e herror =>
        obtain ⟨snapshot, hsnapshot⟩ := reloadCronSnapshot_of_stepsIterable hmeets.1
        rw [herror] at hsnapshot
        cases hsnapshot
      · next snapshot hsnapshot =>
        cases hstep
        exact ⟨fun _ _ => ⟨s.disk, rfl, hsnapshot⟩, fun _ => ⟨snapshot, hsnapshot, rfl⟩⟩
    · next hnot =>
      cases hstep
      exact ⟨h.loaded, fun _ =>
        ⟨s.snapshot, h.served hmeets (Bool.eq_false_iff.mpr hnot), rfl⟩⟩

end CronState

/-! ## The main result -/

/-- **Every call returns what a fresh load gives**, in every run in which the steps of every file
can be walked over, and in which, whenever nothing is loaded, what has its time is what it was, and
no prompt has changed while one is missing. -/
theorem fresh_of_run {disk : Disk} {as : List CronAction} {s : CronState T}
    (hmeets : (CronState.system loader).Guarded (CronState.Meets loader) { disk } as)
    (hrun : (CronState.system loader).run { disk } as = some s) : s.Fresh loader :=
  ((CronState.system loader).run_invariant_of_guarded
    (fun _ _ _ hinv hm hstep => CronState.Inv.step hinv hm hstep)
    (CronState.inv_start disk) hmeets hrun).fresh

/-- A loader for files that hold nothing but a pointer, or a number of steps; a task is its
prompt. -/
def pointerLoader : Loader String where
  repo := "/r"
  cronD := "/h/cron.d"
  legacyFile := "/h/cron.yaml"
  parse text := .ok (.map [if text = "5" then (.str "steps", .int 5)
    else (.str "prompt_file", .str text)])
  expanduser text := text
  localTimezone := "UTC"
  validate _ body :=
    match Yaml.get body "prompt" with
    | some (.str prompt) => .ok prompt
    | _ => .error "task must have exactly one of 'prompt', 'prompt_file', 'steps'"

def twoTasks (prompts : List (String × FileState)) : Disk where
  cronD := some [⟨"a.yaml", true, ⟨.ok "a.md", 1⟩⟩, ⟨"b.yaml", true, ⟨.ok "b.md", 1⟩⟩]
  prompts := prompts

/-- A prompt that is edited, vanishes and comes back is what every call returns. -/
theorem fresh_of_run_edited :
    ∃ s, (CronState.system pointerLoader).run
        { disk := twoTasks [("/r/a.md", ⟨.ok "one", 1⟩), ("/r/b.md", ⟨.ok "two", 1⟩)] }
        [.get, .change (twoTasks [("/r/a.md", ⟨.ok "three", 2⟩), ("/r/b.md", ⟨.ok "two", 1⟩)]),
          .get, .change (twoTasks [("/r/b.md", ⟨.ok "two", 1⟩)]), .get,
          .change (twoTasks [("/r/a.md", ⟨.ok "four", 3⟩), ("/r/b.md", ⟨.ok "two", 1⟩)]),
          .get] = some s
      ∧ s.Fresh pointerLoader := by
  obtain ⟨s, hs⟩ := Option.isSome_iff_exists.mp (show ((CronState.system pointerLoader).run
    { disk := twoTasks [("/r/a.md", ⟨.ok "one", 1⟩), ("/r/b.md", ⟨.ok "two", 1⟩)] }
    [.get, .change (twoTasks [("/r/a.md", ⟨.ok "three", 2⟩), ("/r/b.md", ⟨.ok "two", 1⟩)]), .get,
      .change (twoTasks [("/r/b.md", ⟨.ok "two", 1⟩)]), .get,
      .change (twoTasks [("/r/a.md", ⟨.ok "four", 3⟩), ("/r/b.md", ⟨.ok "two", 1⟩)]),
      .get]).isSome = true by decide +kernel)
  exact ⟨s, hs, fresh_of_run (TransitionSystem.guarded_of_check (by decide +kernel)) hs⟩

/-- What a call returned of the tasks, and what a load gives of them. -/
def tasksSeen (s : CronState String) :
    Bool × Option (List (String × String)) × Option (List (String × String)) :=
  (s.looked, (s.answer.bind Except.toOption).map Prod.fst,
    (pointerLoader.reloadCronSnapshot s.disk).toOption.map CronSnapshot.tasks)

theorem not_fresh_of_tasksSeen {s : CronState String}
    {answered loaded : Option (List (String × String))}
    (h : tasksSeen s = (true, answered, loaded)) (hne : answered = loaded → answered = none) :
    ¬ s.Fresh pointerLoader := by
  intro hfresh
  unfold tasksSeen at h
  rw [Prod.mk.injEq, Prod.mk.injEq] at h
  obtain ⟨hlooked, hanswered, hloaded⟩ := h
  obtain ⟨snapshot, hsnapshot, hanswer⟩ := hfresh hlooked
  rw [hsnapshot] at hloaded
  rw [hanswer] at hanswered
  have hsome : answered = some snapshot.tasks := hanswered.symm
  have hnone := hne (hanswered.symm.trans hloaded)
  rw [hsome] at hnone
  cases hnone

/-- **An edit is not seen while another prompt is missing, and a number of steps makes the call
raise.** -/
theorem not_fresh :
    (∃ s, (CronState.system pointerLoader).run { disk := twoTasks [("/r/b.md", ⟨.ok "two", 1⟩)] }
        [.get, .change (twoTasks [("/r/b.md", ⟨.ok "three", 2⟩)]), .get] = some s
      ∧ ¬ s.Fresh pointerLoader)
    ∧ ∃ s, (CronState.system pointerLoader).run
        { disk := { cronD := some [⟨"c.yaml", true, ⟨.ok "5", 1⟩⟩] } } [.get] = some s
      ∧ s.answer.bind Except.toOption = none ∧ ¬ s.Fresh pointerLoader := by
  constructor
  · have hrun : ((CronState.system pointerLoader).run
        { disk := twoTasks [("/r/b.md", ⟨.ok "two", 1⟩)] }
        [.get, .change (twoTasks [("/r/b.md", ⟨.ok "three", 2⟩)]), .get]).map tasksSeen
        = some (true, some [("b", "two")], some [("b", "three")]) := by
      decide +kernel
    obtain ⟨s, hs, hseen⟩ := Option.map_eq_some_iff.mp hrun
    exact ⟨s, hs, not_fresh_of_tasksSeen hseen (by decide)⟩
  · have hrun : ((CronState.system pointerLoader).run
        { disk := { cronD := some [⟨"c.yaml", true, ⟨.ok "5", 1⟩⟩] } } [.get]).map tasksSeen
        = some (true, none, none) := by
      decide +kernel
    obtain ⟨s, hs, hseen⟩ := Option.map_eq_some_iff.mp hrun
    refine ⟨s, hs, ?_, not_fresh_of_tasksSeen hseen (fun _ => rfl)⟩
    have hnone := congrArg (fun seen => seen.2.1) hseen
    exact Option.map_eq_none_iff.mp hnone

end CronReload
