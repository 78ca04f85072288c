import CharlieBot.Lib.PosixPath
import CharlieBot.Lib.Transition
import Mathlib.Data.List.Nodup

/-!
# The plan registry

A session's plans are kept in one file: of each its versions, the version the
user took off with, and how it was closed. A verb takes the session's lock, loads
the file, finds the plan it is about – by its id, or as the only one that is open
– changes it, and writes the whole registry back; a version is bound to an
artifact file that passes its checks and backs no other version.

Along every run of verbs and reads **the ids of the plans grow, the versions of
each are numbered from one on, a takeoff names the latest of them, no file backs
two versions, a plan that is closed stays as it is, and a verb that fails leaves
the registry as it was** (`PlanRegistry.wellFormed_of_run`). A well-formed registry
is read without errors (`PlanRegistry.errors_readPlans`).
-/

/-- **A version of a plan.** -/
structure PlanVersion where
  v : ℤ
  file : List Char
  createdAt : String
  trigger : String
  base : Json
  note : Option String

/-- The user took off with a version. -/
structure Takeoff where
  v : ℤ
  time : String

structure PlanClosed where
  mode : String
  time : String

/-- **A plan.** -/
structure Plan where
  id : ℤ
  title : String
  versions : List PlanVersion
  takeoff : Option Takeoff := none
  closed : Option PlanClosed := none

namespace PlanRegistry

def planAmendTriggers : List String := ["auto_amend", "feedback"]

def planCloseModes : List String := ["superseded", "abandoned", "completed"]

/-- What a name is shown as in an error. -/
def quoted (s : List Char) : String := String.ofList (Text.reprStr s)

/-! ## States -/

/-- `_derive_state` and its name. -/
def deriveState (closed : Option PlanClosed) (takeoff : Option Takeoff) : Except String String :=
  match closed with
  | some closed =>
    if closed.mode ∈ planCloseModes then .ok closed.mode
    else .error ("unknown closed.as: " ++ quoted closed.mode.toList)
  | none =>
    match takeoff with
    | none => .ok "awaiting approval"
    | some _ => .ok "approved"

def deriveStateStr (plan : Plan) : Except String String :=
  if plan.versions.isEmpty then .error ("plan " ++ toString plan.id ++ " has no versions")
  else deriveState plan.closed plan.takeoff

/-- `read_plans_tolerant`: the plans with their states, and the errors with the ids. -/
def readPlans (plans : List Plan) : List (Plan × String) × List (ℤ × String) :=
  (plans.filterMap fun plan =>
      match deriveStateStr plan with
      | .ok state => some (plan, state)
      | .error _ => none,
    plans.filterMap fun plan =>
      match deriveStateStr plan with
      | .ok _ => none
      | .error msg => some (plan.id, msg))

/-! ## Verbs -/

/-- **What is found out of a file** that is to back a version. -/
structure FileCheck where
  /-- Its path in the session's directory, if it is there. -/
  resolved : Option (List PathPart)
  found : Bool := true
  /-- The assertions it fails, and why. -/
  failures : List (String × String) := []

def findBindingByFile (plans : List Plan) (file : List Char) : Option (ℤ × ℤ) :=
  plans.findSome? fun plan => plan.versions.findSome? fun ver =>
    if PosixPath.normpath ver.file = file then some (plan.id, ver.v) else none

def validateNewVersionFile (check : FileCheck) (file : List Char) (plans : List Plan) :
    Except String (List Char) := do
  let file := PosixPath.normpath file
  match check.resolved with
  | none => throw ("file " ++ quoted file ++ " resolves outside the session directory")
  | some parts =>
    if !check.found then throw ("file " ++ quoted file ++ " not found inside the session directory")
    if !check.failures.isEmpty then
      throw ("plan artifact fails " ++ toString check.failures.length ++ " check assertion(s): "
        ++ String.intercalate "; " (check.failures.map fun o => o.1 ++ ": " ++ o.2)
        ++ ". Recover headroom by folding, per the page-budget rules in the BLOCK KIT comment of "
        ++ "prompts/plan_template.html. Measure locally with: "
        ++ "charliebot artifact check <artifact.html> --genre plan --assertions-only")
    match findBindingByFile plans (PosixPath.asPosix parts) with
    | some (id, v) =>
      throw ("file " ++ quoted file ++ " already bound to plan " ++ toString id ++ " v" ++ toString v)
    | none => return PosixPath.asPosix parts

/-- The largest of some numbers, or a default. -/
def maxD (dflt : ℤ) : List ℤ → ℤ
  | [] => dflt
  | x :: xs => xs.foldl max x

/-- **A plan among the others**: those before it, it, and those behind it. -/
abbrev Target := List Plan × Plan × List Plan

def splitFirst (P : Plan → Bool) : List Plan → Option Target
  | [] => none
  | plan :: rest =>
    if P plan then some ([], plan, rest)
    else (splitFirst P rest).map fun t => (plan :: t.1, t.2.1, t.2.2)

def requirePlan (plans : List Plan) (planId : ℤ) : Except String Target :=
  match splitFirst (fun plan => plan.id = planId) plans with
  | some target => .ok target
  | none => .error ("plan " ++ toString planId ++ " not found in session")

def requireOpenPlan (plans : List Plan) (planId : ℤ) : Except String Target := do
  let target ← requirePlan plans planId
  match target.2.1.closed with
  | some closed =>
    throw ("plan " ++ toString planId ++ " is closed (" ++ quoted closed.mode.toList ++ ")")
  | none => return target

/-- A plan that is neither closed nor approved. -/
def isCandidate (plan : Plan) : Bool := plan.closed.isNone && plan.takeoff.isNone

def onlyCandidate (plans : List Plan) (missing : String) (several : String → String) :
    Except String Target :=
  match plans.filter isCandidate, splitFirst isCandidate plans with
  | [_], some target => .ok target
  | [], _ => .error missing
  | candidates, _ =>
    .error (several (String.intercalate ", " (candidates.map fun plan => toString plan.id)))

def resolveTargetPlanForAmend (plans : List Plan) : Option ℤ → Except String Target
  | some planId => requireOpenPlan plans planId
  | none =>
    onlyCandidate plans "no open lineage to amend; pass --plan to amend an approved one"
      fun ids => "amend requires --plan (multiple open lineages: " ++ ids ++ ")"

def resolveTargetPlanForApprove (plans : List Plan) : Option ℤ → Except String Target
  | some planId => do
    let target ← requireOpenPlan plans planId
    if target.2.1.takeoff.isSome then
      throw ("plan " ++ toString planId ++ " is already approved")
    return target
  | none =>
    onlyCandidate plans "no plan available for approval"
      fun ids => "approve requires --plan (multiple candidates: " ++ ids ++ ")"

/-- **A call of a verb.** -/
inductive PlanCall where
  | present (file : List Char) (title : String) (base : Json)
  | amend (file : List Char) (planId : Option ℤ) (trigger : String) (base : Json)
      (note : Option String)
  | approve (planId : Option ℤ)
  | close (planId : ℤ) (closeAs : String)

structure PlanAnswer where
  plan : ℤ
  v : Option ℤ := none
  state : Except String String

/-- What a verb checks of its arguments before it takes the lock. -/
def checkArguments : PlanCall → Except String Unit
  | .amend _ _ trigger _ note => do
    if trigger ∉ planAmendTriggers then
      throw ("trigger must be one of " ++ String.intercalate "|" planAmendTriggers ++ ", got "
        ++ quoted trigger.toList)
    match note with
    | some note =>
      if (Text.strip note.toList).isEmpty then
        throw ("amend requires a non-empty --note stating why this version differs from its "
          ++ "predecessor")
    | none =>
      throw ("amend requires a non-empty --note stating why this version differs from its "
        ++ "predecessor")
  | .close _ closeAs =>
    if closeAs ∈ planCloseModes then .ok ()
    else .error ("--as must be " ++ String.intercalate "|" planCloseModes ++ ", got "
      ++ quoted closeAs.toList)
  | _ => .ok ()

/-- The registry with a plan changed, and what the verb answers. -/
def change (target : Target) (plan : Plan) (v : Option ℤ) : List Plan × PlanAnswer :=
  (target.1 ++ plan :: target.2.2, { plan := plan.id, v, state := deriveStateStr plan })

/-- **What a verb makes of the registry** it loaded. -/
def applyCall (check : FileCheck) (now : String) (plans : List Plan) :
    PlanCall → Except String (List Plan × PlanAnswer)
  | .present file title base => do
    let file ← validateNewVersionFile check file plans
    let nextId := maxD 0 (plans.map Plan.id) + 1
    let plan : Plan := {
      id := nextId, title,
      versions := [{ v := 1, file, createdAt := now, trigger := "initial", base, note := none }] }
    return (plans ++ [plan], { plan := nextId, v := some 1, state := deriveStateStr plan })
  | .amend file planId trigger base note => do
    let file ← validateNewVersionFile check file plans
    let target ← resolveTargetPlanForAmend plans planId
    let plan := target.2.1
    if plan.versions.isEmpty then throw "max() iterable argument is empty"
    let newV := maxD 0 (plan.versions.map PlanVersion.v) + 1
    let version := { v := newV, file, createdAt := now, trigger, base, note }
    return change target { plan with versions := plan.versions ++ [version], takeoff := none } newV
  | .approve planId => do
    let target ← resolveTargetPlanForApprove plans planId
    let plan := target.2.1
    match plan.versions.getLast? with
    | none => throw "list index out of range"
    | some latest =>
      return change target { plan with takeoff := some { v := latest.v, time := now } } latest.v
  | .close planId closeAs => do
    let target ← requirePlan plans planId
    let plan := target.2.1
    match plan.closed with
    | some closed =>
      throw ("plan " ++ toString planId ++ " is already closed (" ++ quoted closed.mode.toList
        ++ ")")
    | none => return change target { plan with closed := some { mode := closeAs, time := now } } none

/-! ## Runs -/

/-- **A verb that holds the lock**, with the registry it loaded. -/
structure PlanVerb where
  call : PlanCall
  loaded : List Plan

/-- **A verb that failed**, with the registry before and after it. -/
structure FailedVerb where
  before : List Plan
  after : List Plan

end PlanRegistry

open PlanRegistry in
/-- **The state**: the stored registry, and the verb that holds the session's lock. -/
structure PlanRegistry where
  stored : List Plan := []
  holder : Option PlanVerb := none
  answers : List PlanAnswer := []
  failed : List FailedVerb := []
  /-- What was served to reads. -/
  listed : List (List (Plan × String) × List (ℤ × String)) := []

namespace PlanRegistry

inductive PlanAction where
  /-- A verb is called: its arguments are checked, and it takes the lock and loads. -/
  | begin (call : PlanCall)
  /-- The registry cannot be loaded. -/
  | loadFails (call : PlanCall)
  /-- The verb that holds the lock finds out about its file, and saves, or fails to. -/
  | finish (check : FileCheck) (now : String) (saved : Bool)
  | list

def step (s : PlanRegistry) : PlanAction → Option PlanRegistry
  | .begin call =>
    match checkArguments call with
    | .error _ => some { s with failed := ⟨s.stored, s.stored⟩ :: s.failed }
    | .ok () =>
      match s.holder with
      | some _ => none
      | none => some { s with holder := some { call, loaded := s.stored } }
  | .loadFails _ =>
    match s.holder with
    | some _ => none
    | none => some { s with failed := ⟨s.stored, s.stored⟩ :: s.failed }
  | .finish check now saved => do
    let verb ← s.holder
    match applyCall check now verb.loaded verb.call with
    | .ok (plans, answer) =>
      if saved then some { s with stored := plans, holder := none, answers := answer :: s.answers }
      else some { s with holder := none, failed := ⟨verb.loaded, s.stored⟩ :: s.failed }
    | .error _ => some { s with holder := none, failed := ⟨verb.loaded, s.stored⟩ :: s.failed }
  | .list => some { s with listed := readPlans s.stored :: s.listed }

def system : TransitionSystem PlanRegistry PlanAction := ⟨step⟩

/-! ## Well-formed registries -/

/-- **A plan is well formed**: its versions are numbered from one on, a takeoff names the
latest one, and it was closed in one of the ways there are. -/
structure WellFormedPlan (plan : Plan) : Prop where
  versions : plan.versions ≠ []
  numbered : plan.versions.map PlanVersion.v
    = (List.range plan.versions.length).map fun k : ℕ => (k : ℤ) + 1
  takeoff : ∀ takeoff, plan.takeoff = some takeoff →
    plan.versions.getLast?.map PlanVersion.v = some takeoff.v
  closed : ∀ closed, plan.closed = some closed → closed.mode ∈ planCloseModes

def filesOf (plan : Plan) : List (List Char) := plan.versions.map PlanVersion.file

/-- **A registry is well formed**: the ids grow, every plan is well formed, and no file backs
two versions. -/
structure WellFormed (plans : List Plan) : Prop where
  ids : (plans.map Plan.id).Pairwise (· < ·)
  plan : ∀ plan ∈ plans, WellFormedPlan plan
  files : (plans.flatMap filesOf).Nodup
  resolved : ∀ file ∈ plans.flatMap filesOf, ∃ parts, file = PosixPath.asPosix parts

variable {plans : List Plan} {plan : Plan}

theorem WellFormed.nil : WellFormed [] :=
  ⟨List.Pairwise.nil, fun _ h => absurd h List.not_mem_nil, List.nodup_nil,
    fun _ h => absurd h List.not_mem_nil⟩

theorem deriveStateStr_of_wellFormed (h : WellFormedPlan plan) :
    ∃ state, deriveStateStr plan = .ok state := by
  unfold deriveStateStr deriveState
  rw [if_neg (by simp [h.versions])]
  cases hclosed : plan.closed with
  | some closed => exact ⟨closed.mode, if_pos (h.closed closed hclosed)⟩
  | none =>
    cases plan.takeoff with
    | none => exact ⟨_, rfl⟩
    | some takeoff => exact ⟨_, rfl⟩

/-- **A well-formed registry is read without errors.** -/
theorem errors_readPlans (h : WellFormed plans) : (readPlans plans).2 = [] := by
  refine List.filterMap_eq_nil_iff.mpr fun plan hplan => ?_
  obtain ⟨state, hstate⟩ := deriveStateStr_of_wellFormed (h.plan plan hplan)
  rw [hstate]

/-! ### Numbers -/

theorem le_foldl_max (xs : List ℤ) (x : ℤ) : x ≤ xs.foldl max x := by
  induction xs generalizing x with
  | nil => exact Int.le_refl x
  | cons y ys ih => exact Int.le_trans (Int.le_max_left x y) (ih (max x y))

theorem le_foldl_max_of_mem {xs : List ℤ} {x y : ℤ} (h : y ∈ xs) : y ≤ xs.foldl max x := by
  induction xs generalizing x with
  | nil => exact absurd h List.not_mem_nil
  | cons z zs ih =>
    cases List.mem_cons.mp h with
    | inl heq =>
      subst heq
      exact Int.le_trans (Int.le_max_right x y) (le_foldl_max zs _)
    | inr hmem => exact ih hmem

theorem le_maxD {dflt : ℤ} {xs : List ℤ} {y : ℤ} (h : y ∈ xs) : y ≤ maxD dflt xs := by
  cases xs with
  | nil => exact absurd h List.not_mem_nil
  | cons x xs =>
    cases List.mem_cons.mp h with
    | inl heq =>
      subst heq
      exact le_foldl_max xs y
    | inr hmem => exact le_foldl_max_of_mem hmem

theorem foldl_max_le {xs : List ℤ} {x b : ℤ} (hx : x ≤ b) (h : ∀ y ∈ xs, y ≤ b) :
    xs.foldl max x ≤ b := by
  induction xs generalizing x with
  | nil => exact hx
  | cons y ys ih =>
    exact ih (Int.max_le.mpr ⟨hx, h y List.mem_cons_self⟩) fun z hz =>
      h z (List.mem_cons_of_mem _ hz)

theorem maxD_range {n : ℕ} (h : 0 < n) :
    maxD 0 ((List.range n).map fun k : ℕ => (k : ℤ) + 1) = n := by
  have hlast : (n : ℤ) ∈ (List.range n).map fun k : ℕ => (k : ℤ) + 1 :=
    List.mem_map.mpr ⟨n - 1, List.mem_range.mpr (by omega), by omega⟩
  refine Int.le_antisymm ?_ (le_maxD hlast)
  have hall : ∀ y ∈ (List.range n).map fun k : ℕ => (k : ℤ) + 1, y ≤ (n : ℤ) := by
    intro y hy
    obtain ⟨k, hk, rfl⟩ := List.mem_map.mp hy
    have := List.mem_range.mp hk
    omega
  cases hxs : (List.range n).map fun k : ℕ => (k : ℤ) + 1 with
  | nil =>
    rw [hxs] at hlast
    exact absurd hlast List.not_mem_nil
  | cons x xs =>
    rw [hxs] at hall
    exact foldl_max_le (hall x List.mem_cons_self) fun y hy => hall y (List.mem_cons_of_mem _ hy)

/-! ### Finding a plan -/

variable {target : Target} {file : List Char}

theorem eq_of_splitFirst {P : Plan → Bool} (h : splitFirst P plans = some target) :
    plans = target.1 ++ target.2.1 :: target.2.2 ∧ P target.2.1 = true := by
  induction plans generalizing target with
  | nil => cases h
  | cons plan rest ih =>
    unfold splitFirst at h
    split at h
    next hP =>
      cases h
      exact ⟨rfl, hP⟩
    next =>
      obtain ⟨t, ht, rfl⟩ := Option.map_eq_some_iff.mp h
      obtain ⟨hrest, hP⟩ := ih ht
      exact ⟨congrArg (plan :: ·) hrest, hP⟩

/-- The plan stands in the registry. -/
def Found (plans : List Plan) (target : Target) : Prop :=
  plans = target.1 ++ target.2.1 :: target.2.2

theorem exists_of_bind_ok {α β : Type} {x : Except String α} {f : α → Except String β} {b : β}
    (h : x >>= f = .ok b) : ∃ a, x = .ok a ∧ f a = .ok b := by
  cases x with
  | error msg => cases h
  | ok a => exact ⟨a, rfl, h⟩

theorem found_of_requirePlan {planId : ℤ} (h : requirePlan plans planId = .ok target) :
    Found plans target := by
  unfold requirePlan at h
  split at h
  next found hfound =>
    cases h
    exact (eq_of_splitFirst hfound).1
  next => cases h

theorem found_of_requireOpenPlan {planId : ℤ} (h : requireOpenPlan plans planId = .ok target) :
    Found plans target ∧ target.2.1.closed = none := by
  obtain ⟨found, hplan, h⟩ := exists_of_bind_ok h
  split at h
  next => cases h
  next hclosed =>
    cases h
    exact ⟨found_of_requirePlan hplan, hclosed⟩

theorem found_of_onlyCandidate {missing : String} {several : String → String}
    (h : onlyCandidate plans missing several = .ok target) :
    Found plans target ∧ target.2.1.closed = none := by
  unfold onlyCandidate at h
  split at h
  next found hfound =>
    cases h
    obtain ⟨hplans, hcandidate⟩ := eq_of_splitFirst hfound
    refine ⟨hplans, ?_⟩
    unfold isCandidate at hcandidate
    exact Option.isNone_iff_eq_none.mp (Bool.and_eq_true_iff.mp hcandidate).1
  next => cases h
  next => cases h

theorem found_of_amend {planId : Option ℤ} (h : resolveTargetPlanForAmend plans planId = .ok target) :
    Found plans target ∧ target.2.1.closed = none := by
  cases planId with
  | some planId => exact found_of_requireOpenPlan h
  | none =>
    unfold resolveTargetPlanForAmend at h
    exact found_of_onlyCandidate h

theorem found_of_approve {planId : Option ℤ}
    (h : resolveTargetPlanForApprove plans planId = .ok target) :
    Found plans target ∧ target.2.1.closed = none := by
  cases planId with
  | some planId =>
    unfold resolveTargetPlanForApprove at h
    obtain ⟨found, hplan, h⟩ := exists_of_bind_ok h
    dsimp only at h
    split at h
    next => cases h
    next =>
      cases h
      exact found_of_requireOpenPlan hplan
  | none =>
    unfold resolveTargetPlanForApprove at h
    exact found_of_onlyCandidate h

/-! ### Binding a file -/

theorem not_mem_of_findBindingByFile (h : WellFormed plans)
    (hfind : findBindingByFile plans file = none) : file ∉ plans.flatMap filesOf := by
  intro hmem
  obtain ⟨plan, hplan, hfile⟩ := List.mem_flatMap.mp hmem
  obtain ⟨ver, hver, heq⟩ := List.mem_map.mp hfile
  have hnone := List.findSome?_eq_none_iff.mp (List.findSome?_eq_none_iff.mp hfind plan hplan) ver hver
  obtain ⟨parts, hparts⟩ := h.resolved file hmem
  rw [heq, hparts, PosixPath.normpath_asPosix, if_pos rfl] at hnone
  cases hnone

/-- **A file that may back a new version** backs no other one. -/
theorem fresh_of_validate {check : FileCheck} {named : List Char} (h : WellFormed plans)
    (hfile : validateNewVersionFile check named plans = .ok file) :
    (∃ parts, file = PosixPath.asPosix parts) ∧ file ∉ plans.flatMap filesOf := by
  unfold validateNewVersionFile at hfile
  cases hresolved : check.resolved with
  | none =>
    rw [hresolved] at hfile
    cases hfile
  | some parts =>
    rw [hresolved] at hfile
    dsimp only at hfile
    cases hfound : check.found with
    | false =>
      rw [hfound] at hfile
      cases hfile
    | true =>
      cases hfailures : check.failures.isEmpty with
      | false =>
        rw [hfound, hfailures] at hfile
        cases hfile
      | true =>
        rw [hfound, hfailures] at hfile
        cases hfind : findBindingByFile plans (PosixPath.asPosix parts) with
        | some bound =>
          rw [hfind] at hfile
          cases hfile
        | none =>
          rw [hfind] at hfile
          cases hfile
          exact ⟨⟨parts, rfl⟩, not_mem_of_findBindingByFile h hfind⟩

/-! ### What a verb makes of the registry -/

/-- **A plan is added** behind the others. -/
theorem WellFormed.concat (h : WellFormed plans) (hid : ∀ p ∈ plans, p.id < plan.id)
    (hplan : WellFormedPlan plan) (hnodup : (filesOf plan).Nodup)
    (hfresh : ∀ file ∈ filesOf plan, file ∉ plans.flatMap filesOf)
    (hresolved : ∀ file ∈ filesOf plan, ∃ parts, file = PosixPath.asPosix parts) :
    WellFormed (plans ++ [plan]) := by
  have hflat : (plans ++ [plan]).flatMap filesOf = plans.flatMap filesOf ++ filesOf plan := by
    rw [List.flatMap_append, List.flatMap_singleton]
  refine ⟨?_, fun p hp => ?_, ?_, fun file hfile => ?_⟩
  · rw [List.map_append, List.map_singleton]
    refine List.pairwise_append.mpr ⟨h.ids, List.pairwise_singleton _ _, fun x hx y hy => ?_⟩
    obtain ⟨p, hp, rfl⟩ := List.mem_map.mp hx
    rw [List.mem_singleton.mp hy]
    exact hid p hp
  · cases List.mem_append.mp hp with
    | inl hp => exact h.plan p hp
    | inr hp =>
      rw [List.mem_singleton.mp hp]
      exact hplan
  · rw [hflat]
    exact List.Nodup.append h.files hnodup fun file hfile hnew => hfresh file hnew hfile
  · rw [hflat] at hfile
    cases List.mem_append.mp hfile with
    | inl hfile => exact h.resolved file hfile
    | inr hfile => exact hresolved file hfile

/-- **A plan is changed** where it stands: it keeps its id and its files, and gets new ones. -/
theorem WellFormed.replace {before behind : List Plan} {old : Plan} {new : List (List Char)}
    (h : WellFormed (before ++ old :: behind)) (hid : plan.id = old.id) (hplan : WellFormedPlan plan)
    (hfiles : filesOf plan = filesOf old ++ new) (hnodup : new.Nodup)
    (hfresh : ∀ file ∈ new, file ∉ (before ++ old :: behind).flatMap filesOf)
    (hresolved : ∀ file ∈ new, ∃ parts, file = PosixPath.asPosix parts) :
    WellFormed (before ++ plan :: behind) := by
  have hperm : ((before ++ plan :: behind).flatMap filesOf).Perm
      ((before ++ old :: behind).flatMap filesOf ++ new) := by
    rw [List.flatMap_append, List.flatMap_append, List.flatMap_cons, List.flatMap_cons, hfiles]
    simp only [List.append_assoc]
    exact (List.perm_append_comm.append_left _).append_left _
  refine ⟨?_, fun p hp => ?_, ?_, fun file hfile => ?_⟩
  · have hids : (before ++ plan :: behind).map Plan.id = (before ++ old :: behind).map Plan.id := by
      simp [hid]
    rw [hids]
    exact h.ids
  · cases List.mem_append.mp hp with
    | inl hp => exact h.plan p (List.mem_append_left _ hp)
    | inr hp =>
      cases List.mem_cons.mp hp with
      | inl heq =>
        rw [heq]
        exact hplan
      | inr hp => exact h.plan p (List.mem_append_right _ (List.mem_cons_of_mem _ hp))
  · rw [hperm.nodup_iff]
    exact List.Nodup.append h.files hnodup fun file hfile hnew => hfresh file hnew hfile
  · cases List.mem_append.mp (hperm.mem_iff.mp hfile) with
    | inl hfile => exact h.resolved file hfile
    | inr hfile => exact hresolved file hfile

theorem closed_kept {before behind : List Plan} {old p : Plan} (hopen : old.closed = none)
    (hp : p ∈ before ++ old :: behind) (hclosed : p.closed ≠ none) : p ∈ before ++ plan :: behind := by
  cases List.mem_append.mp hp with
  | inl hp => exact List.mem_append_left _ hp
  | inr hp =>
    cases List.mem_cons.mp hp with
    | inl heq =>
      subst heq
      exact absurd hopen hclosed
    | inr hp => exact List.mem_append_right _ (List.mem_cons_of_mem _ hp)

theorem wellFormedPlan_present (id : ℤ) (title : String) (version : PlanVersion)
    (hv : version.v = 1) : WellFormedPlan { id, title, versions := [version] } := by
  refine ⟨List.cons_ne_nil _ _, ?_, nofun, nofun⟩
  show [version.v] = [((0 : ℕ) : ℤ) + 1]
  rw [hv]
  rfl

/-- **One more version** has the next number, and the plan is not approved any more. -/
theorem WellFormedPlan.amend (h : WellFormedPlan plan) {version : PlanVersion}
    (hv : version.v = maxD 0 (plan.versions.map PlanVersion.v) + 1) :
    WellFormedPlan { plan with versions := plan.versions ++ [version], takeoff := none } := by
  have hpos : 0 < plan.versions.length := List.length_pos_iff.mpr h.versions
  refine ⟨by simp, ?_, nofun, h.closed⟩
  show (plan.versions ++ [version]).map PlanVersion.v
    = (List.range (plan.versions ++ [version]).length).map fun k : ℕ => (k : ℤ) + 1
  rw [List.map_append, List.map_singleton, hv, h.numbered, maxD_range hpos, List.length_append,
    List.length_singleton, List.range_succ, List.map_append, List.map_singleton]

/-- **The user takes off** with the latest version. -/
theorem WellFormedPlan.approve (h : WellFormedPlan plan) {latest : PlanVersion} {now : String}
    (hlatest : plan.versions.getLast? = some latest) :
    WellFormedPlan { plan with takeoff := some { v := latest.v, time := now } } := by
  refine ⟨h.versions, h.numbered, fun takeoff htakeoff => ?_, h.closed⟩
  cases htakeoff
  show plan.versions.getLast?.map PlanVersion.v = some latest.v
  rw [hlatest]
  rfl

theorem WellFormedPlan.close (h : WellFormedPlan plan) {mode now : String}
    (hmode : mode ∈ planCloseModes) :
    WellFormedPlan { plan with closed := some { mode, time := now } } := by
  refine ⟨h.versions, h.numbered, h.takeoff, fun closed hclosed => ?_⟩
  cases hclosed
  exact hmode

theorem mode_of_checkArguments {planId : ℤ} {closeAs : String}
    (h : checkArguments (.close planId closeAs) = .ok ()) : closeAs ∈ planCloseModes := by
  simp only [checkArguments] at h
  split at h
  next hmode => exact hmode
  next => cases h

/-- **A verb that succeeds leaves a well-formed registry**, and every plan that was closed. -/
theorem wellFormed_applyCall {call : PlanCall} {check : FileCheck} {now : String}
    {plans' : List Plan} {answer : PlanAnswer} (h : WellFormed plans)
    (hargs : checkArguments call = .ok ()) (hcall : applyCall check now plans call = .ok (plans', answer)) :
    WellFormed plans' ∧ ∀ p ∈ plans, p.closed ≠ none → p ∈ plans' := by
  cases call with
  | present named title base =>
    unfold applyCall at hcall
    obtain ⟨file, hfile, hcall⟩ := exists_of_bind_ok hcall
    cases hcall
    obtain ⟨hresolved, hfresh⟩ := fresh_of_validate h hfile
    refine ⟨h.concat (fun p hp => ?_) (wellFormedPlan_present _ _ _ rfl) (List.nodup_singleton _)
      (fun f hf => ?_) fun f hf => ?_, fun p hp _ => List.mem_append_left _ hp⟩
    · have hle := @le_maxD 0 _ _ (List.mem_map.mpr ⟨p, hp, rfl⟩ : p.id ∈ plans.map Plan.id)
      show p.id < maxD 0 (plans.map Plan.id) + 1
      omega
    · rw [List.mem_singleton.mp hf]
      exact hfresh
    · rw [List.mem_singleton.mp hf]
      exact hresolved
  | amend named planId trigger base note =>
    unfold applyCall at hcall
    obtain ⟨file, hfile, hcall⟩ := exists_of_bind_ok hcall
    obtain ⟨⟨before, old, behind⟩, htarget, hcall⟩ := exists_of_bind_ok hcall
    obtain ⟨hfound, hopen⟩ := found_of_amend htarget
    dsimp only at hcall hopen
    split at hcall
    next => cases hcall
    next =>
      cases hcall
      obtain ⟨hresolved, hfresh⟩ := fresh_of_validate h hfile
      have hplans : plans = before ++ old :: behind := hfound
      subst hplans
      have hold := h.plan old (List.mem_append_right _ List.mem_cons_self)
      refine ⟨@WellFormed.replace _ _ _ _ [file] h rfl (hold.amend rfl) ?_ (List.nodup_singleton _)
        (fun f hf => ?_) fun f hf => ?_, fun p hp hclosed => closed_kept hopen hp hclosed⟩
      · exact List.map_append
      · rw [List.mem_singleton.mp hf]
        exact hfresh
      · rw [List.mem_singleton.mp hf]
        exact hresolved
  | approve planId =>
    unfold applyCall at hcall
    obtain ⟨⟨before, old, behind⟩, htarget, hcall⟩ := exists_of_bind_ok hcall
    obtain ⟨hfound, hopen⟩ := found_of_approve htarget
    dsimp only at hcall hopen
    split at hcall
    next => cases hcall
    next latest hlatest =>
      cases hcall
      have hplans : plans = before ++ old :: behind := hfound
      subst hplans
      have hold := h.plan old (List.mem_append_right _ List.mem_cons_self)
      exact ⟨@WellFormed.replace _ _ _ _ [] h rfl (hold.approve hlatest) (List.append_nil _).symm List.nodup_nil
        (fun f hf => absurd hf List.not_mem_nil) fun f hf => absurd hf List.not_mem_nil,
        fun p hp hclosed => closed_kept hopen hp hclosed⟩
  | close planId closeAs =>
    unfold applyCall at hcall
    obtain ⟨⟨before, old, behind⟩, htarget, hcall⟩ := exists_of_bind_ok hcall
    have hfound := found_of_requirePlan htarget
    dsimp only at hcall
    split at hcall
    next => cases hcall
    next hopen =>
      cases hcall
      have hplans : plans = before ++ old :: behind := hfound
      subst hplans
      have hold := h.plan old (List.mem_append_right _ List.mem_cons_self)
      exact ⟨@WellFormed.replace _ _ _ _ [] h rfl (hold.close (mode_of_checkArguments hargs))
        (List.append_nil _).symm List.nodup_nil (fun f hf => absurd hf List.not_mem_nil)
        fun f hf => absurd hf List.not_mem_nil, fun p hp hclosed => closed_kept hopen hp hclosed⟩

/-! ### Every run -/

/-- **What holds of a state**: the verb that holds the lock has loaded what is stored. -/
structure Inv (s : PlanRegistry) : Prop where
  stored : WellFormed s.stored
  holder : ∀ verb, s.holder = some verb →
    verb.loaded = s.stored ∧ checkArguments verb.call = .ok ()
  failed : ∀ verb ∈ s.failed, verb.before = verb.after
  listed : ∀ rows ∈ s.listed, rows.2 = []

variable {s t : PlanRegistry}

theorem Inv.fail (h : Inv s) (holder : Option PlanVerb)
    (hholder : ∀ verb, holder = some verb → verb.loaded = s.stored ∧ checkArguments verb.call = .ok ())
    (before : List Plan) (hbefore : before = s.stored) :
    Inv { s with holder, failed := ⟨before, s.stored⟩ :: s.failed } := by
  refine ⟨h.stored, hholder, fun verb hverb => ?_, h.listed⟩
  cases List.mem_cons.mp hverb with
  | inl heq =>
    rw [heq]
    exact hbefore
  | inr hverb => exact h.failed verb hverb

/-- **Every step keeps the invariant**, and every plan that is closed. -/
theorem Inv.step {a : PlanAction} (h : Inv s) (hstep : s.step a = some t) :
    Inv t ∧ ∀ p ∈ s.stored, p.closed ≠ none → p ∈ t.stored := by
  cases a with
  | begin call =>
    unfold PlanRegistry.step at hstep
    dsimp only at hstep
    split at hstep
    next =>
      cases hstep
      exact ⟨h.fail s.holder h.holder s.stored rfl, fun p hp _ => hp⟩
    next hargs =>
      split at hstep
      next => cases hstep
      next =>
        cases hstep
        refine ⟨⟨h.stored, fun verb hverb => ?_, h.failed, h.listed⟩, fun p hp _ => hp⟩
        cases hverb
        exact ⟨rfl, hargs⟩
  | loadFails call =>
    unfold PlanRegistry.step at hstep
    dsimp only at hstep
    split at hstep
    next => cases hstep
    next hnone =>
      cases hstep
      refine ⟨h.fail s.holder h.holder s.stored rfl, fun p hp _ => hp⟩
  | finish check now saved =>
    unfold PlanRegistry.step at hstep
    obtain ⟨verb, hverb, hstep⟩ := Option.bind_eq_some_iff.mp hstep
    obtain ⟨hloaded, hargs⟩ := h.holder verb hverb
    split at hstep
    next plans answer hcall =>
      split at hstep
      next =>
        cases hstep
        rw [hloaded] at hcall
        obtain ⟨hwell, hkept⟩ := wellFormed_applyCall h.stored hargs hcall
        exact ⟨⟨hwell, nofun, h.failed, h.listed⟩, hkept⟩
      next =>
        cases hstep
        exact ⟨h.fail none nofun verb.loaded hloaded, fun p hp _ => hp⟩
    next =>
      cases hstep
      exact ⟨h.fail none nofun verb.loaded hloaded, fun p hp _ => hp⟩
  | list =>
    unfold PlanRegistry.step at hstep
    cases hstep
    refine ⟨⟨h.stored, h.holder, h.failed, fun rows hrows => ?_⟩, fun p hp _ => hp⟩
    cases List.mem_cons.mp hrows with
    | inl heq =>
      rw [heq]
      exact errors_readPlans h.stored
    | inr hrows => exact h.listed rows hrows

theorem Inv.initial : Inv {} :=
  ⟨WellFormed.nil, nofun, fun _ h => absurd h List.not_mem_nil, fun _ h => absurd h List.not_mem_nil⟩

theorem Inv.run {as : List PlanAction} (h : Inv s) (hrun : system.run s as = some t) : Inv t :=
  TransitionSystem.run_invariant system (fun _ _ _ hinv hstep => (hinv.step hstep).1) h as hrun

theorem closed_of_run {as : List PlanAction} {p : Plan} (h : Inv s)
    (hrun : system.run s as = some t) (hp : p ∈ s.stored) (hclosed : p.closed ≠ none) :
    p ∈ t.stored :=
  (TransitionSystem.run_invariant system (I := fun u => Inv u ∧ p ∈ u.stored)
    (fun _ _ _ hinv hstep => ⟨(hinv.1.step hstep).1, (hinv.1.step hstep).2 p hinv.2 hclosed⟩)
    ⟨h, hp⟩ as hrun).2

/-- **The registry stays well formed** along every run, every plan that is closed stays as it
is, and every verb that failed left the registry as it was. -/
theorem wellFormed_of_run {as bs : List PlanAction} (hs : system.run {} as = some s)
    (ht : system.run s bs = some t) :
    WellFormed t.stored ∧ (∀ p ∈ s.stored, p.closed ≠ none → p ∈ t.stored)
      ∧ ∀ verb ∈ t.failed, verb.before = verb.after := by
  have hinv := Inv.initial.run hs
  exact ⟨(hinv.run ht).stored, fun p hp hclosed => closed_of_run hinv ht hp hclosed,
    (hinv.run ht).failed⟩

theorem singleton_ne_nil (c : Char) : [c] ≠ [] :=
  List.cons_ne_nil _ _

theorem singleton_ne_dots (c : Char) : [c] ≠ ['.', '.'] := by
  simp

theorem no_slash {c : Char} (h : [c] ≠ ['.'] ∧ '/' ∉ [c]) : '/' ∉ [c] :=
  h.2

/-- A file in the session's directory. -/
def artifact (c : Char) (h : [c] ≠ ['.'] ∧ '/' ∉ [c]) : FileCheck where
  resolved := some [⟨[c], singleton_ne_nil c, h.1, singleton_ne_dots c, no_slash h⟩]

/-- A plan is presented and closed; while it is being presented the list is read. -/
def presentAndClose : List PlanAction :=
  [.begin (.present "a".toList "first" .null), .list, .finish (artifact 'a' (by decide)) "t0" true,
    .begin (.close 1 "completed"), .finish (artifact 'a' (by decide)) "t1" true]

/-- Its file cannot back another plan, and it cannot be amended; another plan can be presented,
amended and approved. -/
def secondPlan : List PlanAction :=
  [.begin (.present "./a".toList "again" .null), .finish (artifact 'a' (by decide)) "t2" true,
    .begin (.amend "b".toList (some 1) "feedback" .null (some "n")),
    .finish (artifact 'b' (by decide)) "t3" true,
    .begin (.present "b".toList "second" .null), .finish (artifact 'b' (by decide)) "t4" true,
    .begin (.amend "c".toList none "feedback" .null (some "n")),
    .finish (artifact 'c' (by decide)) "t5" true, .begin (.approve none),
    .finish (artifact 'c' (by decide)) "t6" true]

theorem wellFormed_of_run_secondPlan : ∃ s t, system.run {} presentAndClose = some s
    ∧ system.run s secondPlan = some t ∧ WellFormed t.stored
    ∧ t.stored.map (fun p => (p.id, p.versions.length)) = [(1, 1), (2, 2)] ∧ t.failed.length = 2 := by
  have hfirst : (system.run {} presentAndClose).isSome = true := by decide +kernel
  obtain ⟨s, hs⟩ := Option.isSome_iff_exists.mp hfirst
  have hsecond : (system.run {} (presentAndClose ++ secondPlan)).map (fun t =>
      (t.stored.map fun p => (p.id, p.versions.length), t.failed.length))
      = some ([(1, 1), (2, 2)], 2) := by decide +kernel
  rw [TransitionSystem.run_append, hs, Option.bind_some] at hsecond
  obtain ⟨t, ht, hstate⟩ := Option.map_eq_some_iff.mp hsecond
  rw [Prod.mk.injEq] at hstate
  exact ⟨s, t, hs, ht, (wellFormed_of_run hs ht).1, hstate.1, hstate.2⟩

end PlanRegistry
