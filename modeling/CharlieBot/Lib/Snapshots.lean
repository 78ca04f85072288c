import CharlieBot.Lib.Resume
import Mathlib.Data.List.Induction

/-!
# Machines that remember snapshots

Some producers repeat a text as it grows: every input carries all of it, a
*snapshot*, under the name of a cell. A machine that passes on only what is
new remembers the last snapshot of every cell and emits what the new one
adds.

`resumes_iff` is what such a machine loses when it is stopped and a fresh
one goes on: for every cell the first snapshot behind the stop is emitted as
if it were the first of all. The two together emit what one machine would
have emitted exactly when, at each cell remembered at the stop, that makes no
difference.
-/

variable {κ υ α β : Type*}

inductive Touch (κ υ β : Type*) where
  /-- It is emitted, whatever is remembered. -/
  | emit (out : List β)
  | snapshot (cell : κ) (value : υ)
  /-- It makes a cell forgotten. -/
  | erase (cell : κ)

/-- What is remembered of a cell afterwards, where the touch decides it. -/
def Touch.on [DecidableEq κ] (cell : κ) : Touch κ υ β → Option (Option υ)
  | .emit _ => none
  | .snapshot c value => if c = cell then some (some value) else none
  | .erase c => if c = cell then some none else none

/-- **A reader of snapshots.** -/
structure Snapshots (κ υ α β : Type*) where
  /-- What an input does; none where reading it fails. -/
  touch : α → Option (Touch κ υ β)
  /-- What a snapshot of a cell emits, against the one remembered. -/
  render : κ → Option υ → υ → List β

namespace Snapshots

variable [DecidableEq κ]

/-- What is emitted, and what is remembered then. -/
def apply (S : Snapshots κ υ α β) (store : κ → Option υ) :
    Touch κ υ β → (κ → Option υ) × List β
  | .emit out => (store, out)
  | .snapshot cell value =>
    (Function.update store cell (some value), S.render cell (store cell) value)
  | .erase cell => (Function.update store cell none, [])

/-- The machine over the remembered snapshots. -/
def machine (S : Snapshots κ υ α β) : Machine (κ → Option υ) α β :=
  ⟨fun store a => (S.touch a).map (S.apply store)⟩

/-- **The first touch of a cell** by a list of inputs, read up to a failure:
the snapshot it was given, or none where it was made forgotten. -/
def firstTouch (S : Snapshots κ υ α β) (cell : κ) : List α → Option (Option υ)
  | [] => none
  | a :: as => (S.touch a).bind fun touch => (touch.on cell).or (S.firstTouch cell as)

/-- **The snapshot remembered of a cell** behind a list of inputs: the one of
its last touch. -/
def remembered (S : Snapshots κ υ α β) (cell : κ) (as : List α) : Option υ :=
  (S.firstTouch cell as.reverse).join

/-- Nothing is remembered. -/
def empty : κ → Option υ := fun _ => none

/-- What the first store remembers, the second remembers as well or not at
all. -/
def Lags (store fresh : κ → Option υ) : Prop :=
  ∀ cell, fresh cell = store cell ∨ fresh cell = none

variable {S : Snapshots κ υ α β}

theorem machine_step (S : Snapshots κ υ α β) (store : κ → Option υ) (a : α) :
    S.machine.step store a = (S.touch a).map (S.apply store) := rfl

theorem machine_step_of_some {a : α} {touch : Touch κ υ β} (h : S.touch a = some touch)
    (store : κ → Option υ) : S.machine.step store a = some (S.apply store touch) := by
  rw [machine_step, h, Option.map_some]

theorem apply_fst (S : Snapshots κ υ α β) (store : κ → Option υ) (touch : Touch κ υ β)
    (cell : κ) : (S.apply store touch).1 cell = (touch.on cell).getD (store cell) := by
  cases touch with
  | emit out => rfl
  | snapshot c value =>
    show Function.update store c (some value) cell
      = (if c = cell then some (some value) else none).getD (store cell)
    by_cases hc : c = cell
    · rw [hc, Function.update_self, if_pos rfl, Option.getD_some]
    · rw [Function.update_of_ne (Ne.symm hc), if_neg hc, Option.getD_none]
  | erase c =>
    show Function.update store c none cell
      = (if c = cell then some none else none).getD (store cell)
    by_cases hc : c = cell
    · rw [hc, Function.update_self, if_pos rfl, Option.getD_some]
    · rw [Function.update_of_ne (Ne.symm hc), if_neg hc, Option.getD_none]

theorem Lags.apply {store fresh : κ → Option υ} (h : Lags store fresh)
    (touch : Touch κ υ β) : Lags (S.apply store touch).1 (S.apply fresh touch).1 := by
  intro cell
  rw [apply_fst, apply_fst]
  cases touch.on cell with
  | none => exact h cell
  | some value => exact Or.inl rfl

theorem emitsNoMore
    (hlen : ∀ c p v, (S.render c p v).length ≤ (S.render c none v).length) :
    S.machine.EmitsNoMore Lags where
  fails := by
    intro s t a _
    rw [machine_step, machine_step, Option.map_eq_none_iff, Option.map_eq_none_iff]
  keeps := by
    intro s t a s' t' out out' hst hs ht
    obtain ⟨touch, htouch, hs⟩ := Option.map_eq_some_iff.mp hs
    rw [machine_step_of_some htouch] at ht
    have hlags := hst.apply (S := S) touch
    have hle : (S.apply s touch).2.length ≤ (S.apply t touch).2.length := by
      cases touch with
      | emit out => exact Nat.le_refl _
      | erase cell => exact Nat.le_refl _
      | snapshot cell value =>
        show (S.render cell (s cell) value).length ≤ (S.render cell (t cell) value).length
        rcases hst cell with heq | hnone
        · exact Nat.le_of_eq (by rw [heq])
        · rw [hnone]
          exact hlen cell _ value
    rw [hs, Option.some.inj ht] at hlags hle
    exact ⟨hlags, hle⟩

/-- A touch emits the same from both stores, unless it is a snapshot of a cell
only the first remembers, and makes a difference there. -/
theorem apply_snd_eq_iff {store fresh : κ → Option υ} (h : Lags store fresh)
    (touch : Touch κ υ β) :
    (S.apply store touch).2 = (S.apply fresh touch).2 ↔
      ∀ c p v, fresh c = none → store c = some p → touch.on c = some (some v) →
        S.render c (some p) v = S.render c none v := by
  cases touch with
  | emit out => exact ⟨fun _ _ _ _ _ _ hon => (by cases hon), fun _ => rfl⟩
  | erase cell =>
    refine ⟨fun _ c p v _ _ hon => ?_, fun _ => rfl⟩
    rw [Touch.on] at hon
    split at hon <;> cases hon
  | snapshot cell value =>
    show S.render cell (store cell) value = S.render cell (fresh cell) value ↔ _
    refine ⟨fun hout c p v hfresh hstore hon => ?_, fun hagree => ?_⟩
    · rw [Touch.on] at hon
      split at hon
      · next hc =>
        cases hon
        rw [hc, hfresh, hstore] at hout
        exact hout
      · cases hon
    · rcases h cell with heq | hnone
      · rw [heq]
      · cases hstore : store cell with
        | none => rw [hnone]
        | some p =>
          rw [hnone]
          exact hagree cell p value hnone hstore (if_pos rfl)

/-- **When the steps agree**: at every cell that only the first store
remembers, the first snapshot is emitted the same. -/
theorem stepsAgree_iff {store fresh : κ → Option υ} (h : Lags store fresh) (as : List α) :
    S.machine.StepsAgree store fresh as ↔
      ∀ c p v, fresh c = none → store c = some p → S.firstTouch c as = some (some v) →
        S.render c (some p) v = S.render c none v := by
  induction as generalizing store fresh with
  | nil =>
    refine ⟨fun _ c p v _ _ hfirst => ?_, fun _ => trivial⟩
    cases hfirst
  | cons a as ih =>
    cases htouch : S.touch a with
    | none =>
      refine ⟨fun _ c p v _ _ hfirst => ?_, fun _ => ?_⟩
      · rw [firstTouch, htouch] at hfirst
        cases hfirst
      · refine Machine.stepsAgree_cons_of_none ?_ as
        rw [machine_step, htouch, Option.map_none]
    | some touch =>
      have hcons : S.machine.StepsAgree store fresh (a :: as) ↔
          (S.apply store touch).2 = (S.apply fresh touch).2
            ∧ S.machine.StepsAgree (S.apply store touch).1 (S.apply fresh touch).1 as :=
        Machine.stepsAgree_cons_of_some (machine_step_of_some htouch store)
          (machine_step_of_some htouch fresh) as
      rw [hcons, ih (h.apply touch), apply_snd_eq_iff h]
      simp only [firstTouch, htouch, Option.bind_some, apply_fst]
      refine ⟨fun ⟨hnow, hlater⟩ c p v hfresh hstore hfirst => ?_,
        fun hagree => ⟨fun c p v hfresh hstore hon => ?_, fun c p v hfresh hstore hfirst => ?_⟩⟩
      · cases hon : touch.on c with
        | some value =>
          rw [hon, Option.some_or] at hfirst
          exact hnow c p v hfresh hstore (hon.trans hfirst)
        | none =>
          rw [hon, Option.none_or] at hfirst
          refine hlater c p v ?_ ?_ hfirst
          · rw [hon]
            exact hfresh
          · rw [hon]
            exact hstore
      · refine hagree c p v hfresh hstore ?_
        rw [hon, Option.some_or]
      · cases hon : touch.on c with
        | some value =>
          -- behind a touch of the cell both stores remember the same
          rw [hon, Option.getD_some] at hfresh hstore
          rw [hfresh] at hstore
          cases hstore
        | none =>
          rw [hon, Option.getD_none] at hfresh hstore
          refine hagree c p v hfresh hstore ?_
          rw [hon, Option.none_or]
          exact hfirst

theorem exists_of_firstTouch {cell : κ} {value : υ} {as : List α}
    (h : S.firstTouch cell as = some (some value)) :
    ∃ a ∈ as, S.touch a = some (.snapshot cell value) := by
  induction as with
  | nil => cases h
  | cons a as ih =>
    rw [firstTouch] at h
    obtain ⟨touch, htouch, h⟩ := Option.bind_eq_some_iff.mp h
    cases hon : touch.on cell with
    | none =>
      rw [hon, Option.none_or] at h
      obtain ⟨b, hb, hsnapshot⟩ := ih h
      exact ⟨b, List.mem_cons_of_mem _ hb, hsnapshot⟩
    | some value' =>
      rw [hon, Option.some_or] at h
      cases h
      refine ⟨a, List.mem_cons_self, ?_⟩
      rw [htouch]
      cases touch with
      | emit out => cases hon
      | erase c =>
        rw [Touch.on] at hon
        split at hon <;> cases hon
      | snapshot c v =>
        rw [Touch.on] at hon
        split at hon
        · next hc =>
          cases hon
          rw [hc]
        · cases hon

theorem exists_of_remembered {cell : κ} {value : υ} {as : List α}
    (h : S.remembered cell as = some value) :
    ∃ a ∈ as, S.touch a = some (.snapshot cell value) := by
  have hfirst : S.firstTouch cell as.reverse = some (some value) := by
    rw [remembered] at h
    cases hcell : S.firstTouch cell as.reverse with
    | none =>
      rw [hcell] at h
      cases h
    | some o =>
      rw [hcell] at h
      exact congrArg some h
  obtain ⟨a, ha, htouch⟩ := exists_of_firstTouch hfirst
  exact ⟨a, List.mem_reverse.mp ha, htouch⟩

/-- **A machine remembers the last touch of every cell.** -/
theorem run_remembered {as : List α} {store : κ → Option υ} {out : List β}
    (h : S.machine.run empty as = some (store, out)) (cell : κ) :
    store cell = S.remembered cell as := by
  induction as using List.reverseRecOn generalizing store out with
  | nil =>
    cases h
    rfl
  | append_singleton as a ih =>
    obtain ⟨mid, out₁, out₂, hmid, hlast, -⟩ := Machine.run_append_eq_some h
    rw [Machine.run_cons, machine_step] at hlast
    cases htouch : S.touch a with
    | none =>
      rw [htouch] at hlast
      cases hlast
    | some touch =>
      rw [htouch] at hlast
      cases hlast
      rw [remembered, List.reverse_append, List.reverse_singleton, List.singleton_append,
        firstTouch, htouch, Option.bind_some]
      show (S.apply mid touch).1 cell = _
      rw [apply_fst, ih hmid, remembered]
      cases touch.on cell with
      | none => rfl
      | some value => rfl

/-- **When a fresh machine may go on.** Behind inputs that were read, a
fresh machine emits what the one that read them would emit, exactly when at
every cell the first snapshot to come is emitted the same as against the one
remembered. -/
theorem resumes_iff
    (hlen : ∀ c p v, (S.render c p v).length ≤ (S.render c none v).length)
    {before : List α} {store : κ → Option υ} {out : List β}
    (h : S.machine.run empty before = some (store, out)) (after : List α) :
    (S.machine.follow store after).1 = (S.machine.follow empty after).1 ↔
      ∀ c p v, S.remembered c before = some p → S.firstTouch c after = some (some v) →
        S.render c (some p) v = S.render c none v := by
  have hlags : Lags store empty := fun _ => Or.inr rfl
  rw [(emitsNoMore hlen).follow_eq_iff hlags, stepsAgree_iff hlags]
  simp only [empty, run_remembered h, forall_const]

end Snapshots
