import Mathlib.Data.List.Basic

/-!
# Writes that may be cut short

A sink that does not wait takes of each chunk as much as it can at the moment: all
of it, a beginning of it, or nothing. How much it takes of the `k`-th chunk is given by
a pattern `accepts`. A writer that does not try again loses the rest.

What gets through is everything exactly if no write is cut short
(`taken_eq_flatten_iff`): it is never longer than what was written, so a loss is not
made up for by another chunk.
-/

namespace ShortWrites

variable {α : Type*}

/-- What gets through of some chunks, the first being the `k`-th that is written. -/
def taken (accepts : ℕ → ℕ) : ℕ → List (List α) → List α
  | _, [] => []
  | k, chunk :: chunks => chunk.take (accepts k) ++ taken accepts (k + 1) chunks

/-- No write is cut short. -/
def Whole (accepts : ℕ → ℕ) : ℕ → List (List α) → Prop
  | _, [] => True
  | k, chunk :: chunks => chunk.length ≤ accepts k ∧ Whole accepts (k + 1) chunks

theorem taken_append (accepts : ℕ → ℕ) (k : ℕ) (xs ys : List (List α)) :
    taken accepts k (xs ++ ys)
      = taken accepts k xs ++ taken accepts (k + xs.length) ys := by
  induction xs generalizing k with
  | nil => rfl
  | cons chunk xs ih =>
    have hindex : k + 1 + xs.length = k + (chunk :: xs).length := by
      rw [List.length_cons]
      omega
    rw [List.cons_append, taken, ih, hindex, taken, List.append_assoc]

theorem length_taken_le (accepts : ℕ → ℕ) (k : ℕ) (chunks : List (List α)) :
    (taken accepts k chunks).length ≤ chunks.flatten.length := by
  induction chunks generalizing k with
  | nil => exact Nat.le_refl _
  | cons chunk chunks ih =>
    rw [taken, List.flatten_cons, List.length_append, List.length_append]
    exact Nat.add_le_add (List.length_take_le' _ _) (ih (k + 1))

/-- **Everything gets through exactly if no write is cut short.** -/
theorem taken_eq_flatten_iff (accepts : ℕ → ℕ) (k : ℕ) (chunks : List (List α)) :
    taken accepts k chunks = chunks.flatten ↔ Whole accepts k chunks := by
  induction chunks generalizing k with
  | nil => exact iff_of_true rfl trivial
  | cons chunk chunks ih =>
    rw [taken, List.flatten_cons, Whole, ← ih (k + 1)]
    constructor
    · intro heq
      have hlength := congrArg List.length heq
      rw [List.length_append, List.length_append, List.length_take] at hlength
      have hle := length_taken_le accepts (k + 1) chunks
      have hwhole : chunk.length ≤ accepts k := by omega
      rw [List.take_of_length_le hwhole] at heq
      exact ⟨hwhole, List.append_cancel_left heq⟩
    · rintro ⟨hwhole, heq⟩
      rw [List.take_of_length_le hwhole, heq]

end ShortWrites
