import Mathlib.Data.List.Basic

/-!
# Attempts

An attempt changes a state and may fail, and what it changed before it
failed stays: a loop over a list in a language with exceptions and mutable
objects. Two attempts one after the other, and one for every item of a list,
stop at the first that fails.

An attempt `Keeps` an invariant when it succeeds wherever that holds and
leaves it true; it `Fails` when it does so wherever it is made. These two are
what a whole loop inherits from its steps (`Keeps.forEach`,
`Fails.forEach_of_mem`).
-/

variable {σ α : Type*}

/-- **An attempt**: the state it leaves, and whether it failed. -/
abbrev Attempt (σ : Type*) := σ → σ × Bool

namespace Attempt

/-- A change that cannot fail. -/
def change (f : σ → σ) : Attempt σ := fun s => (f s, false)

def fail : Attempt σ := fun s => (s, true)

def skip : Attempt σ := change id

/-- One attempt, and where it succeeds another. -/
def andThen (f g : Attempt σ) : Attempt σ := fun s => if (f s).2 then f s else g (f s).1

def need (value : Option α) (f : α → Attempt σ) : Attempt σ :=
  match value with
  | some a => f a
  | none => fail

/-- One attempt for every item. -/
def forEach (f : α → Attempt σ) : List α → Attempt σ
  | [] => skip
  | a :: as => (f a).andThen (forEach f as)

/-- It succeeds wherever an invariant holds, and keeps it. -/
def Keeps (I : σ → Prop) (f : Attempt σ) : Prop := ∀ s, I s → (f s).2 = false ∧ I (f s).1

/-- It fails wherever it is made. -/
def Fails (f : Attempt σ) : Prop := ∀ s, (f s).2 = true

variable {f g : Attempt σ} {I : σ → Prop}

@[simp] theorem need_some (a : α) (f : α → Attempt σ) : need (some a) f = f a := rfl

@[simp] theorem need_none (f : α → Attempt σ) : need none f = fail := rfl

theorem andThen_of_succeeds {s : σ} (h : (f s).2 = false) : f.andThen g s = g (f s).1 :=
  if_neg (by rw [h]; exact Bool.false_ne_true)

/-- **A loop is cut at any point** it gets to. -/
theorem forEach_append (f : α → Attempt σ) (as bs : List α) (s : σ) :
    forEach f (as ++ bs) s = (forEach f as).andThen (forEach f bs) s := by
  induction as generalizing s with
  | nil => rfl
  | cons a as ih =>
    rw [List.cons_append, forEach, forEach, andThen, andThen, andThen]
    cases hfail : (f a s).2 with
    | true => simp only [hfail, if_true]
    | false =>
      simp only [Bool.false_eq_true, if_false]
      exact ih _

theorem Keeps.skip : Keeps I skip := fun _ hs => ⟨rfl, hs⟩

theorem Keeps.change {f : σ → σ} (h : ∀ s, I s → I (f s)) : Keeps I (change f) :=
  fun s hs => ⟨rfl, h s hs⟩

theorem Keeps.andThen (hf : Keeps I f) (hg : Keeps I g) : Keeps I (f.andThen g) := by
  intro s hs
  rw [andThen_of_succeeds (hf s hs).1]
  exact hg _ (hf s hs).2

/-- **A loop keeps what every step keeps.** -/
theorem Keeps.forEach {f : α → Attempt σ} {as : List α} (h : ∀ a ∈ as, Keeps I (f a)) :
    Keeps I (Attempt.forEach f as) := by
  induction as with
  | nil => exact Keeps.skip
  | cons a as ih =>
    exact (h a List.mem_cons_self).andThen (ih fun b hb => h b (List.mem_cons_of_mem _ hb))

theorem Fails.fail : Fails (Attempt.fail : Attempt σ) := fun _ => rfl

theorem Fails.andThen_left (hf : Fails f) : Fails (f.andThen g) := by
  intro s
  rw [Attempt.andThen, if_pos (hf s)]
  exact hf s

theorem Fails.andThen_right (hg : Fails g) : Fails (f.andThen g) := by
  intro s
  rw [Attempt.andThen]
  split
  · assumption
  · exact hg _

/-- **A loop fails where a step does.** -/
theorem Fails.forEach_of_mem {f : α → Attempt σ} {as : List α} {a : α} (ha : a ∈ as)
    (h : Fails (f a)) : Fails (Attempt.forEach f as) := by
  induction as with
  | nil => cases ha
  | cons b as ih =>
    rcases List.mem_cons.mp ha with rfl | ha
    · exact h.andThen_left
    · exact (ih ha).andThen_right

end Attempt
