import Mathlib.Data.List.Basic

/-!
# Machines that emit

A machine reads its input one item at a time; a step either fails, or
moves to a new state and emits a list of outputs. Running a machine over
a list concatenates what the steps emit and fails as soon as one step
does, which is how a generator that raises behaves for a caller that
collects everything it yields.

`Machine.run_append` cuts a run at any point of its input, so a run can be
stopped and continued.
-/

variable {σ τ α β γ : Type*}

/-- **A machine that emits**: a step reads one input and either fails, or
moves and emits. -/
structure Machine (σ α β : Type*) where
  step : σ → α → Option (σ × List β)

namespace Machine

/-- The run of a machine over a list of inputs, with everything it emits
in order. -/
def run (m : Machine σ α β) (s : σ) : List α → Option (σ × List β)
  | [] => some (s, [])
  | a :: as => (m.step s a).bind fun p =>
      (m.run p.1 as).map fun q => (q.1, p.2 ++ q.2)

@[simp] theorem run_nil (m : Machine σ α β) (s : σ) :
    m.run s [] = some (s, []) := rfl

theorem run_cons (m : Machine σ α β) (s : σ) (a : α) (as : List α) :
    m.run s (a :: as) = (m.step s a).bind fun p =>
      (m.run p.1 as).map fun q => (q.1, p.2 ++ q.2) := rfl

/-- **A run is cut at any point of its input**: the second half continues
from the state the first half leaves. -/
theorem run_append (m : Machine σ α β) (s : σ) (as bs : List α) :
    m.run s (as ++ bs) = (m.run s as).bind fun p =>
      (m.run p.1 bs).map fun q => (q.1, p.2 ++ q.2) := by
  induction as generalizing s with
  | nil =>
    simp only [List.nil_append, run_nil, Option.bind_some, List.nil_append]
    cases m.run s bs <;> rfl
  | cons a as ih =>
    rw [List.cons_append, run_cons, run_cons]
    cases m.step s a with
    | none => rfl
    | some p =>
      simp only [Option.bind_some, ih]
      cases m.run p.1 as with
      | none => rfl
      | some q =>
        simp only [Option.bind_some, Option.map_some]
        cases m.run q.1 bs with
        | none => rfl
        | some r => simp only [Option.map_some, List.append_assoc]

theorem run_singleton (m : Machine σ α β) (s : σ) (a : α) : m.run s [a] = m.step s a := by
  rw [run_cons]
  cases m.step s a with
  | none => rfl
  | some p =>
    show some (p.1, p.2 ++ []) = some p
    rw [List.append_nil]

theorem run_append_eq_some {m : Machine σ α β} {s t : σ} {as bs : List α}
    {out : List β} (h : m.run s (as ++ bs) = some (t, out)) :
    ∃ u out₁ out₂, m.run s as = some (u, out₁) ∧ m.run u bs = some (t, out₂)
      ∧ out = out₁ ++ out₂ := by
  rw [run_append] at h
  obtain ⟨⟨u, out₁⟩, h₁, h⟩ := Option.bind_eq_some_iff.mp h
  obtain ⟨⟨t', out₂⟩, h₂, h⟩ := Option.map_eq_some_iff.mp h
  cases h
  exact ⟨u, out₁, out₂, h₁, h₂, rfl⟩

theorem run_append_of_eq_some {m : Machine σ α β} {s u t : σ} {as bs : List α}
    {out₁ out₂ : List β} (h₁ : m.run s as = some (u, out₁))
    (h₂ : m.run u bs = some (t, out₂)) :
    m.run s (as ++ bs) = some (t, out₁ ++ out₂) := by
  rw [run_append, h₁, Option.bind_some, h₂, Option.map_some]

theorem run_forall {m : Machine σ α β} {P : β → Prop} {as : List α}
    (hstep : ∀ s a t out, a ∈ as → m.step s a = some (t, out) → ∀ b ∈ out, P b)
    {s t : σ} {out : List β} (h : m.run s as = some (t, out)) :
    ∀ b ∈ out, P b := by
  induction as generalizing s out with
  | nil =>
    cases h
    exact fun _ hb => absurd hb List.not_mem_nil
  | cons a as ih =>
    rw [run_cons] at h
    obtain ⟨⟨u, out₁⟩, h₁, h⟩ := Option.bind_eq_some_iff.mp h
    obtain ⟨⟨v, out₂⟩, h₂, h⟩ := Option.map_eq_some_iff.mp h
    cases h
    intro b hb
    rcases List.mem_append.mp hb with hb | hb
    · exact hstep s a u out₁ List.mem_cons_self h₁ b hb
    · exact ih (fun s a t out ha => hstep s a t out (List.mem_cons_of_mem _ ha)) h₂ b hb

/-- What relates the two ends of a step, given what it emits, relates the
two ends of a run, when it is reflexive and composes. -/
theorem run_compose {m : Machine σ α β} {P : σ → σ → List β → Prop}
    (hrefl : ∀ s, P s s [])
    (htrans : ∀ s t u out₁ out₂, P s t out₁ → P t u out₂ → P s u (out₁ ++ out₂))
    {as : List α} (hstep : ∀ s a t out, a ∈ as → m.step s a = some (t, out) → P s t out)
    {s t : σ} {out : List β} (h : m.run s as = some (t, out)) : P s t out := by
  induction as generalizing s out with
  | nil =>
    cases h
    exact hrefl _
  | cons a as ih =>
    rw [run_cons] at h
    obtain ⟨⟨u, out₁⟩, h₁, h⟩ := Option.bind_eq_some_iff.mp h
    obtain ⟨⟨v, out₂⟩, h₂, h⟩ := Option.map_eq_some_iff.mp h
    cases h
    exact htrans s u v out₁ out₂ (hstep s a u out₁ List.mem_cons_self h₁)
      (ih (fun s a t out ha => hstep s a t out (List.mem_cons_of_mem _ ha)) h₂)

/-- **A machine that reads each input first**: where a step reads its input into items and
runs another machine over them, a run reads all of them, and runs that machine over
everything that was read. -/
theorem run_reading {m : Machine σ α β} {n : Machine σ γ β} {read : α → Option (List γ)}
    (h : ∀ s a, m.step s a = (read a).bind (n.run s)) (s : σ) (as : List α) :
    m.run s as = (as.mapM read).bind fun items => n.run s items.flatten := by
  induction as generalizing s with
  | nil => rfl
  | cons a as ih =>
    rw [run_cons, h, List.mapM_cons]
    cases read a with
    | none => rfl
    | some x =>
      have hcons : ∀ xs, n.run s (x :: xs).flatten = (n.run s x).bind fun p =>
          (n.run p.1 xs.flatten).map fun q => (q.1, p.2 ++ q.2) := fun xs => run_append n s x _
      simp only [Option.bind_eq_bind, Option.bind_some, Option.pure_def, Option.bind_assoc, hcons]
      cases n.run s x with
      | none => cases as.mapM read <;> rfl
      | some p =>
        rw [Option.bind_some, ih]
        cases as.mapM read <;> rfl

end Machine
