import Mathlib.Data.List.Basic

/-!
# Transition systems and their runs

A system is a partial step function: `step s a` is the state the action
`a` leads to, or nothing when `a` is not enabled in `s`. What an
interleaving chooses – which party moves, what it reads, where a crash
falls – is the action, so a run is a list of actions and evaluates.

`TransitionSystem.run_invariant` is the induction every safety result
uses. `TransitionSystem.Guarded` says that every action of a run meets a
condition in the state it is taken in, and `run_invariant_of_guarded` is
the same induction for the runs that do: an invariant that some steps
break holds along every run that avoids those steps.
-/

variable {σ α : Type*}

/-- **A transition system**: the state an action leads to, when the
action is enabled. -/
structure TransitionSystem (σ α : Type*) where
  step : σ → α → Option σ

namespace TransitionSystem

/-- The state a list of actions leads to. -/
def run (T : TransitionSystem σ α) (s : σ) (as : List α) : Option σ :=
  as.foldlM T.step s

@[simp] theorem run_nil (T : TransitionSystem σ α) (s : σ) :
    T.run s [] = some s := rfl

theorem run_cons (T : TransitionSystem σ α) (s : σ) (a : α) (as : List α) :
    T.run s (a :: as) = (T.step s a).bind fun t => T.run t as := rfl

theorem run_append (T : TransitionSystem σ α) (s : σ) (as bs : List α) :
    T.run s (as ++ bs) = (T.run s as).bind fun t => T.run t bs :=
  List.foldlM_append

/-- **The invariant rule.** What every enabled step preserves holds along
every run. -/
theorem run_invariant (T : TransitionSystem σ α) {I : σ → Prop}
    (hstep : ∀ s a t, I s → T.step s a = some t → I t)
    {s t : σ} (hs : I s) (as : List α) (h : T.run s as = some t) : I t := by
  induction as generalizing s with
  | nil =>
    cases h
    exact hs
  | cons a as ih =>
    rw [run_cons] at h
    obtain ⟨u, hu, h⟩ := Option.bind_eq_some_iff.mp h
    exact ih (hstep s a u hs hu) h

/-- **Every action of the run meets a condition** in the state it is
taken in. -/
def Guarded (T : TransitionSystem σ α) (G : σ → α → Prop) : σ → List α → Prop
  | _, [] => True
  | s, a :: as => G s a ∧ ∀ t, T.step s a = some t → T.Guarded G t as

@[simp] theorem guarded_nil (T : TransitionSystem σ α) (G : σ → α → Prop)
    (s : σ) : T.Guarded G s [] := trivial

theorem Guarded.append {T : TransitionSystem σ α} {G : σ → α → Prop} {s : σ}
    {as bs : List α} (h : T.Guarded G s (as ++ bs)) :
    T.Guarded G s as ∧ ∀ t, T.run s as = some t → T.Guarded G t bs := by
  induction as generalizing s with
  | nil =>
    refine ⟨trivial, fun t ht => ?_⟩
    cases ht
    exact h
  | cons a as ih =>
    refine ⟨⟨h.1, fun u hu => (ih (h.2 u hu)).1⟩, fun t ht => ?_⟩
    rw [run_cons] at ht
    obtain ⟨u, hu, ht⟩ := Option.bind_eq_some_iff.mp ht
    exact (ih (h.2 u hu)).2 t ht

theorem Guarded.and {T : TransitionSystem σ α} {G H : σ → α → Prop} {s : σ} {as : List α}
    (hG : T.Guarded G s as) (hH : T.Guarded H s as) :
    T.Guarded (fun s a => G s a ∧ H s a) s as := by
  induction as generalizing s with
  | nil => trivial
  | cons a as ih => exact ⟨⟨hG.1, hH.1⟩, fun t ht => ih (hG.2 t ht) (hH.2 t ht)⟩

/-- Whether every action of a run meets a condition that can be decided. -/
def checkGuarded (T : TransitionSystem σ α) (G : σ → α → Prop) [∀ s a, Decidable (G s a)] :
    σ → List α → Bool
  | _, [] => true
  | s, a :: as => decide (G s a) && match T.step s a with
    | none => true
    | some t => T.checkGuarded G t as

theorem guarded_of_check {T : TransitionSystem σ α} {G : σ → α → Prop}
    [∀ s a, Decidable (G s a)] {s : σ} {as : List α} (h : T.checkGuarded G s as = true) :
    T.Guarded G s as := by
  induction as generalizing s with
  | nil => trivial
  | cons a as ih =>
    rw [checkGuarded, Bool.and_eq_true, decide_eq_true_eq] at h
    refine ⟨h.1, fun t ht => ih ?_⟩
    have hrest := h.2
    rw [ht] at hrest
    exact hrest

theorem guarded_append {T : TransitionSystem σ α} {G : σ → α → Prop} {s : σ}
    {as bs : List α} (has : T.Guarded G s as)
    (hbs : ∀ t, T.run s as = some t → T.Guarded G t bs) : T.Guarded G s (as ++ bs) := by
  induction as generalizing s with
  | nil => exact hbs s rfl
  | cons a as ih =>
    refine ⟨has.1, fun u hu => ih (has.2 u hu) fun t ht => hbs t ?_⟩
    rw [run_cons, hu]
    exact ht

theorem guarded_concat {T : TransitionSystem σ α} {G : σ → α → Prop} {s : σ} {as : List α}
    {a : α} (has : T.Guarded G s as) (ha : ∀ t, T.run s as = some t → G t a) :
    T.Guarded G s (as ++ [a]) :=
  guarded_append has fun t ht => ⟨ha t ht, fun _ _ => trivial⟩

/-- **Termination.** Where an invariant lets every action bring a number down, a run is no longer
than the number it starts with. -/
theorem length_le_of_invariant {T : TransitionSystem σ α} {I : σ → Prop} {P : α → Prop} {m : σ → ℕ}
    (hstep : ∀ s a t, I s → P a → T.step s a = some t → I t ∧ m t < m s)
    {s t : σ} (hs : I s) {as : List α} (hP : ∀ a ∈ as, P a) (h : T.run s as = some t) :
    I t ∧ as.length + m t ≤ m s := by
  induction as generalizing s with
  | nil =>
    cases h
    exact ⟨hs, Nat.le_of_eq (Nat.zero_add _)⟩
  | cons a as ih =>
    rw [run_cons] at h
    obtain ⟨u, hu, h⟩ := Option.bind_eq_some_iff.mp h
    obtain ⟨hinv, hlt⟩ := hstep s a u hs (hP a List.mem_cons_self) hu
    obtain ⟨hend, hrest⟩ := ih hinv (fun b hb => hP b (List.mem_cons_of_mem a hb)) h
    exact ⟨hend, by rw [List.length_cons]; omega⟩

theorem length_le_of_measure {T : TransitionSystem σ α} {P : α → Prop} {m : σ → ℕ}
    (hstep : ∀ s a t, P a → T.step s a = some t → m t < m s)
    {s t : σ} {as : List α} (hP : ∀ a ∈ as, P a) (h : T.run s as = some t) :
    as.length ≤ m s :=
  Nat.le_of_add_right_le (length_le_of_invariant (I := fun _ => True)
    (fun s a t _ ha ht => ⟨trivial, hstep s a t ha ht⟩) trivial hP h).2

theorem eq_of_run_map {β : Type*} {T : TransitionSystem σ α} {s t : σ} {as : List α} {f : σ → β}
    {b : β} (h : (T.run s as).map f = some b) (ht : T.run s as = some t) : f t = b := by
  rw [ht] at h
  exact Option.some.inj h

/-- **The invariant rule for guarded runs.** What every enabled step that
meets the condition preserves holds along every run whose steps all
meet it. -/
theorem run_invariant_of_guarded (T : TransitionSystem σ α) {I : σ → Prop}
    {G : σ → α → Prop}
    (hstep : ∀ s a t, I s → G s a → T.step s a = some t → I t)
    {s t : σ} (hs : I s) {as : List α} (hG : T.Guarded G s as)
    (h : T.run s as = some t) : I t := by
  induction as generalizing s with
  | nil =>
    cases h
    exact hs
  | cons a as ih =>
    rw [run_cons] at h
    obtain ⟨u, hu, h⟩ := Option.bind_eq_some_iff.mp h
    exact ih (hstep s a u hs hG.1 hu) (hG.2 u hu) h

/-- Where an invariant gives every action of a kind its condition, a run of
such actions is guarded. -/
theorem guarded_of_invariant (T : TransitionSystem σ α) {I : σ → Prop}
    {G : σ → α → Prop} {P : α → Prop} (hG : ∀ s a, I s → P a → G s a)
    (hstep : ∀ s a t, I s → P a → T.step s a = some t → I t)
    {s : σ} (hs : I s) {as : List α} (hP : ∀ a ∈ as, P a) : T.Guarded G s as := by
  induction as generalizing s with
  | nil => trivial
  | cons a as ih =>
    have ha : P a := hP a List.mem_cons_self
    exact ⟨hG s a hs ha, fun t ht =>
      ih (hstep s a t hs ha ht) fun b hb => hP b (List.mem_cons_of_mem _ hb)⟩

end TransitionSystem
