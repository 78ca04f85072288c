import CharlieBot.Lib.Machine

/-!
# Stopping a machine and starting a fresh one

A machine that is followed emits until a step fails. When it is stopped
between two inputs and another one is started in its place, the second
starts from a fresh state, not from the one the first had reached; what the
two emit is what one machine would have emitted only if its steps do not
depend on the difference.

`follow_eq_iff` says when: if one of two states never lets a step emit
more than the other does, and the steps fail together, then the two emit the
same exactly when every step emits the same. The lengths alone see to it
that no difference of one step is made up for by a later one.
-/

namespace Machine

variable {σ τ α β : Type*}

/-- **What a machine emits** until a step fails, and the state behind the
last input where none does. -/
def follow (m : Machine σ α β) (s : σ) : List α → List β × Option σ
  | [] => ([], some s)
  | a :: as =>
    match m.step s a with
    | none => ([], none)
    | some (t, out) => (out ++ (m.follow t as).1, (m.follow t as).2)

/-- Every step emits the same from the one state as from the other, up to a
step that fails. -/
def StepsAgree (m : Machine σ α β) : σ → σ → List α → Prop
  | _, _, [] => True
  | s, t, a :: as =>
    match m.step s a, m.step t a with
    | some (s', out), some (t', out') => out = out' ∧ m.StepsAgree s' t' as
    | _, _ => True

/-- **A relation under which the first state emits no more** than the second:
the steps fail together, keep the relation, and the first emits at most as
much. -/
structure EmitsNoMore (m : Machine σ α β) (R : σ → σ → Prop) : Prop where
  fails : ∀ {s t a}, R s t → (m.step s a = none ↔ m.step t a = none)
  /-- They keep the relation, and the first emits no more. -/
  keeps : ∀ {s t a s' t' out out'}, R s t → m.step s a = some (s', out) →
    m.step t a = some (t', out') → R s' t' ∧ out.length ≤ out'.length

variable {m : Machine σ α β} {R : σ → σ → Prop}

theorem follow_cons_of_none {s : σ} {a : α} (h : m.step s a = none) (as : List α) :
    m.follow s (a :: as) = ([], none) := by
  rw [follow, h]

theorem follow_cons_of_some {s t : σ} {a : α} {out : List β} (h : m.step s a = some (t, out))
    (as : List α) :
    m.follow s (a :: as) = (out ++ (m.follow t as).1, (m.follow t as).2) := by
  rw [follow, h]

theorem stepsAgree_cons_of_some {s t s' t' : σ} {a : α} {out out' : List β}
    (hs : m.step s a = some (s', out)) (ht : m.step t a = some (t', out')) (as : List α) :
    m.StepsAgree s t (a :: as) ↔ out = out' ∧ m.StepsAgree s' t' as := by
  rw [StepsAgree, hs, ht]

theorem stepsAgree_cons_of_none {s t : σ} {a : α} (hs : m.step s a = none) (as : List α) :
    m.StepsAgree s t (a :: as) := by
  rw [StepsAgree, hs]
  trivial

theorem follow_of_run {s t : σ} {as : List α} {out : List β}
    (h : m.run s as = some (t, out)) : m.follow s as = (out, some t) := by
  induction as generalizing s out with
  | nil =>
    cases h
    rfl
  | cons a as ih =>
    rw [run_cons] at h
    obtain ⟨⟨u, out₁⟩, h₁, h⟩ := Option.bind_eq_some_iff.mp h
    obtain ⟨⟨v, out₂⟩, h₂, h⟩ := Option.map_eq_some_iff.mp h
    cases h
    rw [follow_cons_of_some h₁, ih h₂]

theorem run_of_follow {s t : σ} {as : List α} (h : (m.follow s as).2 = some t) :
    m.run s as = some (t, (m.follow s as).1) := by
  induction as generalizing s with
  | nil =>
    cases h
    rfl
  | cons a as ih =>
    cases hstep : m.step s a with
    | none =>
      rw [follow_cons_of_none hstep] at h
      cases h
    | some p =>
      rw [follow_cons_of_some hstep] at h ⊢
      rw [run_cons, hstep, Option.bind_some, ih h, Option.map_some]

/-- **A machine that is followed goes on** behind a run. -/
theorem follow_append_of_run {s t : σ} {as : List α} {out : List β}
    (h : m.run s as = some (t, out)) (bs : List α) :
    m.follow s (as ++ bs) = (out ++ (m.follow t bs).1, (m.follow t bs).2) := by
  induction as generalizing s out with
  | nil =>
    cases h
    rfl
  | cons a as ih =>
    rw [run_cons] at h
    obtain ⟨⟨u, out₁⟩, h₁, h⟩ := Option.bind_eq_some_iff.mp h
    obtain ⟨⟨v, out₂⟩, h₂, h⟩ := Option.map_eq_some_iff.mp h
    cases h
    rw [List.cons_append, follow_cons_of_some h₁, ih h₂, List.append_assoc]

theorem EmitsNoMore.length_le (h : m.EmitsNoMore R) {s t : σ} (hst : R s t) (as : List α) :
    (m.follow s as).1.length ≤ (m.follow t as).1.length := by
  induction as generalizing s t with
  | nil => exact Nat.le_refl _
  | cons a as ih =>
    cases hs : m.step s a with
    | none =>
      rw [follow_cons_of_none hs]
      exact Nat.zero_le _
    | some p =>
      cases ht : m.step t a with
      | none => rw [(h.fails hst).mpr ht] at hs; cases hs
      | some q =>
        obtain ⟨hR, hle⟩ := h.keeps hst hs ht
        rw [follow_cons_of_some hs, follow_cons_of_some ht, List.length_append,
          List.length_append]
        exact Nat.add_le_add hle (ih hR)

theorem EmitsNoMore.isSome_eq (h : m.EmitsNoMore R) {s t : σ} (hst : R s t) (as : List α) :
    (m.follow s as).2.isSome = (m.follow t as).2.isSome := by
  induction as generalizing s t with
  | nil => rfl
  | cons a as ih =>
    cases hs : m.step s a with
    | none =>
      rw [follow_cons_of_none hs, follow_cons_of_none ((h.fails hst).mp hs)]
    | some p =>
      cases ht : m.step t a with
      | none => rw [(h.fails hst).mpr ht] at hs; cases hs
      | some q =>
        rw [follow_cons_of_some hs, follow_cons_of_some ht]
        exact ih (h.keeps hst hs ht).1

/-- **Two states emit the same exactly when all their steps do.** -/
theorem EmitsNoMore.follow_eq_iff (h : m.EmitsNoMore R) {s t : σ} (hst : R s t)
    (as : List α) :
    (m.follow s as).1 = (m.follow t as).1 ↔ m.StepsAgree s t as := by
  induction as generalizing s t with
  | nil => exact ⟨fun _ => trivial, fun _ => rfl⟩
  | cons a as ih =>
    cases hs : m.step s a with
    | none =>
      rw [follow_cons_of_none hs, follow_cons_of_none ((h.fails hst).mp hs)]
      exact ⟨fun _ => stepsAgree_cons_of_none hs as, fun _ => rfl⟩
    | some p =>
      cases ht : m.step t a with
      | none => rw [(h.fails hst).mpr ht] at hs; cases hs
      | some q =>
        obtain ⟨hR, hle⟩ := h.keeps hst hs ht
        rw [follow_cons_of_some hs, follow_cons_of_some ht, stepsAgree_cons_of_some hs ht,
          ← ih hR]
        refine ⟨fun heq => ?_, fun ⟨hout, hrest⟩ => by simp only [hout, hrest]⟩
        -- what is emitted behind the step is no longer for the first, so the step is as long
        have hlen : p.2.length = q.2.length := by
          have htotal := congrArg List.length heq
          have hrest := h.length_le hR as
          simp only [List.length_append] at htotal
          omega
        exact List.append_inj heq hlen

/-- **A machine read through a map of its states** emits the same. -/
theorem follow_map {n : Machine τ α β} {f : σ → τ}
    (hstep : ∀ s a, (m.step s a).map (Prod.map f id) = n.step (f s) a) (s : σ) (as : List α) :
    n.follow (f s) as = ((m.follow s as).1, (m.follow s as).2.map f) := by
  induction as generalizing s with
  | nil => rfl
  | cons a as ih =>
    have h := hstep s a
    cases hs : m.step s a with
    | none =>
      rw [hs] at h
      rw [follow_cons_of_none hs, follow_cons_of_none h.symm]
      rfl
    | some p =>
      rw [hs] at h
      rw [follow_cons_of_some hs, follow_cons_of_some h.symm]
      show (p.2 ++ (n.follow (f p.1) as).1, (n.follow (f p.1) as).2) = _
      rw [ih]

end Machine
