import Mathlib.Data.List.Forall2

/-!
# Computations that may raise

A computation of `Except` goes on where it has a value. What a sequence of
them returns is taken apart at each `bind` (`Except.bind_eq_ok_iff`), and a
check that raises is a condition of what comes behind it
(`Except.check_eq_ok_iff`).

`Except.Reads` sets a computation beside a partial reading of the same input:
where the reading has a value the computation returns one that fits it, and
where it has none the computation raises an error of a given kind. Its rules
go through sequences, checks, and loops over a list. `Except.Ends` is the same
without the reading.

A computation that also changes a state keeps the changes it made before it
raised. `Raising.Ensures` says of one that it leaves a state with a property
where it returns, and that it changed nothing where it raised; its rules
follow the steps of a method that looks before it writes.
-/

universe u v

namespace Except

variable {ε : Type v} {α β : Type u}

/-- **A sequence returns** what its second part makes of what its first part returns. -/
theorem bind_eq_ok_iff {x : Except ε α} {f : α → Except ε β} {b : β} :
    x >>= f = .ok b ↔ ∃ a, x = .ok a ∧ f a = .ok b := by
  cases x with
  | error e =>
    refine ⟨fun raised => (nomatch raised), ?_⟩
    rintro ⟨a, raised, -⟩
    cases raised
  | ok a =>
    refine ⟨fun returned => ⟨a, rfl, returned⟩, ?_⟩
    rintro ⟨a, ⟨⟩, returned⟩
    exact returned

/-- **A check that returned** has not raised. -/
theorem check_eq_ok_iff {p : Prop} [Decidable p] {e : ε} {x : Except ε β} {b : β} :
    (if p then .error e else x) = .ok b ↔ ¬p ∧ x = .ok b := by
  by_cases h : p
  · rw [if_pos h]
    exact ⟨fun raised => (nomatch raised), fun passed => absurd h passed.1⟩
  · rw [if_neg h]
    exact ⟨fun returned => ⟨h, returned⟩, fun passed => passed.2⟩

/-! ## Beside a reading -/

section Reads

variable {γ δ : Type u} {refused : ε → Prop} {R : α → γ → Prop} {S : β → δ → Prop}

/-- **A computation reads what a partial reading says**, and raises an error of
a kind where that has no value. -/
inductive Reads (refused : ε → Prop) (R : α → γ → Prop) : Except ε α → Option γ → Prop
  | read {a : α} {c : γ} (fits : R a c) : Reads refused R (.ok a) (some c)
  | refuse {e : ε} (kind : refused e) : Reads refused R (.error e) none

theorem Reads.imp {R' : α → γ → Prop} {x : Except ε α} {y : Option γ}
    (reads : Reads refused R x y) (fits : ∀ a c, y = some c → R a c → R' a c) :
    Reads refused R' x y := by
  cases reads with
  | read here => exact .read (fits _ _ rfl here)
  | refuse kind => exact .refuse kind

theorem Reads.bind {x : Except ε α} {y : Option γ} {f : α → Except ε β} {g : γ → Option δ}
    (first : Reads refused R x y) (rest : ∀ a c, R a c → Reads refused S (f a) (g c)) :
    Reads refused S (x >>= f) (y >>= g) := by
  cases first with
  | read fits => exact rest _ _ fits
  | refuse kind => exact .refuse kind

theorem Reads.map {x : Except ε α} {y : Option γ} {f : α → β} {g : γ → δ}
    (first : Reads refused R x y) (fits : ∀ a c, R a c → S (f a) (g c)) :
    Reads refused S (x >>= fun a => .ok (f a)) (y.map g) := by
  cases first with
  | read here => exact .read (fits _ _ here)
  | refuse kind => exact .refuse kind

theorem Reads.wrap {x : Except ε α} {y : Option γ} {f : α → β} {S : β → γ → Prop}
    (first : Reads refused R x y) (fits : ∀ a c, R a c → S (f a) c) :
    Reads refused S (x >>= fun a => .ok (f a)) y := by
  cases first with
  | read here => exact .read (fits _ _ here)
  | refuse kind => exact .refuse kind

theorem Reads.mapM {ι : Type u} {f : ι → Except ε α} {g : ι → Option γ}
    (item : ∀ i, Reads refused R (f i) (g i)) (l : List ι) :
    Reads refused (List.Forall₂ R) (l.mapM f) (l.mapM g) := by
  induction l with
  | nil => exact .read .nil
  | cons i l ih =>
    rw [List.mapM_cons, List.mapM_cons]
    exact (item i).bind fun a c here => ih.bind fun as cs more => .read (.cons here more)

/-- **A loop over a list**, each turn of which does with its state what `step`
does with the item as it is read. -/
theorem Reads.foldlM {ι σ : Type u} {f : σ → ι → Except ε σ} {g : ι → Option γ}
    {step : σ → γ → σ} (turn : ∀ s i, Reads refused (fun t c => t = step s c) (f s i) (g i))
    (l : List ι) (s : σ) :
    Reads refused (fun t cs => t = cs.foldl step s) (l.foldlM f s) (l.mapM g) := by
  induction l generalizing s with
  | nil => exact .read rfl
  | cons i l ih =>
    rw [List.foldlM_cons, List.mapM_cons]
    refine (turn s i).bind fun t c here => ?_
    subst here
    have more := ih (step s c)
    revert more
    generalize l.foldlM f (step s c) = x, l.mapM g = y
    intro more
    cases more with
    | read fits => exact .read fits
    | refuse kind => exact .refuse kind

/-- **How a computation ends**: with a value that has a property, or with an
error of a kind. -/
inductive Ends (refused : ε → Prop) (Q : α → Prop) : Except ε α → Prop
  | returned {a : α} (here : Q a) : Ends refused Q (.ok a)
  | raised {e : ε} (kind : refused e) : Ends refused Q (.error e)

theorem Ends.bind {P : α → Prop} {Q : β → Prop} {x : Except ε α} {f : α → Except ε β}
    (first : Ends refused P x) (rest : ∀ a, P a → Ends refused Q (f a)) :
    Ends refused Q (x >>= f) := by
  cases first with
  | returned here => exact rest _ here
  | raised kind => exact .raised kind

theorem Ends.mapM {ι : Type u} {f : ι → Except ε α}
    (item : ∀ i, Ends refused (fun _ => True) (f i)) (l : List ι) :
    Ends refused (fun _ => True) (l.mapM f) := by
  induction l with
  | nil => exact .returned trivial
  | cons i l ih =>
    rw [List.mapM_cons]
    exact (item i).bind fun a _ => ih.bind fun as _ => .returned trivial

end Reads

end Except

/-- **A computation that changes a state and may raise**; what it changed
before it raised stays. -/
abbrev Raising (σ ε α : Type u) : Type u := ExceptT ε (StateM σ) α

namespace Raising

variable {σ ε α β : Type u} {s : σ} {Q : β → σ → Prop}

/-- **What a computation ensures** from a state: it returns with a property,
or raises and has changed nothing. -/
def Ensures (m : Raising σ ε β) (s : σ) (Q : β → σ → Prop) : Prop :=
  match m.run.run s with
  | (.ok b, t) => Q b t
  | (.error _, t) => t = s

theorem Ensures.get {k : σ → Raising σ ε β} (rest : Ensures (k s) s Q) :
    Ensures (MonadState.get >>= k) s Q := rest

theorem Ensures.check {x : Except ε α} {k : α → Raising σ ε β}
    (rest : ∀ a, x = .ok a → Ensures (k a) s Q) :
    Ensures ((liftM x : Raising σ ε α) >>= k) s Q := by
  cases x with
  | error e => rfl
  | ok a => exact rest a rfl

theorem Ensures.modify {f : σ → σ} {b : β} (ends : Q b (f s)) :
    Ensures ((modify f : Raising σ ε PUnit) >>= fun _ => pure b) s Q :=
  ends

theorem run_get {k : σ → Raising σ ε β} :
    (MonadState.get >>= k : Raising σ ε β).run.run s = (k s).run.run s := rfl

theorem run_check {x : Except ε α} {k : α → Raising σ ε β} {a : α} (passes : x = .ok a) :
    ((liftM x : Raising σ ε α) >>= k).run.run s = (k a).run.run s := by
  subst passes
  rfl

theorem Ensures.pure {b : β} (ends : Q b s) : Ensures (Pure.pure b : Raising σ ε β) s Q := ends

end Raising
