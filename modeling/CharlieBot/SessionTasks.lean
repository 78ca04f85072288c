import CharlieBot.SessionMetadata

/-!
# Where the tasks of a session go

A task on a session's metadata that is about one field, and wants to know of
its own saves only, need not follow every step of the session. What it needs is
said here once: a task moves on alone, its object and its saves go with it
(`step_moves`); what tasks and cache remember is true to the file, whatever the
saves do to each other (`Truthful`); and the file changes by a publication only,
to what the save made of the object in hand (`Truthful.disk_step`).
-/

/-! ## What a task of a session still has to save -/

namespace TaskPhase

/-- The saves a task has not published. -/
def pending : TaskPhase → List Update
  | .idle => []
  | .waiting m => m.saves
  | .missing m _ => m.saves
  | .loaded m _ _ => m.saves
  | .held _ _ rest => rest
  | .saving _ _ u _ rest => u :: rest
  | .published _ _ _ rest => rest

end TaskPhase

/-- **How a task moves on** that has more to do: what it looks up, reads,
serializes and publishes. -/
inductive TaskMove : TaskPhase → TaskPhase → Prop
  | serve (m : Mutator) (snap : Versioned SessionMetadata) (legacy : Bool) :
      TaskMove (.waiting m) (.held m snap (SessionState.savesOf m legacy))
  | miss (m : Mutator) (sig : ℕ) : TaskMove (.waiting m) (.missing m sig)
  | read (m : Mutator) (sig : ℕ) (snap : Versioned SessionMetadata) :
      TaskMove (.missing m sig) (.loaded m sig snap)
  | fill (m : Mutator) (sig : ℕ) (snap : Versioned SessionMetadata) (legacy : Bool) :
      TaskMove (.loaded m sig snap) (.held m snap (SessionState.savesOf m legacy))
  | skip (m : Mutator) (snap : Versioned SessionMetadata) (u : Update) (rest : List Update) :
      TaskMove (.held m snap (u :: rest)) (.held m snap rest)
  | serialize (m : Mutator) (snap : Versioned SessionMetadata) (u : Update)
      (new : SessionMetadata) (rest : List Update) :
      TaskMove (.held m snap (u :: rest)) (.saving m snap u new rest)
  | publish (m : Mutator) (snap : Versioned SessionMetadata) (u : Update)
      (new : SessionMetadata) (nv : Versioned SessionMetadata) (rest : List Update) :
      TaskMove (.saving m snap u new rest) (.published m u nv rest)
  | refresh (m : Mutator) (u : Update) (nv : Versioned SessionMetadata) (rest : List Update) :
      TaskMove (.published m u nv rest) (.held m nv rest)

theorem TaskMove.pending {p p' : TaskPhase} (h : TaskMove p p') {u : Update}
    (hu : u ∈ p'.pending) : u ∈ p.pending ∨ u = .migrateRoundRatingKeys := by
  have hsaves : ∀ (m : Mutator) (legacy : Bool), u ∈ SessionState.savesOf m legacy →
      u ∈ m.saves ∨ u = .migrateRoundRatingKeys := fun m legacy hmem => by
    cases legacy with
    | false => exact .inl hmem
    | true => exact (List.mem_cons.mp hmem).symm
  cases h with
  | serve m snap legacy => exact hsaves m legacy hu
  | fill m sig snap legacy => exact hsaves m legacy hu
  | skip m snap v rest => exact .inl (List.mem_cons_of_mem v hu)
  | publish m snap v new nv rest => exact .inl (List.mem_cons_of_mem v hu)
  | _ => exact .inl hu

namespace SessionState

variable {s s' : SessionState}

/-- Whether an action begins a task. -/
def Begins : SessionAction → Prop
  | .call _ _ => True
  | _ => False

@[simp] theorem tasks_filled (m : Mutator) (e : CacheEntry) :
    (s.filled m e).tasks = s.tasks := by
  unfold filled
  split <;> rfl

theorem moves_setTask {t : ℕ} {p : TaskPhase} {P : ℕ → TaskPhase → Prop} (hp : P t p)
    (hstay : ∀ t', t' ≠ t → P t' (s.tasks t')) (t' : ℕ) : P t' ((s.setTask t p).tasks t') := by
  by_cases ht : t' = t
  · subst ht
    rwa [tasks_setTask_self]
  · rw [tasks_setTask_of_ne p ht]
    exact hstay t' ht

/-- **Where the tasks of a session go in a step that begins none**: each stays,
or moves on, or had nothing more to save and is done with. -/
theorem step_moves {a : SessionAction} (ha : ¬ Begins a) (hstep : s.step a = some s') (t : ℕ) :
    s'.tasks t = s.tasks t ∨ TaskMove (s.tasks t) (s'.tasks t)
      ∨ a = .modify t ∧ (∃ m snap, s.tasks t = .held m snap []) ∧ (s'.tasks t).pending = [] := by
  let P : ℕ → TaskPhase → Prop := fun t p =>
    p = s.tasks t ∨ TaskMove (s.tasks t) p
      ∨ a = .modify t ∧ (∃ m snap, s.tasks t = .held m snap []) ∧ p.pending = []
  have hstay : ∀ t', P t' (s.tasks t') := fun _ => .inl rfl
  cases a with
  | call t' m => exact absurd trivial ha
  | enter t' expired legacy =>
    cases ht : s.tasks t' with
    | waiting m =>
      have hlook : ∀ l : Option ℕ, P t
          (({ s with lock := l }.lookUp t' m expired legacy).tasks t) := fun l => by
        unfold SessionState.lookUp
        split
        · refine moves_setTask (P := P) (.inr (.inl ?_)) (fun t'' _ => hstay t'') t
          rw [ht]
          exact .serve _ _ _
        · refine moves_setTask (P := P) (.inr (.inl ?_)) (fun t'' _ => hstay t'') t
          rw [ht]
          exact .miss _ _
      simp only [SessionState.step, ht] at hstep
      split at hstep
      · split at hstep
        · cases hstep
        · cases hstep
          exact hlook (some t')
      · cases hstep
        exact hlook s.lock
    | _ => simp [SessionState.step, ht] at hstep
  | read t' =>
    cases ht : s.tasks t' with
    | missing m sig =>
      simp only [SessionState.step, ht, Option.some.injEq] at hstep
      subst hstep
      refine moves_setTask (P := P) (.inr (.inl ?_)) (fun t'' _ => hstay t'') t
      rw [ht]
      exact .read _ _ _
    | _ => simp [SessionState.step, ht] at hstep
  | fill t' legacy =>
    cases ht : s.tasks t' with
    | loaded m sig snap =>
      have hmove : ∀ legacy, TaskMove (s.tasks t') (.held m snap (savesOf m legacy)) :=
        fun legacy => ht ▸ .fill m sig snap legacy
      simp only [SessionState.step, ht] at hstep
      split at hstep
      · cases hstep
        exact moves_setTask (P := P) (.inr (.inl (hmove true))) (fun t'' _ => hstay t'') t
      · cases hstep
        refine moves_setTask (P := P) (.inr (.inl (hmove false))) (fun t'' _ => ?_) t
        rw [tasks_filled]
        exact hstay t''
    | _ => simp [SessionState.step, ht] at hstep
  | modify t' =>
    cases ht : s.tasks t' with
    | held m snap rest =>
      cases rest with
      | nil =>
        have hdone : ∀ p : TaskPhase, p.pending = [] → P t' p := fun p hp =>
          .inr (.inr ⟨rfl, ⟨m, snap, ht⟩, hp⟩)
        simp only [SessionState.step, ht] at hstep
        split at hstep
        · cases hstep
          exact moves_setTask (P := P) (hdone _ rfl) (fun t'' _ => hstay t'') t
        · cases hstep
          exact moves_setTask (P := P) (hdone _ rfl) (fun t'' _ => hstay t'') t
      | cons u rest =>
        simp only [SessionState.step, ht] at hstep
        split at hstep
        · cases hstep
          refine moves_setTask (P := P) (.inr (.inl ?_)) (fun t'' _ => hstay t'') t
          rw [ht]
          exact .skip _ _ _ _
        · cases hstep
          refine moves_setTask (P := P) (.inr (.inl ?_)) (fun t'' _ => hstay t'') t
          rw [ht]
          exact .serialize _ _ _ _ _
    | _ => simp [SessionState.step, ht] at hstep
  | publish t' =>
    cases ht : s.tasks t' with
    | saving m snap u new rest =>
      simp only [SessionState.step, ht, Option.some.injEq] at hstep
      subst hstep
      refine moves_setTask (P := P) (.inr (.inl ?_)) (fun t'' _ => hstay t'') t
      rw [ht]
      exact .publish _ _ _ _ _ _
    | _ => simp [SessionState.step, ht] at hstep
  | refresh t' =>
    cases ht : s.tasks t' with
    | published m u nv rest =>
      simp only [SessionState.step, ht, Option.some.injEq] at hstep
      subst hstep
      refine moves_setTask (P := P) (.inr (.inl ?_)) (fun t'' _ => hstay t'') t
      rw [ht]
      exact .refresh _ _ _ _
    | _ => simp [SessionState.step, ht] at hstep
  | listActiveSessionMetas =>
    cases hstep
    exact hstay t

/-- **What a session remembers is true to its file**: the tasks and the
cache. It takes no condition on the saves. -/
structure Truthful (s : SessionState) : Prop where
  /-- Every task remembers what is true to the file. -/
  tasks : ∀ t, (s.tasks t).Sound s.disk
  cache : ∀ e, s.cache = some e → e.snap.TrueTo s.disk

namespace Truthful

theorem initial (m : SessionMetadata) : (SessionState.initial m).Truthful :=
  ⟨fun _ => trivial, fun _ he => (by cases he)⟩

theorem setTask (h : s.Truthful) {t : ℕ} {p : TaskPhase} (hp : p.Sound s.disk) :
    (s.setTask t p).Truthful :=
  ⟨moves_setTask (P := fun _ p => p.Sound s.disk) hp fun t' _ => h.tasks t', h.cache⟩

theorem setLock (h : s.Truthful) (l : Option ℕ) : Truthful { s with lock := l } :=
  ⟨h.tasks, h.cache⟩

theorem dropCache (h : s.Truthful) : Truthful { s with cache := none } :=
  ⟨h.tasks, fun _ he => (by cases he)⟩

theorem storeCache (h : s.Truthful) {e : CacheEntry} (he : e.snap.TrueTo s.disk) :
    Truthful { s with cache := some e } :=
  ⟨h.tasks, fun _ he' => (by cases he'; exact he)⟩

theorem filled (h : s.Truthful) {m : Mutator} {e : CacheEntry} (he : e.snap.TrueTo s.disk) :
    (s.filled m e).Truthful := by
  unfold SessionState.filled
  split
  · exact h
  · exact h.storeCache he

theorem lookUp (h : s.Truthful) {t : ℕ} {m : Mutator} (expired legacy : Bool) :
    (s.lookUp t m expired legacy).Truthful := by
  unfold SessionState.lookUp
  split
  · next e he =>
    refine h.setTask ?_
    split at he
    · cases he
    · exact h.cache e (Option.filter_eq_some_iff.mp he).1
  · exact h.dropCache.setTask (le_refl _)

theorem publish (h : s.Truthful) {t : ℕ} {m : Mutator} {u : Update} {new : SessionMetadata}
    {rest : List Update} :
    Truthful ({ s with disk := s.disk.write new }.setTask t
      (.published m u (s.disk.write new) rest)) := by
  have hwritten : Truthful { s with disk := s.disk.write new } :=
    ⟨fun t' => (h.tasks t').write new, fun e he => (h.cache e he).write new⟩
  exact hwritten.setTask (.refl _)

theorem step (h : s.Truthful) {a : SessionAction} (hstep : s.step a = some s') :
    s'.Truthful := by
  cases a with
  | call t m =>
    cases ht : s.tasks t with
    | idle =>
      simp only [SessionState.step, ht, Option.some.injEq] at hstep
      subst hstep
      exact h.setTask trivial
    | _ => simp [SessionState.step, ht] at hstep
  | enter t expired legacy =>
    cases ht : s.tasks t with
    | waiting m =>
      simp only [SessionState.step, ht] at hstep
      split at hstep
      · split at hstep
        · cases hstep
        · cases hstep
          exact (h.setLock (some t)).lookUp expired legacy
      · cases hstep
        exact h.lookUp expired legacy
    | _ => simp [SessionState.step, ht] at hstep
  | read t =>
    cases ht : s.tasks t with
    | missing m sig =>
      have hsig : TaskPhase.Sound s.disk (.missing m sig) := ht ▸ h.tasks t
      simp only [SessionState.step, ht, Option.some.injEq] at hstep
      subst hstep
      exact h.setTask ⟨.refl _, hsig⟩
    | _ => simp [SessionState.step, ht] at hstep
  | fill t legacy =>
    cases ht : s.tasks t with
    | loaded m sig snap =>
      obtain ⟨hsnap, -⟩ : TaskPhase.Sound s.disk (.loaded m sig snap) := ht ▸ h.tasks t
      simp only [SessionState.step, ht] at hstep
      split at hstep
      · cases hstep
        exact h.setTask hsnap
      · cases hstep
        refine (h.filled hsnap).setTask ?_
        rw [disk_filled]
        exact hsnap
    | _ => simp [SessionState.step, ht] at hstep
  | modify t =>
    cases ht : s.tasks t with
    | held m snap rest =>
      have hsnap : TaskPhase.Sound s.disk (.held m snap rest) := ht ▸ h.tasks t
      cases rest with
      | nil =>
        simp only [SessionState.step, ht] at hstep
        split at hstep
        · cases hstep
          exact h.dropCache.setTask (le_refl _)
        · cases hstep
          exact (h.setLock _).setTask trivial
      | cons u rest =>
        simp only [SessionState.step, ht] at hstep
        split at hstep
        · cases hstep
          exact h.setTask hsnap
        · next new hnew =>
          cases hstep
          exact h.setTask ⟨hsnap, hnew⟩
    | _ => simp [SessionState.step, ht] at hstep
  | publish t =>
    cases ht : s.tasks t with
    | saving m snap u new rest =>
      simp only [SessionState.step, ht, Option.some.injEq] at hstep
      subst hstep
      exact h.publish
    | _ => simp [SessionState.step, ht] at hstep
  | refresh t =>
    cases ht : s.tasks t with
    | published m u new rest =>
      have hnew : TaskPhase.Sound s.disk (.published m u new rest) := ht ▸ h.tasks t
      simp only [SessionState.step, ht, Option.some.injEq] at hstep
      subst hstep
      have hstored : Truthful { s with
          cache := some ⟨new, none⟩
          lastWritten := fun f => if u.owns f then new.content f else s.lastWritten f } :=
        ⟨h.tasks, fun _ he => (by cases he; exact hnew)⟩
      exact hstored.setTask hnew
    | _ => simp [SessionState.step, ht] at hstep
  | listActiveSessionMetas =>
    cases hstep
    exact h.storeCache (.refl _)

end Truthful

/-- **What a step does to the file**: nothing, or a task publishes what its
save made of the object it had in hand; where the object was of the file's last
version it was the file. -/
theorem Truthful.disk_step (h : s.Truthful) {a : SessionAction} (hstep : s.step a = some s') :
    s'.disk = s.disk ∧ (∀ t, a ≠ .publish t) ∨
    ∃ t m snap u new rest, a = .publish t ∧ s.tasks t = .saving m snap u new rest
      ∧ s'.disk = s.disk.write new
      ∧ (snap.version = s.disk.version → snap.content = s.disk.content)
      ∧ u.apply snap.content = some new := by
  by_cases ha : ∃ t, a = .publish t
  · obtain ⟨t, rfl⟩ := ha
    cases ht : s.tasks t with
    | saving m snap u new rest =>
      obtain ⟨hsnap, happly⟩ : TaskPhase.Sound s.disk (.saving m snap u new rest) :=
        ht ▸ h.tasks t
      simp only [SessionState.step, ht, Option.some.injEq] at hstep
      subst hstep
      exact .inr ⟨t, m, snap, u, new, rest, rfl, ht, rfl, hsnap.content_eq, happly⟩
    | _ => simp [SessionState.step, ht] at hstep
  · refine .inl ⟨?_, fun t hat => ha ⟨t, hat⟩⟩
    rcases SessionState.disk_step hstep with heq | ⟨t, _, _, _, _, _, hat, _, _⟩
    · exact heq
    · exact absurd ⟨t, hat⟩ ha

end SessionState
