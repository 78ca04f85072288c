import Mathlib.Data.List.Basic

/-!
# Traversing and cutting lists

`List.mapM` over `Option` gives up at the first item its step fails on.
The lemmas here say what a traversal that succeeds returns, and how the
traversals of two steps compare.
-/

namespace List

variable {α β : Type*}

theorem exists_of_mem_mapM {f : α → Option β} {as : List α} {bs : List β}
    (h : as.mapM f = some bs) {b : β} (hb : b ∈ bs) :
    ∃ a ∈ as, f a = some b := by
  induction as generalizing bs with
  | nil =>
    cases h
    exact absurd hb not_mem_nil
  | cons a as ih =>
    rw [mapM_cons] at h
    obtain ⟨b', hb', h⟩ := Option.bind_eq_some_iff.mp h
    obtain ⟨bs', hbs', h⟩ := Option.bind_eq_some_iff.mp h
    cases h
    rcases mem_cons.mp hb with rfl | hb
    · exact ⟨a, mem_cons_self, hb'⟩
    · obtain ⟨a', ha', hf⟩ := ih hbs' hb
      exact ⟨a', mem_cons_of_mem _ ha', hf⟩

theorem mapM_congr_mem {f g : α → Option β} {as : List α}
    (h : ∀ a ∈ as, f a = g a) : as.mapM f = as.mapM g := by
  induction as with
  | nil => rfl
  | cons a as ih =>
    rw [mapM_cons, mapM_cons, h a mem_cons_self,
      ih fun a ha => h a (mem_cons_of_mem _ ha)]

theorem mapM_eq_map {f g : α → Option β} {k : β → β} {as : List α}
    (h : ∀ a ∈ as, f a = (g a).map k) :
    as.mapM f = (as.mapM g).map (List.map k) := by
  induction as with
  | nil => rfl
  | cons a as ih =>
    rw [mapM_cons, mapM_cons, h a mem_cons_self,
      ih fun a ha => h a (mem_cons_of_mem _ ha)]
    cases g a with
    | none => rfl
    | some b => cases as.mapM g <;> rfl

theorem isSome_mapM_iff {f : α → Option β} {as : List α} :
    (as.mapM f).isSome = true ↔ ∀ a ∈ as, (f a).isSome = true := by
  induction as with
  | nil => simp
  | cons a as ih =>
    rw [forall_mem_cons, ← ih, mapM_cons]
    cases f a with
    | none => exact iff_of_false Bool.false_ne_true fun h => Bool.false_ne_true h.1
    | some b => cases as.mapM f <;> simp

theorem map_eq_of_mapM_eq {f : α → Option β} {as : List α} {bs : List β}
    (h : as.mapM f = some bs) : as.map f = bs.map some := by
  induction as generalizing bs with
  | nil =>
    cases h
    rfl
  | cons a as ih =>
    rw [mapM_cons] at h
    obtain ⟨b, hb, h⟩ := Option.bind_eq_some_iff.mp h
    obtain ⟨bs, hbs, h⟩ := Option.bind_eq_some_iff.mp h
    cases h
    rw [map_cons, map_cons, hb, ih hbs]

theorem eq_of_map_eq {f : α → β} {as bs : List α} (h : as.map f = bs.map f)
    (hf : ∀ a ∈ as, ∀ b ∈ bs, f a = f b → a = b) : as = bs := by
  induction as generalizing bs with
  | nil => exact (map_eq_nil_iff.mp h.symm).symm
  | cons a as ih =>
    cases bs with
    | nil => cases h
    | cons b bs =>
      rw [map_cons, map_cons, cons.injEq] at h
      rw [hf a mem_cons_self b mem_cons_self h.1,
        ih h.2 fun a ha b hb => hf a (mem_cons_of_mem _ ha) b (mem_cons_of_mem _ hb)]

end List
