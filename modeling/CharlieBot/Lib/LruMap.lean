import Mathlib.Data.List.AList

/-!
# Tables and bounded memos

A table is a list of keys and values in which no key is twice (`AList`).

A memo of a bounded size keeps the entries that were used last. What becomes
of an entry is a question of what else is used, so the one thing a reader may
rely on is that a memo tells nothing it was not told: what is found after an
entry was stored is that entry, or was found before (`LruMap.lookup_store`).
-/

variable {κ : Type*} {α β : Type*}

namespace AList

/-- The newest entries of a table. -/
def newest (n : ℕ) (t : AList fun _ : κ => α) : AList fun _ : κ => α :=
  ⟨t.entries.take n, t.nodupKeys.sublist (List.take_sublist n t.entries)⟩

variable [DecidableEq κ]

theorem lookup_newest {n : ℕ} {t : AList fun _ : κ => α} {k : κ} {a : α}
    (h : (t.newest n).lookup k = some a) : t.lookup k = some a := by
  have hmem := mem_lookup_iff.mp h
  exact mem_lookup_iff.mpr (List.mem_of_mem_take hmem)

end AList

/-- **A memo of a bounded size**, the entry that was used last in front. -/
structure LruMap (κ α : Type*) where
  /-- How many entries it may have. -/
  limit : ℕ
  entries : AList fun _ : κ => α := ∅

namespace LruMap

variable [DecidableEq κ]

/-- The value under a key. -/
def lookup (m : LruMap κ α) (k : κ) : Option α := m.entries.lookup k

/-- The memo after a value was asked for: a hit moves to the front. -/
def touch (m : LruMap κ α) (k : κ) : LruMap κ α :=
  match m.lookup k with
  | some a => { m with entries := m.entries.insert k a }
  | none => m

/-- The memo after a value was stored: what is past the limit is dropped. -/
def store (m : LruMap κ α) (k : κ) (a : α) : LruMap κ α :=
  { m with entries := (m.entries.insert k a).newest m.limit }

@[simp] theorem lookup_touch (m : LruMap κ α) (k k' : κ) :
    (m.touch k).lookup k' = m.lookup k' := by
  unfold touch
  cases h : m.lookup k with
  | none => rfl
  | some a =>
    show (m.entries.insert k a).lookup k' = m.entries.lookup k'
    by_cases hk : k' = k
    · subst hk
      rw [AList.lookup_insert]
      exact h.symm
    · rw [AList.lookup_insert_ne hk]

theorem lookup_store {m : LruMap κ α} {k k' : κ} {a b : α}
    (h : (m.store k a).lookup k' = some b) :
    k' = k ∧ b = a ∨ k' ≠ k ∧ m.lookup k' = some b := by
  have hnew : (m.entries.insert k a).lookup k' = some b := AList.lookup_newest h
  by_cases hk : k' = k
  · subst hk
    rw [AList.lookup_insert] at hnew
    exact .inl ⟨rfl, (Option.some.inj hnew).symm⟩
  · rw [AList.lookup_insert_ne hk] at hnew
    exact .inr ⟨hk, hnew⟩

end LruMap
