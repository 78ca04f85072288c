import Mathlib.Data.Nat.Basic

/-!
# Cells and what was read of them

A cell that is written over and over counts its writes, and what a reader
took from it is a pair of the same kind: the content, and the number of
writes it was read after. A snapshot is *true to* a cell when it is of the
cell's past and tells the present content if it is of the present
(`TrueTo`).

Being true to a cell survives every later write of the cell, so it holds
of every snapshot ever taken. Whether a snapshot is still current is then
a comparison of two numbers, and `TrueTo.content_eq` says what the
comparison is worth.
-/

variable {α : Type*}

/-- **A cell**, or a snapshot of one. -/
structure Versioned (α : Type*) where
  content : α
  /-- How many writes led there. -/
  version : ℕ

namespace Versioned

/-- The cell written over. -/
def write (c : Versioned α) (a : α) : Versioned α := ⟨a, c.version + 1⟩

@[simp] theorem content_write (c : Versioned α) (a : α) : (c.write a).content = a := rfl

/-- **A snapshot is true to a cell**: it is of its past, and tells its
content if it is of its present. -/
structure TrueTo (s c : Versioned α) : Prop where
  /-- The snapshot is not of the cell's future. -/
  le : s.version ≤ c.version
  /-- A snapshot of the present tells the content. -/
  content_eq : s.version = c.version → s.content = c.content

theorem TrueTo.refl (c : Versioned α) : c.TrueTo c := ⟨le_refl _, fun _ => rfl⟩

theorem TrueTo.write {s c : Versioned α} (h : s.TrueTo c) (a : α) :
    s.TrueTo (c.write a) := by
  refine ⟨Nat.le_succ_of_le h.le, fun heq => ?_⟩
  have hlt : s.version < (c.write a).version := Nat.lt_succ_of_le h.le
  omega

end Versioned
