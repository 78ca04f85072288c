import Mathlib.Data.Nat.Basic
import Mathlib.Logic.Function.Basic

/-!
# Marks of what changed

Whoever writes a file that the sidebar or the panel of a session reads marks
the session after the write: it is dirty, its revision goes up by one, and the
path of the file is noted where the writer gives it.
-/

def markedPathsCap : ℕ := 64

/-- **The registry of marks**, for paths of some kind. -/
structure SidebarRegistry (π : Type) where
  /-- `_dirty`. -/
  dirty : String → Bool := fun _ => false
  /-- `_revisions`: how often a session was marked. -/
  revisions : String → ℕ := fun _ => 0
  /-- `_marked_paths`: what the writers marked since the last take. -/
  markedPaths : String → List π := fun _ => []

namespace SidebarRegistry

variable {π : Type}

def discardDirty (r : SidebarRegistry π) (sessionIds : List String) : SidebarRegistry π :=
  { r with dirty := fun sessionId => r.dirty sessionId && !sessionIds.contains sessionId }

variable [DecidableEq π]

/-- One more marked path. A burst that outran the cap drops all of them, the newest
included. -/
def addMarked (paths : List π) (path : π) : List π :=
  if markedPathsCap ≤ paths.length then []
  else if path ∈ paths then paths else paths ++ [path]

/-- `mark_sidebar_dirty`. -/
def mark (r : SidebarRegistry π) (sessionId : String) (path : Option π) : SidebarRegistry π :=
  { dirty := Function.update r.dirty sessionId true
    revisions := Function.update r.revisions sessionId (r.revisions sessionId + 1)
    markedPaths := match path with
      | none => r.markedPaths
      | some path =>
        Function.update r.markedPaths sessionId (addMarked (r.markedPaths sessionId) path) }

end SidebarRegistry

/-! ## The gate -/

namespace RevisionSweepGate

variable {g g' : RevisionSweepGate} {sessionId other : String} {revision r : ℕ}

end RevisionSweepGate
