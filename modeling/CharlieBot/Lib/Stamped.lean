import Mathlib.Data.List.Basic

/-!
# Values kept under a signature

A reader that keeps what it read keeps the signature of the source beside
it – a modification time and a size, say – and serves the kept value again
while the source still has that signature. This is sound when a change of
the source gives it a signature it never had: then a kept value is *true
to* the source (`TrueTo`), which means that its signature is one the source
has or had, and that it tells the present content if it is the present one.

`TrueTo.write` keeps this along every change, and `fresh_eq_some` says what
a comparison of two signatures is worth.
-/

/-- A file's signature: its modification time and its size. -/
abbrev StatSignature := ℕ × ℕ

theorem StatSignature.lawfulBEq : LawfulBEq StatSignature := inferInstance

variable {τ α : Type*}

/-- **A value under a signature.** -/
structure Stamped (τ α : Type*) where
  content : α
  stamp : τ

/-- **A source**: its content under its signature, and the signatures it
had before. -/
structure StampedSource (τ α : Type*) extends Stamped τ α where
  /-- The signatures it had before. -/
  past : List τ

/-- **Signatures that came before a change.** A signature is new when it is
none of them. -/
def StampedSource.stamps (c : StampedSource τ α) : List τ := c.stamp :: c.past

def StampedSource.write (c : StampedSource τ α) (a : α) (t : τ) : StampedSource τ α :=
  ⟨⟨a, t⟩, c.stamps⟩

namespace Stamped

/-- **A kept value is true to a source.** -/
structure TrueTo (s : Stamped τ α) (c : StampedSource τ α) : Prop where
  /-- Its signature is one the source has or had. -/
  mem : s.stamp ∈ c.stamps
  /-- It tells the content if its signature is the present one. -/
  content_eq : s.stamp = c.stamp → s.content = c.content

theorem TrueTo.refl (c : StampedSource τ α) : c.toStamped.TrueTo c :=
  ⟨List.mem_cons_self, fun _ => rfl⟩

theorem TrueTo.write {s : Stamped τ α} {c : StampedSource τ α} (h : s.TrueTo c) (a : α)
    {t : τ} (ht : t ∉ c.stamps) : s.TrueTo (c.write a t) := by
  refine ⟨List.mem_cons_of_mem _ h.mem, fun heq => ?_⟩
  have hmem := h.mem
  rw [heq] at hmem
  exact absurd hmem ht

/-- The kept value, if its signature is the one given. -/
def fresh [DecidableEq τ] (entry : Option (Stamped τ α)) (t : τ) : Option α :=
  match entry with
  | some e => if e.stamp = t then some e.content else none
  | none => none

/-- **A value served under the present signature is the present content.** -/
theorem fresh_eq_some [DecidableEq τ] {entry : Option (Stamped τ α)} {a : α}
    {c : StampedSource τ α} (hentry : ∀ e, entry = some e → e.TrueTo c)
    (h : fresh entry c.stamp = some a) : a = c.content := by
  unfold fresh at h
  split at h
  · next e =>
    split at h
    · next hstamp =>
      cases h
      exact (hentry e rfl).content_eq hstamp
    · cases h
  · cases h

end Stamped
