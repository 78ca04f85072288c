import Mathlib.Data.List.Basic

/-!
# Facts about a prefix of a list that grows

A heap of lists names each list by its place. A list grows in place and a new one takes a new
place, so that what a place held is a prefix of what it holds later (`Grows`).

A reader that has read a list up to some length keeps what it found with the place and the length.
What it found stays true however the heap grows (`PrefixFact.of_grows`), and if the answers of a
list combine from those of its two halves, reading on from there is reading the whole list
(`PrefixFact.resume`).
-/

variable {α β : Type*}

/-- **A heap that has grown**: what a place held is a prefix of what it holds. -/
def Grows (heap heap' : List (List α)) : Prop :=
  ∀ (i : ℕ) (l : List α), heap[i]? = some l → ∃ more, heap'[i]? = some (l ++ more)

namespace Grows

theorem refl (heap : List (List α)) : Grows heap heap :=
  fun _ l h => ⟨[], by rwa [List.append_nil]⟩

theorem new (heap : List (List α)) (l : List α) : Grows heap (heap ++ [l]) := by
  intro i l' h
  refine ⟨[], ?_⟩
  have hi : i < heap.length := (List.getElem?_eq_some_iff.mp h).1
  rwa [List.getElem?_append_left hi, List.append_nil]

theorem extend (heap : List (List α)) (i : ℕ) (a : α) :
    Grows heap (heap.modify i (· ++ [a])) := by
  intro j l h
  rw [List.getElem?_modify, h]
  by_cases hij : i = j
  · exact ⟨[a], by simp [hij]⟩
  · exact ⟨[], by simp [hij]⟩

end Grows

/-- **What a reader found in the first `n` items of a list.** -/
structure PrefixFact (read : List α → Option β) (heap : List (List α)) (i n : ℕ) (b : β) :
    Prop where
  /-- The list is there and is as long, and reading so much of it gives what is kept. -/
  holds : ∃ l, heap[i]? = some l ∧ n ≤ l.length ∧ read (l.take n) = some b

namespace PrefixFact

variable {read : List α → Option β} {heap heap' : List (List α)} {i n : ℕ} {b : β}

theorem of_grows (h : PrefixFact read heap i n b) (hgrows : Grows heap heap') :
    PrefixFact read heap' i n b := by
  obtain ⟨l, hl, hn, hread⟩ := h.holds
  obtain ⟨more, hmore⟩ := hgrows i l hl
  refine ⟨l ++ more, hmore, ?_, ?_⟩
  · rw [List.length_append]
    exact Nat.le_add_right_of_le hn
  · rwa [List.take_append_of_le_length hn]

theorem whole {l : List α} (hl : heap[i]? = some l) (hread : read l = some b) :
    PrefixFact read heap i l.length b :=
  ⟨l, hl, Nat.le_refl _, by rwa [List.take_length]⟩

/-- **Reading on is reading the whole list**, if answers combine. -/
theorem resume {combine : β → β → β}
    (hcombine : ∀ xs ys a, read xs = some a →
      read (xs ++ ys) = (read ys).map (combine a))
    {l : List α} (h : PrefixFact read heap i n b) (hl : heap[i]? = some l) :
    n ≤ l.length ∧ read l = (read (l.drop n)).map (combine b) := by
  obtain ⟨l', hl', hn, hread⟩ := h.holds
  obtain rfl : l = l' := Option.some.inj (hl.symm.trans hl')
  refine ⟨hn, ?_⟩
  calc read l = read (l.take n ++ l.drop n) := by rw [List.take_append_drop]
    _ = (read (l.drop n)).map (combine b) := hcombine _ _ b hread

end PrefixFact
