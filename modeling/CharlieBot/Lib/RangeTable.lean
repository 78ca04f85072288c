import Mathlib.Data.List.Pairwise

/-!
# Tables of ranges

A set of numbers is kept as a table of ranges in increasing order, and a number is looked up by
halving: the search finds it exactly when a range has it (`search_eq_true_iff`).
-/

namespace RangeTable

/-- **A table**: ranges that are not empty, each behind the one before. -/
structure IsTable (ranges : List (ℕ × ℕ)) : Prop where
  ordered : ∀ r ∈ ranges, r.1 ≤ r.2
  apart : ranges.Pairwise fun r s => r.2 < s.1

/-- A range and the next one, neither of them empty. -/
def Next (r s : ℕ × ℕ) : Prop := r.1 ≤ r.2 ∧ r.2 < s.1 ∧ s.1 ≤ s.2

instance : DecidableRel Next := fun r s =>
  inferInstanceAs (Decidable (r.1 ≤ r.2 ∧ r.2 < s.1 ∧ s.1 ≤ s.2))

theorem IsTable.of_isChain {r s : ℕ × ℕ} {ranges : List (ℕ × ℕ)}
    (h : (r :: s :: ranges).IsChain Next) : IsTable (r :: s :: ranges) := by
  have htrans : ∀ a b c : ℕ × ℕ, Next a b → Next b c → Next a c := by
    rintro a b c ⟨h1, h2, h3⟩ ⟨-, h5, h6⟩
    exact ⟨h1, by omega, h6⟩
  have : Trans Next Next Next := ⟨fun {a b c} => htrans a b c⟩
  have hpairs := List.isChain_iff_pairwise.mp h
  refine ⟨fun t ht => ?_, hpairs.imp fun hnext => hnext.2.1⟩
  obtain ⟨hfirst, -⟩ := List.pairwise_cons.mp hpairs
  rcases List.mem_cons.mp ht with rfl | ht
  · exact (hfirst s List.mem_cons_self).1
  · exact (hfirst t ht).2.2

/-- The search among the ranges from `lo` on and before `hi`. -/
def search (ranges : List (ℕ × ℕ)) (n lo hi : ℕ) : Bool :=
  if lo < hi then
    let mid := (lo + (hi - 1)) / 2
    match ranges[mid]? with
    | some range =>
      if n < range.1 then search ranges n lo mid
      else if range.2 < n then search ranges n (mid + 1) hi
      else true
    | none => false
  else false
termination_by hi - lo

theorem exists_of_search {ranges : List (ℕ × ℕ)} {n lo hi : ℕ}
    (h : search ranges n lo hi = true) : ∃ r ∈ ranges, r.1 ≤ n ∧ n ≤ r.2 := by
  fun_induction search ranges n lo hi with
  | case1 lo hi hlt mid range hrange hbelow ih => exact ih h
  | case2 lo hi hlt mid range hrange _ habove ih => exact ih h
  | case3 lo hi hlt mid range hrange hbelow habove =>
    exact ⟨range, List.mem_of_getElem? hrange, Nat.le_of_not_lt hbelow, Nat.le_of_not_lt habove⟩
  | case4 => exact absurd h Bool.false_ne_true
  | case5 => exact absurd h Bool.false_ne_true

theorem search_of_getElem {ranges : List (ℕ × ℕ)} (htable : IsTable ranges) {n lo hi k : ℕ}
    (hhi : hi ≤ ranges.length) (hlo : lo ≤ k) (hk : k < hi) {r : ℕ × ℕ}
    (hr : ranges[k]? = some r) (hn : r.1 ≤ n ∧ n ≤ r.2) : search ranges n lo hi = true := by
  have hpairs : ∀ i j : ℕ, ∀ s t : ℕ × ℕ, ranges[i]? = some s → ranges[j]? = some t → i < j →
      s.2 < t.1 := by
    intro i j s t hs ht hij
    obtain ⟨hi', rfl⟩ := List.getElem?_eq_some_iff.mp hs
    obtain ⟨hj', rfl⟩ := List.getElem?_eq_some_iff.mp ht
    exact List.pairwise_iff_getElem.mp htable.apart i j hi' hj' hij
  fun_induction search ranges n lo hi with
  | case1 lo hi hlt mid range hrange hbelow ih =>
    refine ih (by omega) hlo (Nat.lt_of_not_le fun hle => ?_)
    -- the range in the middle begins behind the number, and the other not before it
    rcases Nat.eq_or_lt_of_le hle with rfl | hlt'
    · obtain rfl := Option.some.inj (hrange.symm.trans hr)
      omega
    · have := hpairs mid k range r hrange hr hlt'
      have := htable.ordered range (List.mem_of_getElem? hrange)
      omega
  | case2 lo hi hlt mid range hrange hbelow habove ih =>
    refine ih hhi (Nat.lt_of_not_le fun hle => ?_) hk
    rcases Nat.eq_or_lt_of_le hle with rfl | hlt'
    · obtain rfl := Option.some.inj (hrange.symm.trans hr)
      omega
    · have := hpairs k mid r range hr hrange hlt'
      have := htable.ordered range (List.mem_of_getElem? hrange)
      omega
  | case3 => rfl
  | case4 lo hi hlt mid hnone =>
    rw [List.getElem?_eq_none_iff] at hnone
    omega
  | case5 lo hi hge => omega

/-- **The search finds what a range has.** -/
theorem search_eq_true_iff {ranges : List (ℕ × ℕ)} (htable : IsTable ranges) {n : ℕ} :
    search ranges n 0 ranges.length = true ↔ ∃ r ∈ ranges, r.1 ≤ n ∧ n ≤ r.2 := by
  refine ⟨exists_of_search, ?_⟩
  rintro ⟨r, hr, hn⟩
  obtain ⟨k, hk⟩ := List.mem_iff_getElem?.mp hr
  obtain ⟨hlt, -⟩ := List.getElem?_eq_some_iff.mp hk
  exact search_of_getElem htable (Nat.le_refl _) (Nat.zero_le k) hlt hk hn

end RangeTable
