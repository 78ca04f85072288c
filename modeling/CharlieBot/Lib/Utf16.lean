import Mathlib.Data.List.Basic

/-!
# UTF-16

A string is a list of code units. A high surrogate and the low one behind it are one code point; any
other unit is one by itself, a surrogate without its partner too.
-/

namespace Utf16

/-- The first half of a pair. -/
def isHigh (u : UInt16) : Bool := 0xD800 ≤ u.toNat && u.toNat ≤ 0xDBFF

/-- The second half of a pair. -/
def isLow (u : UInt16) : Bool := 0xDC00 ≤ u.toNat && u.toNat ≤ 0xDFFF

/-- The code point of a pair. -/
def pair (u v : UInt16) : ℕ := 0x10000 + (u.toNat - 0xD800) * 0x400 + (v.toNat - 0xDC00)

/-- `codePointAt(0)`, of a string that is not empty. -/
def codePointAt : List UInt16 → ℕ
  | [] => 0
  | [u] => u.toNat
  | u :: v :: _ => if isHigh u && isLow v then pair u v else u.toNat

/-- The units of a code point. -/
def width (cp : ℕ) : ℕ := if 0xFFFF < cp then 2 else 1

/-- **The code points of a string**, each with its units. -/
def codePoints : List UInt16 → List (List UInt16)
  | [] => []
  | [u] => [[u]]
  | u :: v :: rest =>
    if isHigh u && isLow v then [u, v] :: codePoints rest else [u] :: codePoints (v :: rest)

theorem width_pos (cp : ℕ) : 0 < width cp := by
  rw [width]
  split
  · exact Nat.two_pos
  · exact Nat.one_pos

theorem width_unit (u : UInt16) : width u.toNat = 1 :=
  if_neg (Nat.not_lt.mpr (Nat.le_of_lt_succ u.toNat_lt))

theorem width_pair (u v : UInt16) : width (pair u v) = 2 := by
  have hlt : 0xFFFF < pair u v := by
    unfold pair
    omega
  exact if_pos hlt

/-- **The first code point**, and those behind it. -/
theorem codePoints_cons (u : UInt16) (rest : List UInt16) : codePoints (u :: rest)
    = (u :: rest).take (width (codePointAt (u :: rest)))
      :: codePoints ((u :: rest).drop (width (codePointAt (u :: rest)))) := by
  cases rest with
  | nil =>
    rw [codePointAt, width_unit]
    rfl
  | cons v rest =>
    rw [codePoints, codePointAt]
    split
    · rw [width_pair]
      rfl
    · rw [width_unit]
      rfl

theorem codePointAt_take (u : UInt16) (rest : List UInt16) :
    codePointAt ((u :: rest).take (width (codePointAt (u :: rest)))) = codePointAt (u :: rest) := by
  cases rest with
  | nil =>
    rw [codePointAt, width_unit]
    rfl
  | cons v rest =>
    by_cases h : isHigh u && isLow v
    · have hcp : codePointAt (u :: v :: rest) = pair u v := if_pos h
      rw [hcp, width_pair]
      exact if_pos h
    · have hcp : codePointAt (u :: v :: rest) = u.toNat := if_neg h
      rw [hcp, width_unit]
      rfl

/-- A code point of two units is a pair, and behind its first unit there is the second alone. -/
theorem second_of_width_two {u : UInt16} {rest : List UInt16}
    (h : width (codePointAt (u :: rest)) = 2) :
    ∃ v more, rest = v :: more ∧ isLow v = true ∧ codePointAt rest = v.toNat := by
  cases rest with
  | nil =>
    rw [codePointAt, width_unit] at h
    exact absurd h (by decide)
  | cons v rest =>
    rw [codePointAt] at h
    split at h
    · next hpair =>
      have hlow := (Bool.and_eq_true_iff.mp hpair).2
      have hhigh : isHigh v = false := by
        simp only [isLow, Bool.and_eq_true, decide_eq_true_eq] at hlow
        simp only [isHigh, Bool.and_eq_false_iff, decide_eq_false_iff_not]
        omega
      refine ⟨v, rest, rfl, hlow, ?_⟩
      cases rest with
      | nil => rfl
      | cons w rest => rw [codePointAt, hhigh, Bool.false_and, if_neg Bool.false_ne_true]
    · rw [width_unit] at h
      exact absurd h (by decide)

end Utf16
