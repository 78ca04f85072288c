import Mathlib.Algebra.Group.End
import Mathlib.Algebra.Group.Int.Defs

/-!
# The Gregorian calendar, without a beginning

A date is a year, which may be zero or negative, a month and a day that the month has. One date
follows another (`tomorrow`), and each is followed by one and follows one, so that dates are counted
from a date in both directions (`dateAt`): that is all the calendar is, and a formula for it is
right if it goes from each date to the next one (`eq_dateAt`).
-/

namespace Calendar

def IsLeap (year : ℤ) : Prop := year % 4 = 0 ∧ (year % 100 ≠ 0 ∨ year % 400 = 0)

instance (year : ℤ) : Decidable (IsLeap year) := inferInstanceAs (Decidable (_ ∧ _))

def daysInMonth (year month : ℤ) : ℤ :=
  if month = 2 then if IsLeap year then 29 else 28
  else if month = 4 ∨ month = 6 ∨ month = 9 ∨ month = 11 then 30
  else 31

theorem daysInMonth_pos (year month : ℤ) : 1 ≤ daysInMonth year month := by
  unfold daysInMonth
  split_ifs <;> decide

end Calendar

open Calendar in
/-- **A date.** -/
@[ext] structure CalendarDate where
  year : ℤ
  month : ℤ
  day : ℤ
  month_pos : 1 ≤ month
  month_le : month ≤ 12
  day_pos : 1 ≤ day
  day_le : day ≤ daysInMonth year month

namespace CalendarDate

open Calendar

def next (t : CalendarDate) : CalendarDate :=
  if h : t.day < daysInMonth t.year t.month then
    { t with day := t.day + 1, day_pos := by have := t.day_pos; omega, day_le := h }
  else if h : t.month < 12 then
    ⟨t.year, t.month + 1, 1, by have := t.month_pos; omega, h, le_rfl, daysInMonth_pos _ _⟩
  else ⟨t.year + 1, 1, 1, le_rfl, by decide, le_rfl, daysInMonth_pos _ _⟩

def previous (t : CalendarDate) : CalendarDate :=
  if h : 1 < t.day then
    { t with day := t.day - 1, day_pos := by omega, day_le := by have := t.day_le; omega }
  else if h : 1 < t.month then
    ⟨t.year, t.month - 1, daysInMonth t.year (t.month - 1), by omega,
      by have := t.month_le; omega, daysInMonth_pos _ _, le_rfl⟩
  else ⟨t.year - 1, 12, daysInMonth (t.year - 1) 12, by decide, le_rfl, daysInMonth_pos _ _, le_rfl⟩

theorem previous_next (t : CalendarDate) : t.next.previous = t := by
  have hmonth := t.month_pos
  have hle := t.day_le
  have hday := t.day_pos
  have hmonth' := t.month_le
  unfold next
  split_ifs with h h'
  · unfold previous
    rw [dif_pos (show 1 < t.day + 1 by omega)]
    exact CalendarDate.ext rfl rfl (Int.add_sub_cancel t.day 1)
  · unfold previous
    rw [dif_neg (lt_irrefl 1), dif_pos (show 1 < t.month + 1 by omega)]
    refine CalendarDate.ext rfl (Int.add_sub_cancel t.month 1) ?_
    show daysInMonth t.year (t.month + 1 - 1) = t.day
    rw [Int.add_sub_cancel]
    omega
  · have hdecember : t.month = 12 := by omega
    unfold previous
    rw [dif_neg (lt_irrefl 1), dif_neg (lt_irrefl 1)]
    refine CalendarDate.ext (Int.add_sub_cancel t.year 1) hdecember.symm ?_
    show daysInMonth (t.year + 1 - 1) 12 = t.day
    rw [Int.add_sub_cancel, ← hdecember]
    omega

theorem next_previous (t : CalendarDate) : t.previous.next = t := by
  have hmonth := t.month_pos
  have hle := t.day_le
  have hday := t.day_pos
  unfold previous
  split_ifs with h h'
  · unfold next
    rw [dif_pos (show t.day - 1 < daysInMonth t.year t.month by omega)]
    exact CalendarDate.ext rfl rfl (Int.sub_add_cancel t.day 1)
  · have hmonth' := t.month_le
    unfold next
    rw [dif_neg (lt_irrefl _), dif_pos (show t.month - 1 < 12 by omega)]
    exact CalendarDate.ext rfl (Int.sub_add_cancel t.month 1) (by show 1 = t.day; omega)
  · unfold next
    rw [dif_neg (lt_irrefl _), dif_neg (lt_irrefl _)]
    exact CalendarDate.ext (Int.sub_add_cancel t.year 1) (by show 1 = t.month; omega)
      (by show 1 = t.day; omega)

section Next

variable {t t' : CalendarDate}

theorem next_of_day (hyear : t'.year = t.year) (hmonth : t'.month = t.month)
    (hday : t'.day = t.day + 1) : t.next = t' := by
  have hle := t'.day_le
  rw [hyear, hmonth, hday] at hle
  unfold next
  rw [dif_pos (Int.lt_of_add_one_le hle)]
  exact CalendarDate.ext hyear.symm hmonth.symm hday.symm

theorem next_of_month (hlast : t.day = daysInMonth t.year t.month) (hyear : t'.year = t.year)
    (hmonth : t'.month = t.month + 1) (hday : t'.day = 1) : t.next = t' := by
  have hle := t'.month_le
  rw [hmonth] at hle
  unfold next
  rw [dif_neg (by omega), dif_pos (Int.lt_of_add_one_le hle)]
  exact CalendarDate.ext hyear.symm hmonth.symm hday.symm

theorem next_of_year (hlast : t.day = daysInMonth t.year t.month) (hdecember : t.month = 12)
    (hyear : t'.year = t.year + 1) (hmonth : t'.month = 1) (hday : t'.day = 1) : t.next = t' := by
  unfold next
  rw [dif_neg (by omega), dif_neg (by omega)]
  exact CalendarDate.ext hyear.symm hmonth.symm hday.symm

end Next

/-- **One day further.** -/
def tomorrow : Equiv.Perm CalendarDate where
  toFun := next
  invFun := previous
  left_inv := previous_next
  right_inv := next_previous

/-- **The date so many days after a date**, or before it. -/
def dateAt (start : CalendarDate) (days : ℤ) : CalendarDate := (tomorrow ^ days) start

variable {start : CalendarDate}

@[simp] theorem dateAt_zero : start.dateAt 0 = start := rfl

theorem dateAt_add_one (days : ℤ) : start.dateAt (days + 1) = (start.dateAt days).next := by
  unfold dateAt
  rw [Int.add_comm, zpow_add, zpow_one]
  rfl

/-- **What goes from each date to the next** counts the days. -/
theorem eq_dateAt {date : ℤ → CalendarDate} (hstart : date 0 = start)
    (hnext : ∀ days, date (days + 1) = (date days).next) (days : ℤ) :
    date days = start.dateAt days := by
  induction days using Int.induction_on with
  | zero => exact hstart
  | succ n ih => rw [hnext, dateAt_add_one, ih]
  | pred n ih =>
    refine tomorrow.injective ?_
    show (date (-n - 1)).next = (start.dateAt (-n - 1)).next
    rw [← hnext, ← dateAt_add_one, Int.sub_add_cancel, ih]

end CalendarDate
