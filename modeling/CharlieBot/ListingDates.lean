import CharlieBot.Lib.Calendar
import Mathlib.Data.Rat.Floor
import Mathlib.Tactic.IntervalCases

/-!
# The dates of a listing

A listing shows when a file was changed, to the minute, and makes the text of it from the seconds
since 1970-01-01 by arithmetic on integers: a year starts in March there, so that a leap day is the
last of a year, and four hundred years have the same number of days.

Every day is some day of some year that starts in March (`exists_split`); the formulas find that
year (`yearOfEra_eq`), and go from a date to the next (`civilDate_next`). **The date is therefore
the one that is found by counting the days** (`formatMtime_eq`), on either side of 1970.
-/

namespace ListingDates

open Calendar

/-! ## The formulas -/

def yearOfEra (doe : ℤ) : ℤ := (doe - doe / 1460 + doe / 36524 - doe / 146096) / 365

/-- Year, month and day of a day of the year that starts in March. -/
def ofMarch (y doy : ℤ) : ℤ × ℤ × ℤ :=
  let mp := (5 * doy + 2) / 153
  let d := doy - (153 * mp + 2) / 5 + 1
  let m := if mp < 10 then mp + 3 else mp - 9
  (y + if m ≤ 2 then 1 else 0, m, d)

/-- The date of a day since 1970-01-01. -/
def civilFromDays (days : ℤ) : ℤ × ℤ × ℤ :=
  let z := days + 719468
  let era := z / 146097
  let doe := z - era * 146097
  let yoe := yearOfEra doe
  let doy := doe - (365 * yoe + yoe / 4 - yoe / 100)
  ofMarch (yoe + era * 400) doy

/-- `"%02d" % n`. -/
def pad2 (n : ℤ) : String :=
  let digits := toString n
  if digits.length < 2 then "0" ++ digits else digits

/-- **`_format_mtime`**. -/
def formatMtime (epoch : ℚ) : String :=
  let days := ⌊epoch⌋ / 86400
  let secsOfDay := ⌊epoch⌋ % 86400
  let hh := secsOfDay / 3600
  let rem := secsOfDay % 3600
  let date := civilFromDays days
  toString date.1 ++ "-" ++ pad2 date.2.1 ++ "-" ++ pad2 date.2.2 ++ " " ++ pad2 hh ++ ":"
    ++ pad2 (rem / 60)

/-! ## Years that start in March -/

/-- **A day of a year that starts in March**, by its number. -/
structure MarchDay where
  year : ℤ
  doy : ℤ
  doy_nonneg : 0 ≤ doy
  doy_le : doy ≤ 364 ∨ doy = 365 ∧ IsLeap (year + 1)

namespace MarchDay

/-- The days from the start of an era. -/
def days (t : MarchDay) : ℤ := 365 * t.year + t.year / 4 - t.year / 100 + t.year / 400 + t.doy

def triple (t : MarchDay) : ℤ × ℤ × ℤ := ofMarch t.year t.doy

theorem month_of_doy (t : MarchDay) :
    0 ≤ (5 * t.doy + 2) / 153 ∧ (5 * t.doy + 2) / 153 ≤ 11 := by
  have h := t.doy_nonneg
  have hle : t.doy ≤ 365 := t.doy_le.elim (fun h => by omega) fun h => by omega
  omega

theorem valid (t : MarchDay) : 1 ≤ t.triple.2.1 ∧ t.triple.2.1 ≤ 12 ∧ 1 ≤ t.triple.2.2
    ∧ t.triple.2.2 ≤ daysInMonth t.triple.1 t.triple.2.1 := by
  obtain ⟨hlow, hhigh⟩ := t.month_of_doy
  have hle := t.doy_le
  have hnonneg := t.doy_nonneg
  unfold triple ofMarch daysInMonth
  dsimp only
  generalize hmp : (5 * t.doy + 2) / 153 = mp at hlow hhigh ⊢
  by_cases hfebruary : mp = 11
  · subst hfebruary
    have hday : t.doy - (153 * 11 + 2) / 5 + 1 ≤ if IsLeap (t.year + 1) then 29 else 28 := by
      split_ifs with hleap
      · omega
      · have hshort : t.doy ≤ 364 := hle.resolve_right fun h => hleap h.2
        omega
    exact ⟨by decide, by decide, by omega, hday⟩
  · have hhigh : mp ≤ 10 := by omega
    interval_cases mp
    all_goals exact ⟨by decide, by decide, by omega, by simp; omega⟩

def date (t : MarchDay) : CalendarDate where
  year := t.triple.1
  month := t.triple.2.1
  day := t.triple.2.2
  month_pos := t.valid.1
  month_le := t.valid.2.1
  day_pos := t.valid.2.2.1
  day_le := t.valid.2.2.2

theorem triple_of_month {t : MarchDay} {mp : ℤ} (h : (5 * t.doy + 2) / 153 = mp) :
    t.triple = (t.year + if (if mp < 10 then mp + 3 else mp - 9) ≤ 2 then 1 else 0,
      if mp < 10 then mp + 3 else mp - 9, t.doy - (153 * mp + 2) / 5 + 1) := by
  unfold triple ofMarch
  rw [h]

/-- **Within a year, the date goes on to the next.** -/
theorem next_date_of_doy {t t' : MarchDay} (hyear : t'.year = t.year) (hdoy : t'.doy = t.doy + 1) :
    t.date.next = t'.date := by
  obtain ⟨hlow, hhigh⟩ := t'.month_of_doy
  have hnonneg := t.doy_nonneg
  obtain ⟨mp, hmp⟩ : ∃ mp, (5 * t.doy + 2) / 153 = mp := ⟨_, rfl⟩
  have ht := triple_of_month hmp
  by_cases hsame : 5 * t'.doy + 2 < 153 * (mp + 1)
  · have ht' := @triple_of_month t' mp (by omega)
    rw [hyear, hdoy] at ht'
    refine CalendarDate.next_of_day ?_ ?_ ?_
    · show t'.triple.1 = t.triple.1
      rw [ht, ht']
    · show t'.triple.2.1 = t.triple.2.1
      rw [ht, ht']
    · show t'.triple.2.2 = t.triple.2.2 + 1
      rw [ht, ht']
      dsimp only
      omega
  · -- the day before was the last of its month
    have ht' := @triple_of_month t' (mp + 1) (by omega)
    have hfirst : t'.doy - (153 * (mp + 1) + 2) / 5 + 1 = 1 := by omega
    have hlast : t.doy - (153 * mp + 2) / 5 + 1
        = (153 * (mp + 1) + 2) / 5 - (153 * mp + 2) / 5 := by omega
    rw [hyear, hfirst] at ht'
    rw [hlast] at ht
    have hmp0 : 0 ≤ mp := by omega
    have hmp10 : mp ≤ 10 := by omega
    by_cases hdecember : mp = 9
    · subst hdecember
      refine CalendarDate.next_of_year ?_ ?_ ?_ ?_ ?_
      · show t.triple.2.2 = daysInMonth t.triple.1 t.triple.2.1
        rw [ht]
        rfl
      · show t.triple.2.1 = 12
        rw [ht]
        rfl
      · show t'.triple.1 = t.triple.1 + 1
        rw [ht, ht']
        simp
      · show t'.triple.2.1 = 1
        rw [ht']
        rfl
      · show t'.triple.2.2 = 1
        rw [ht']
    · refine CalendarDate.next_of_month ?_ ?_ ?_ ?_
      · show t.triple.2.2 = daysInMonth t.triple.1 t.triple.2.1
        rw [ht]
        interval_cases mp <;> first | rfl | omega
      · show t'.triple.1 = t.triple.1
        rw [ht, ht']
        interval_cases mp <;> first | rfl | omega
      · show t'.triple.2.1 = t.triple.2.1 + 1
        rw [ht, ht']
        interval_cases mp <;> first | rfl | omega
      · show t'.triple.2.2 = 1
        rw [ht']

/-- **Behind the last of February comes the first day of the next year.** -/
theorem next_date_of_year {t t' : MarchDay} (hyear : t'.year = t.year + 1) (hdoy : t'.doy = 0)
    (hlast : t.doy = if IsLeap (t.year + 1) then 365 else 364) : t.date.next = t'.date := by
  have ht : t.triple = (t.year + 1, 2, daysInMonth (t.year + 1) 2) := by
    rw [@triple_of_month t 11 (by rw [hlast]; split_ifs <;> rfl), hlast]
    show (t.year + 1, 2, (if IsLeap (t.year + 1) then 365 else 364) - 337 + 1)
      = (t.year + 1, 2, if IsLeap (t.year + 1) then 29 else 28)
    split_ifs <;> rfl
  have ht' : t'.triple = (t.year + 1, 3, 1) := by
    rw [@triple_of_month t' 0 (by rw [hdoy]; rfl), hdoy, hyear]
    simp
  refine CalendarDate.next_of_month ?_ ?_ ?_ ?_
  · show t.triple.2.2 = daysInMonth t.triple.1 t.triple.2.1
    rw [ht]
  · show t'.triple.1 = t.triple.1
    rw [ht, ht']
  · show t'.triple.2.1 = t.triple.2.1 + 1
    rw [ht, ht']
    rfl
  · show t'.triple.2.2 = 1
    rw [ht']

theorem exists_next (t : MarchDay) : ∃ t' : MarchDay, t'.days = t.days + 1
    ∧ t.date.next = t'.date := by
  have hnonneg := t.doy_nonneg
  have hle := t.doy_le
  by_cases hlast : t.doy = if IsLeap (t.year + 1) then 365 else 364
  · refine ⟨⟨t.year + 1, 0, le_rfl, .inl (by decide)⟩, ?_, next_date_of_year rfl rfl hlast⟩
    unfold days
    dsimp only
    rw [hlast]
    unfold IsLeap
    split_ifs with hleap
    · omega
    · omega
  · refine ⟨⟨t.year, t.doy + 1, by omega, ?_⟩, ?_, next_date_of_doy rfl rfl⟩
    · split_ifs at hlast with hleap
      · rcases hle with hle | hle
        · by_cases hend : t.doy = 364
          · exact .inr ⟨by omega, hleap⟩
          · exact .inl (by omega)
        · exact absurd hle.1 hlast
      · have hshort : t.doy ≤ 364 := hle.resolve_right fun h => hleap h.2
        exact .inl (by omega)
    · unfold days
      dsimp only
      omega

theorem days_lt {t t' : MarchDay} (h : t.year < t'.year) : t.days < t'.days := by
  have hle := t.doy_le
  have hnonneg := t'.doy_nonneg
  have hend : t.days < 365 * (t.year + 1) + (t.year + 1) / 4 - (t.year + 1) / 100
      + (t.year + 1) / 400 := by
    unfold days
    unfold IsLeap at hle
    omega
  have hmono : 365 * (t.year + 1) + (t.year + 1) / 4 - (t.year + 1) / 100 + (t.year + 1) / 400
      ≤ 365 * t'.year + t'.year / 4 - t'.year / 100 + t'.year / 400 := by omega
  unfold days at hend ⊢
  omega

theorem eq_of_days {t t' : MarchDay} (h : t.days = t'.days) : t = t' := by
  rcases Int.lt_trichotomy t.year t'.year with hlt | heq | hgt
  · exact absurd h (days_lt hlt).ne
  · have hdoy : t.doy = t'.doy := by
      unfold days at h
      rw [heq] at h
      omega
    cases t
    cases t'
    cases heq
    cases hdoy
    rfl
  · exact absurd h (days_lt hgt).ne'

end MarchDay

/-! ## The formulas find the year -/

theorem exists_split {doe : ℤ} (hnonneg : 0 ≤ doe) (hle : doe ≤ 146096) :
    ∃ a b c doy : ℤ, (0 ≤ a ∧ a ≤ 3) ∧ (0 ≤ b ∧ b ≤ 24) ∧ (0 ≤ c ∧ c ≤ 3) ∧ 0 ≤ doy
      ∧ (doy ≤ 364 ∨ doy = 365 ∧ c = 3 ∧ (b ≠ 24 ∨ a = 3))
      ∧ doe = 36524 * a + 1461 * b + 365 * c + doy := by
  obtain ⟨a, ha, hrest⟩ : ∃ a : ℤ, (0 ≤ a ∧ a ≤ 3) ∧ 0 ≤ doe - 36524 * a
      ∧ (doe - 36524 * a ≤ 36523 ∨ a = 3 ∧ doe - 36524 * a ≤ 36524) := by
    by_cases hlast : doe = 146096
    · exact ⟨3, by omega, by omega, by omega⟩
    · exact ⟨doe / 36524, by omega, by omega, by omega⟩
  obtain ⟨b, hb, hyears⟩ : ∃ b : ℤ, (0 ≤ b ∧ b ≤ 24) ∧ 0 ≤ doe - 36524 * a - 1461 * b
      ∧ doe - 36524 * a - 1461 * b ≤ 1460 :=
    ⟨(doe - 36524 * a) / 1461, by omega, by omega, by omega⟩
  by_cases hleap : doe - 36524 * a - 1461 * b = 1460
  · exact ⟨a, b, 3, 365, ha, hb, by omega, by omega, by omega, by omega⟩
  · exact ⟨a, b, (doe - 36524 * a - 1461 * b) / 365, (doe - 36524 * a - 1461 * b) % 365, ha, hb,
      by omega, by omega, by omega, by omega⟩

/-- **The year of an era is found** from any day of it. -/
theorem yearOfEra_eq {a b c doy : ℤ} (ha : 0 ≤ a ∧ a ≤ 3) (hb : 0 ≤ b ∧ b ≤ 24)
    (hc : 0 ≤ c ∧ c ≤ 3) (hnonneg : 0 ≤ doy)
    (hle : doy ≤ 364 ∨ doy = 365 ∧ c = 3 ∧ (b ≠ 24 ∨ a = 3)) :
    yearOfEra (36524 * a + 1461 * b + 365 * c + doy) = 100 * a + 4 * b + c := by
  have hcentury : (36524 * a + 1461 * b + 365 * c + doy) / 36524
      - (36524 * a + 1461 * b + 365 * c + doy) / 146096 = a := by
    by_cases hlast : a = 3 ∧ b = 24 ∧ c = 3 ∧ doy = 365
    · obtain ⟨rfl, rfl, rfl, rfl⟩ := hlast
      rfl
    · have hthis : (36524 * a + 1461 * b + 365 * c + doy) / 36524 = a := by omega
      have hnone : (36524 * a + 1461 * b + 365 * c + doy) / 146096 = 0 := by omega
      rw [hthis, hnone, Int.sub_zero]
  -- one more than the leap days where the year is nearly over
  have hfour : ∃ e : ℤ, (36524 * a + 1461 * b + 365 * c + doy) / 1460 = 25 * a + b + e
      ∧ 0 ≤ doy - e ∧ doy - e ≤ 364 := by
    refine ⟨(24 * a + b + 365 * c + doy) / 1460, by omega, ?_, ?_⟩
    · omega
    · omega
  obtain ⟨e, he, hlow, hhigh⟩ := hfour
  unfold yearOfEra
  rw [he]
  omega

theorem exists_marchDay (days : ℤ) :
    ∃ t : MarchDay, t.days = days + 719468 ∧ civilFromDays days = t.triple := by
  have hera : days + 719468 - (days + 719468) / 146097 * 146097 = (days + 719468) % 146097 := by
    omega
  obtain ⟨a, b, c, doy, ha, hb, hc, hnonneg, hle, hsplit⟩ :=
    @exists_split ((days + 719468) % 146097) (by omega) (by omega)
  have hyear := yearOfEra_eq ha hb hc hnonneg hle
  obtain ⟨era, hdays⟩ : ∃ era, days + 719468 = 146097 * era + (days + 719468) % 146097 :=
    ⟨(days + 719468) / 146097, by omega⟩
  have hera' : (days + 719468) / 146097 = era := by omega
  have hdoy : 36524 * a + 1461 * b + 365 * c + doy
      - (365 * (100 * a + 4 * b + c) + (100 * a + 4 * b + c) / 4 - (100 * a + 4 * b + c) / 100)
      = doy := by omega
  refine ⟨⟨100 * a + 4 * b + c + era * 400, doy, hnonneg, ?_⟩, ?_, ?_⟩
  · refine hle.imp_right fun h => ⟨h.1, ?_⟩
    unfold IsLeap
    omega
  · unfold MarchDay.days
    dsimp only
    omega
  · unfold civilFromDays
    dsimp only
    rw [hera, hsplit, hyear, hdoy, hera']
    rfl

/-! ## The calendar -/

theorem one_le_twelve : (1 : ℤ) ≤ 12 := by decide

/-- 1970-01-01. -/
def epochDate : CalendarDate := ⟨1970, 1, 1, Int.one_pos, one_le_twelve, Int.one_pos, by decide⟩

/-- **The formulas count the days**, from 1970-01-01 in both directions. -/
theorem civilFromDays_eq (days : ℤ) : civilFromDays days
    = ((epochDate.dateAt days).year, (epochDate.dateAt days).month,
        (epochDate.dateAt days).day) := by
  choose march hdays hcivil using exists_marchDay
  have hdate : ∀ days, (march days).date = epochDate.dateAt days := by
    refine CalendarDate.eq_dateAt ?_ fun days => ?_
    · have htriple : (march 0).triple = (1970, 1, 1) := (hcivil 0).symm.trans (by decide)
      exact CalendarDate.ext (congrArg (·.1) htriple) (congrArg (·.2.1) htriple)
        (congrArg (·.2.2) htriple)
    · obtain ⟨t', ht', hnext⟩ := (march days).exists_next
      rw [hnext, MarchDay.eq_of_days (show (march (days + 1)).days = t'.days by
        rw [ht', hdays, hdays]
        omega)]
  rw [hcivil, ← hdate]
  rfl

/-- **A minute of UTC**: a date, and hour, minute and second of the day. -/
structure UtcTime where
  date : CalendarDate
  hour : Fin 24
  minute : Fin 60
  second : Fin 60

namespace UtcTime

/-- The time lies so many seconds after 1970-01-01 00:00: its date is found by counting the days,
and the rest are the seconds of the day. -/
def LiesAt (t : UtcTime) (seconds : ℤ) : Prop :=
  ∃ days : ℤ, t.date = epochDate.dateAt days
    ∧ seconds = 86400 * days + 3600 * t.hour.val + 60 * t.minute.val + t.second.val

def minuteText (t : UtcTime) : String :=
  toString t.date.year ++ "-" ++ pad2 t.date.month ++ "-" ++ pad2 t.date.day ++ " "
    ++ pad2 t.hour.val ++ ":" ++ pad2 t.minute.val

theorem liesAt_unique {t t' : UtcTime} {seconds : ℤ} (h : t.LiesAt seconds)
    (h' : t'.LiesAt seconds) : t = t' := by
  obtain ⟨days, hdate, hseconds⟩ := h
  obtain ⟨days', hdate', hseconds'⟩ := h'
  have hhour := t.hour.isLt
  have hminute := t.minute.isLt
  have hsecond := t.second.isLt
  have hhour' := t'.hour.isLt
  have hminute' := t'.minute.isLt
  have hsecond' := t'.second.isLt
  have hdays : days = days' := by omega
  obtain ⟨date, hour, minute, second⟩ := t
  obtain ⟨date', hour', minute', second'⟩ := t'
  dsimp only at *
  rw [hdate, hdate', hdays, Fin.ext (show hour.val = hour'.val by omega),
    Fin.ext (show minute.val = minute'.val by omega),
    Fin.ext (show second.val = second'.val by omega)]

end UtcTime

/-- **The text of a time is that of the minute it lies in**: of the one date and time that is so
many seconds after 1970-01-01 00:00. -/
theorem formatMtime_eq (epoch : ℚ) :
    ∃ t : UtcTime, t.LiesAt ⌊epoch⌋ ∧ (∀ t' : UtcTime, t'.LiesAt ⌊epoch⌋ → t' = t)
      ∧ formatMtime epoch = t.minuteText := by
  have hhour : 0 ≤ ⌊epoch⌋ % 86400 / 3600 ∧ ⌊epoch⌋ % 86400 / 3600 < 24 := by omega
  have hminute : 0 ≤ ⌊epoch⌋ % 3600 / 60 ∧ ⌊epoch⌋ % 3600 / 60 < 60 := by omega
  obtain ⟨hour, hhour'⟩ := Int.eq_ofNat_of_zero_le hhour.1
  obtain ⟨minute, hminute'⟩ := Int.eq_ofNat_of_zero_le hminute.1
  obtain ⟨second, hsecond'⟩ := Int.eq_ofNat_of_zero_le (show 0 ≤ ⌊epoch⌋ % 60 by omega)
  have hrem : ⌊epoch⌋ % 86400 % 3600 = ⌊epoch⌋ % 3600 := by omega
  have hlies : UtcTime.LiesAt ⟨epochDate.dateAt (⌊epoch⌋ / 86400), ⟨hour, by omega⟩,
      ⟨minute, by omega⟩, ⟨second, by omega⟩⟩ ⌊epoch⌋ :=
    ⟨⌊epoch⌋ / 86400, rfl, by dsimp only; omega⟩
  refine ⟨_, hlies, fun t' h' => UtcTime.liesAt_unique h' hlies, ?_⟩
  unfold formatMtime UtcTime.minuteText
  dsimp only
  rw [civilFromDays_eq, hrem, hhour', hminute']

end ListingDates
