import Mathlib.Data.Int.Basic

/-!
# Dates and times

A date and time shows one of the microseconds between the start of the year 1 and the end of the
year 9999, and may know how far from UTC the clock is that shows it. Arithmetic on it and the
conversion to UTC raise where the result is a time no date and time shows.
-/

/-- The microseconds from the start of the year 1 to the end of the year 9999. -/
def Moment.horizon : ℤ := 315537897600000000

/-- The times a date and time can show, in microseconds since the start of the year 1. -/
def Moment.InRange (micros : ℤ) : Prop := 0 ≤ micros ∧ micros < horizon

instance (micros : ℤ) : Decidable (Moment.InRange micros) := inferInstanceAs (Decidable (_ ∧ _))

/-- **What a date and time shows.** -/
structure Moment where
  micros : ℤ
  inRange : Moment.InRange micros
  deriving DecidableEq

namespace Moment

/-- The moment at a time, if a date and time can show it; otherwise it overflows and raises. -/
def ofMicros (micros : ℤ) : Option Moment :=
  if h : InRange micros then some ⟨micros, h⟩ else none

theorem ofMicros_eq_some {micros : ℤ} {at' : Moment} :
    ofMicros micros = some at' ↔ micros = at'.micros := by
  unfold ofMicros
  constructor
  · intro h
    split at h
    · cases h
      rfl
    · cases h
  · rintro rfl
    rw [dif_pos at'.inRange]

theorem ofMicros_of_inRange {micros : ℤ} (h : InRange micros) :
    ofMicros micros = some ⟨micros, h⟩ := dif_pos h

theorem ofMicros_eq_none {micros : ℤ} : ofMicros micros = none ↔ ¬ InRange micros := by
  unfold ofMicros
  split
  · next h => exact ⟨fun hc => (nomatch hc), fun hc => absurd h hc⟩
  · next h => exact ⟨fun _ => h, fun _ => rfl⟩

theorem micros_injective : Function.Injective micros := by
  intro a b hab
  cases a
  cases b
  cases hab
  rfl

end Moment

/-- **A date and time**: what it shows, and its distance from UTC if it has a zone. -/
structure DateTime where
  wall : Moment
  offset : Option ℤ

namespace DateTime

def utc? (t : DateTime) : Option ℤ := t.offset.map fun offset => t.wall.micros - offset

end DateTime
