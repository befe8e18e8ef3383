import Mathlib

/-!
# Moments of a calendar

A moment is given by its date and the time of its day, and moments are ordered by these fields.

* `yearMonth_le` — moments in order are in months in order.
-/

namespace Foundation

structure Moment where
  year : Int
  month : Nat
  day : Nat
  microsecond : Nat
deriving DecidableEq

namespace Moment

/-- The fields in the order in which they are compared. -/
def fields (m : Moment) : Int ×ₗ Nat ×ₗ Nat ×ₗ Nat :=
  toLex (m.year, toLex (m.month, toLex (m.day, m.microsecond)))

theorem fields_injective : Function.Injective fields := by
  intro a b h
  cases a
  cases b
  cases h
  rfl

instance : LinearOrder Moment :=
  LinearOrder.lift' fields fields_injective

theorem le_def {a b : Moment} : a ≤ b ↔ a.fields ≤ b.fields :=
  Iff.rfl

/-! ## Months -/

/-- The month of a moment. -/
def yearMonth (m : Moment) : Int ×ₗ Nat :=
  toLex (m.year, m.month)

theorem yearMonth_le {a b : Moment} (h : a ≤ b) : a.yearMonth ≤ b.yearMonth := by
  rcases Prod.Lex.toLex_le_toLex.mp (le_def.mp h) with hyear | ⟨hyear, hrest⟩
  · exact Prod.Lex.toLex_le_toLex.mpr (Or.inl hyear)
  · refine Prod.Lex.toLex_le_toLex.mpr (Or.inr ⟨hyear, ?_⟩)
    rcases Prod.Lex.toLex_le_toLex.mp hrest with hmonth | ⟨hmonth, -⟩
    · exact hmonth.le
    · exact hmonth.le

/-! ## Days -/

def isLeapYear (year : Int) : Bool :=
  decide (year % 4 = 0) && (decide (year % 100 ≠ 0) || decide (year % 400 = 0))

def daysInMonth (year : Int) (month : Nat) : Nat :=
  if month = 2 then if isLeapYear year then 29 else 28
  else if [4, 6, 9, 11].contains month then 30
  else 31

/-- The same time of the day before. -/
def previousDay (m : Moment) : Moment :=
  if 1 < m.day then { m with day := m.day - 1 }
  else if 1 < m.month then
    { m with month := m.month - 1, day := daysInMonth m.year (m.month - 1) }
  else { m with year := m.year - 1, month := 12, day := 31 }

/-- The same time, a number of days before. -/
def minusDays (n : Nat) (m : Moment) : Moment :=
  previousDay^[n] m

/-! ## Weeks -/

/-- The number of the day in its year, from zero on. -/
def dayOfYear (m : Moment) : Nat :=
  ((List.range' 1 (m.month - 1)).map (daysInMonth m.year)).sum + (m.day - 1)

/-- The number of days before a year, counted from the year 1. -/
def daysBeforeYear (year : Int) : Int :=
  let past := year - 1
  past * 365 + past / 4 - past / 100 + past / 400

/-- The day of the week, from zero for a Monday on; the year 1 began on one. -/
def weekday (m : Moment) : Nat :=
  ((daysBeforeYear m.year + m.dayOfYear) % 7).toNat

/-- The number of the week in its year; the days before the first Monday are in week zero. -/
def weekOfYear (m : Moment) : Nat :=
  (m.dayOfYear + 7 - m.weekday) / 7

/-- The last day of April and the first day of May of one year stand in one week. -/
example : weekOfYear ⟨2025, 4, 30, 0⟩ = 17 ∧ weekOfYear ⟨2025, 5, 1, 0⟩ = 17 ∧
    minusDays 30 ⟨2025, 3, 1, 0⟩ = ⟨2025, 1, 30, 0⟩ := by
  decide

end Moment
end Foundation
