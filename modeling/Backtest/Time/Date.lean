/-!
# Calendar dates

Dates of the Gregorian calendar, extended to all years, with the step to the neighbouring day.
-/

namespace Backtest

structure Date where
  year : Int
  month : Nat
  day : Nat
  deriving Repr, DecidableEq, Ord

namespace Date

def isLeapYear (year : Int) : Bool :=
  year % 4 == 0 && (year % 100 != 0 || year % 400 == 0)

def daysInMonth (year : Int) (month : Nat) : Nat :=
  if month = 2 then if isLeapYear year then 29 else 28
  else if month = 4 ∨ month = 6 ∨ month = 9 ∨ month = 11 then 30
  else 31

def leastYear : Int := -262143
def greatestYear : Int := 262142

/-- A day that exists, in a year that can be represented. -/
def IsValid (d : Date) : Prop :=
  leastYear ≤ d.year ∧ d.year ≤ greatestYear ∧ 1 ≤ d.month ∧ d.month ≤ 12 ∧
    1 ≤ d.day ∧ d.day ≤ daysInMonth d.year d.month

instance (d : Date) : Decidable d.IsValid :=
  inferInstanceAs (Decidable (leastYear ≤ d.year ∧ d.year ≤ greatestYear ∧ 1 ≤ d.month ∧
    d.month ≤ 12 ∧ 1 ≤ d.day ∧ d.day ≤ daysInMonth d.year d.month))

def next (d : Date) : Date :=
  if d.day < daysInMonth d.year d.month then { d with day := d.day + 1 }
  else if d.month < 12 then ⟨d.year, d.month + 1, 1⟩
  else ⟨d.year + 1, 1, 1⟩

def previous (d : Date) : Date :=
  if 1 < d.day then { d with day := d.day - 1 }
  else if 1 < d.month then ⟨d.year, d.month - 1, daysInMonth d.year (d.month - 1)⟩
  else ⟨d.year - 1, 12, 31⟩

/-- Moves by a number of days. -/
def addDays (d : Date) (days : Int) : Date :=
  if 0 ≤ days then Nat.repeat next days.toNat d else Nat.repeat previous (-days).toNat d

end Date

end Backtest
