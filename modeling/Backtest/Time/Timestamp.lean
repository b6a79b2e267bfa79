import Backtest.Time.Date

/-!
# Timestamps

A date with a time of day, in no particular time zone. A leap second is the second before it with
a full second or more of nanoseconds. Every timestamp is one that exists.
-/

namespace Backtest

namespace Timestamp

def secondsPerDay : Nat := 86400
def nanosPerSecond : Nat := 1000000000

/-- A second of a day that exists. Only the last second of a minute may be a leap second. -/
structure IsTime (date : Date) (second nano : Nat) : Prop where
  isValid : date.IsValid
  second_lt : second < secondsPerDay
  nano_lt : nano < nanosPerSecond ∨ second % 60 = 59 ∧ nano < 2 * nanosPerSecond

instance (date : Date) (second nano : Nat) : Decidable (IsTime date second nano) :=
  decidable_of_decidable_of_iff
    (p := date.IsValid ∧ second < secondsPerDay ∧
      (nano < nanosPerSecond ∨ second % 60 = 59 ∧ nano < 2 * nanosPerSecond))
    ⟨fun ⟨hdate, hsecond, hnano⟩ => ⟨hdate, hsecond, hnano⟩,
      fun h => ⟨h.isValid, h.second_lt, h.nano_lt⟩⟩

end Timestamp

@[ext]
structure Timestamp where
  date : Date
  /-- Second of the day. -/
  second : Nat
  /-- Nanoseconds; from one second on they belong to a leap second. -/
  nano : Nat
  valid : Timestamp.IsTime date second nano := by decide
  deriving Repr, DecidableEq

namespace Timestamp

instance : Inhabited Timestamp := ⟨{ date := ⟨1970, 1, 1⟩, second := 0, nano := 0 }⟩

/-- By date, then second, then nanoseconds. -/
instance : Ord Timestamp where
  compare a b :=
    (compare a.date b.date).then ((compare a.second b.second).then (compare a.nano b.nano))

/-- Earlier in time. -/
instance : LT Timestamp := ltOfOrd

instance : DecidableLT Timestamp := fun a b => inferInstanceAs (Decidable (compare a b = .lt))

/-- The time with these parts, if there is one. -/
def ofParts? (date : Date) (second nano : Nat) : Option Timestamp :=
  if h : IsTime date second nano then some ⟨date, second, nano, h⟩ else none

def midnight (date : Date) (h : date.IsValid := by decide) : Timestamp :=
  ⟨date, 0, 0, h, by decide, .inl (by decide)⟩

/-- Moves by whole seconds; the nanoseconds, and with them a leap second, stay. -/
def addSeconds (t : Timestamp) (seconds : Int) : Option Timestamp :=
  let moved : Int := t.second + seconds
  ofParts? (t.date.addDays (moved / secondsPerDay)) (moved % secondsPerDay).toNat t.nano

/-- Hour, minute and second as a clock shows them, a leap second as second 60. -/
def clock (t : Timestamp) : Nat × Nat × Nat :=
  (t.second / 3600, t.second / 60 % 60,
    t.second % 60 + if nanosPerSecond ≤ t.nano then 1 else 0)

end Timestamp

end Backtest
