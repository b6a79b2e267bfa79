import Backtest.Time.Timestamp

/-!
# Timestamp texts

Dates are `YYYY-MM-DD`; a year outside four digits carries its sign. Times are `HH:MM:SS`, and in
the exact form are followed by the fewest of 0, 3, 6 or 9 digits that show all nanoseconds.
-/

namespace Backtest

/-- A natural number with leading zeros up to a width. -/
def padded (width n : Nat) : String :=
  let text := toString n
  String.ofList (List.replicate (width - text.length) '0') ++ text

namespace Date

def yearText (year : Int) : String :=
  if 0 ≤ year ∧ year ≤ 9999 then padded 4 year.toNat
  else (if year < 0 then "-" else "+") ++ padded 4 year.natAbs

def text (d : Date) : String :=
  yearText d.year ++ "-" ++ padded 2 d.month ++ "-" ++ padded 2 d.day

end Date

namespace Timestamp

def clockText (t : Timestamp) : String :=
  let (hour, minute, second) := t.clock
  padded 2 hour ++ ":" ++ padded 2 minute ++ ":" ++ padded 2 second

/-- The fraction of a second with its point, empty when there is none. -/
def fractionText (t : Timestamp) : String :=
  let nano := t.nano % nanosPerSecond
  if nano = 0 then ""
  else if nano % 1000000 = 0 then "." ++ padded 3 (nano / 1000000)
  else if nano % 1000 = 0 then "." ++ padded 6 (nano / 1000)
  else "." ++ padded 9 nano

/-- Date and time to the second, as reports and tables show them. -/
def toSeconds (t : Timestamp) : String :=
  t.date.text ++ "T" ++ t.clockText

/-- Date and time with all digits, as stored. -/
def exact (t : Timestamp) : String :=
  t.date.text ++ "T" ++ t.clockText ++ t.fractionText

/-- As `exact`, with a blank between date and time. -/
def message (t : Timestamp) : String :=
  t.date.text ++ " " ++ t.clockText ++ t.fractionText

end Timestamp

end Backtest
