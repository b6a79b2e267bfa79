import Backtest.Indicator.Average

/-!
# Rate of change

The change of the close over a number of bars, as a fraction of the earlier close. There is none
where either close is missing or the earlier one is zero. A period of 0 counts as 1.
-/

namespace Backtest.RateOfChange

variable {α : Type} [Scalar α]

open Scalar

def between (earlier later : α) : α :=
  if isNaN earlier || isNaN later || earlier == nat 0 then nan else later / earlier - nat 1

/-- Rates of change of a list of closes, NaN before the first full period. -/
def ofCloses (period : Nat) (xs : List α) : List α :=
  (xs.take period).map (fun _ => nan) ++ List.zipWith between xs (xs.drop period)

/-- The rate of change at the newest bar. -/
def newest (period : Nat) (h : History α) : Option α :=
  match h.back? 0, h.back? period with
  | some later, some earlier => present (between earlier.close later.close)
  | _, _ => none

def name (period : Nat) : String := "roc_" ++ toString (max period 1)

def indicator (period : Nat) : Indicator α where
  name := name period
  lookback := max period 1
  series bars := ofCloses (max period 1) (closes bars)
  latest := newest (max period 1)

end Backtest.RateOfChange
