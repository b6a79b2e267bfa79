import Backtest.Indicator.Change
import Backtest.Strategy.Basic

/-!
# Momentum

Follows the rate of change of the close: long above a threshold, short below its negative where
that is allowed, flat otherwise.
-/

namespace Backtest.Momentum

variable {α : Type} [Scalar α]

open Scalar (nat decimal)

def name : String := "momentum"

def schema : Parameter.Schema α where
  declarations :=
    [.int "lookback" 5 120 5 20, .float "threshold" (nat 0) (decimal 1 1) (decimal 1 2) (nat 0),
     .choice "allow_short" ["no", "yes"] "no"]

def decide (history : History α) (a : Parameter.Assignment α) : Except (Fault α) (Signal α) := do
  let lookback ← orFault name (a.count "lookback")
  let threshold ← orFault name (a.float "threshold")
  let allowShort ← orFault name (a.choice "allow_short")
  match (RateOfChange.indicator lookback).latest history with
  | none => return .flat
  | some change =>
    return if threshold < change then .long
      else if change < -threshold ∧ allowShort = "yes" then .short
      else .flat

def strategy : Strategy α where
  name := name
  description := "follow the sign of the trailing rate of change"
  schema := schema
  decide := decide

end Backtest.Momentum
