import Backtest.Indicator.Strength
import Backtest.Strategy.Basic

/-!
# Relative strength thresholds

Long when relative strength falls below a lower bound, flat when it rises above an upper one, and
no change in between. Flat while there is no strength.
-/

namespace Backtest.Threshold

variable {α : Type} [Scalar α]

open Scalar (nat)

def name : String := "rsi_threshold"

def schema : Parameter.Schema α where
  declarations :=
    [.int "period" 2 30 2 14, .float "lower" (nat 10) (nat 45) (nat 5) (nat 30),
     .float "upper" (nat 55) (nat 90) (nat 5) (nat 70)]

/-- The lower bound has to be the smaller one. -/
def constrain (a : Parameter.Assignment α) : Except (Rejection α) Unit := do
  let lower ← a.float "lower"
  let upper ← a.float "upper"
  if upper ≤ lower then .error (.notLess "lower" (.float lower) "upper" (.float upper)) else .ok ()

def indicators (a : Parameter.Assignment α) : Except (Fault α) (List (Indicator α)) := do
  let period ← orFault name (a.count "period")
  return [RelativeStrength.indicator period]

def evaluate (_ : History α) (view : IndicatorView α) (a : Parameter.Assignment α) :
    Except (Fault α) (Signal α) := do
  let period ← orFault name (a.count "period")
  let lower ← orFault name (a.float "lower")
  let upper ← orFault name (a.float "upper")
  match view.latest? (RelativeStrength.name period) with
  | none => return .flat
  | some strength =>
    return if strength < lower then .long else if upper < strength then .flat else .hold

def strategy : Strategy α where
  name := name
  description := "buy oversold RSI, exit when overbought"
  schema := schema
  constrain := constrain
  indicators := indicators
  decide history a :=
    Strategy.onHistory history (indicators a) fun view => evaluate history view a
  evaluate := evaluate

end Backtest.Threshold
