import Backtest.Strategy.Basic

/-!
# Buy and hold

Long from the first bar to the end: what every other strategy is measured against.
-/

namespace Backtest

def buyAndHold {α : Type} : Strategy α where
  name := "buy_and_hold"
  description := "long from the first bar to the end"
  decide _ _ := .ok .long

end Backtest
