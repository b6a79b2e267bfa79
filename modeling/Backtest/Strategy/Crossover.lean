import Backtest.Indicator.Average
import Backtest.Strategy.Basic

/-!
# Moving average crossover

Long while the fast moving average of the closes is above the slow one, flat otherwise and while
the slow one has no full window.
-/

namespace Backtest.Crossover

variable {α : Type} [Scalar α]

/-- Which moving average is compared. -/
inductive AverageKind where
  | simple
  | exponential
  deriving Repr, DecidableEq

namespace AverageKind

def ofName? (name : String) : Option AverageKind :=
  if name = "sma" then some .simple else if name = "ema" then some .exponential else none

def indicator : AverageKind → Nat → Indicator α
  | .simple, period => SimpleAverage.indicator period
  | .exponential, period => ExponentialAverage.indicator period

def seriesName : AverageKind → Nat → String
  | .simple, period => SimpleAverage.name period
  | .exponential, period => ExponentialAverage.name period

end AverageKind

def name : String := "ma_crossover"

def schema : Parameter.Schema α where
  declarations :=
    [.int "fast" 2 50 1 10, .int "slow" 10 200 10 50, .choice "ma_type" ["sma", "ema"] "sma"]

/-- The fast period has to be the smaller one. -/
def constrain (a : Parameter.Assignment α) : Except (Rejection α) Unit := do
  let fast ← a.int "fast"
  let slow ← a.int "slow"
  if slow ≤ fast then .error (.notLess "fast" (.int fast) "slow" (.int slow)) else .ok ()

structure Settings where
  fast : Nat
  slow : Nat
  kind : AverageKind

def settings (a : Parameter.Assignment α) : Except (Fault α) Settings := do
  let fast ← orFault name (a.count "fast")
  let slow ← orFault name (a.count "slow")
  let kindName ← orFault name (a.choice "ma_type")
  match AverageKind.ofName? kindName with
  | some kind => return ⟨fast, slow, kind⟩
  | none => throw ⟨name, .unknownAverage kindName⟩

def indicators (a : Parameter.Assignment α) : Except (Fault α) (List (Indicator α)) := do
  let s ← settings a
  return [s.kind.indicator s.fast, s.kind.indicator s.slow]

def evaluate (history : History α) (view : IndicatorView α) (a : Parameter.Assignment α) :
    Except (Fault α) (Signal α) := do
  let s ← settings a
  if history.length < s.slow then return .flat
  match view.latest? (s.kind.seriesName s.fast), view.latest? (s.kind.seriesName s.slow) with
  | some fast, some slow => return if slow < fast then .long else .flat
  | _, _ => return .flat

def strategy : Strategy α where
  name := name
  description := "long while the fast moving average is above the slow one"
  schema := schema
  constrain := constrain
  indicators := indicators
  decide history a :=
    Strategy.onHistory history (indicators a) fun view => evaluate history view a
  evaluate := evaluate

end Backtest.Crossover
