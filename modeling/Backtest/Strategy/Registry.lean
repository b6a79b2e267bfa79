import Backtest.Strategy.BuyAndHold
import Backtest.Strategy.Crossover
import Backtest.Strategy.Momentum
import Backtest.Strategy.Threshold
import Backtest.Text.Quoted

/-!
# Registered strategies

Strategies by name, listed in the order of their names.
-/

namespace Backtest

structure Registry (α : Type) where
  strategies : NameMap (Strategy α) := .empty

namespace Registry

variable {α : Type} [Scalar α]

/-- Adds a strategy under its own name, over an older one. -/
def register (r : Registry α) (s : Strategy α) : Registry α :=
  ⟨r.strategies.insert s.name s⟩

/-- The four strategies that come with the library. -/
def builtins : Registry α :=
  [buyAndHold, Crossover.strategy, Threshold.strategy, Momentum.strategy].foldl register {}

def get (r : Registry α) (name : String) : Except (Rejection α) (Strategy α) :=
  match r.strategies.get? name with
  | some s => .ok s
  | none => .error (.unknownStrategy name)

def list (r : Registry α) : List (Strategy α) := r.strategies.entries.map (·.2)

/-- A one-line dump of the registered names. -/
def dump (r : Registry α) : String :=
  "StrategyRegistry \x7b strategies: " ++ Text.quotedList r.strategies.names ++ " \x7d"

end Registry

end Backtest
