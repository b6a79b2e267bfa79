import Backtest.Search.Config
import Backtest.Search.Space
import Backtest.Strategy.Registry
import Backtest.WalkForward.Plan

/-!
# Experiments

An experiment names a strategy and says how it is run, searched and validated. `resolve` checks all
of it before any bar is read.
-/

namespace Backtest

structure Experiment (α : Type) where
  strategy : String
  /-- The file with the bars. -/
  data : Option String
  /-- The parameters of a run; pinned in a search. -/
  parameters : Parameter.Assignment α
  /-- Ranges searched in place of the declared ones. -/
  ranges : List (RangeOverride α)
  costs : Costs α
  search : SearchConfig α
  walkForward : WalkForwardConfig α

namespace Experiment

variable {α : Type} [Scalar α]

/-- A strategy with everything else standard. -/
def ofStrategy (name : String) : Experiment α :=
  ⟨name, none, .empty, [], .standard, .standard, .standard⟩

/-- Nothing but the strategy has been chosen. -/
def isStandard (e : Experiment α) : Bool :=
  e.data.isNone && e.parameters.isEmpty && e.ranges.isEmpty && e.costs == .standard &&
    e.search == .standard && e.walkForward == .standard

/-- The search space: the declared one, then the ranges in order, then the pins. A parameter cannot
have both a value and a range. -/
def space (e : Experiment α) (strategy : Strategy α) : Except (Rejection α) (Space α) :=
  match e.ranges.find? fun r => e.parameters.contains r.name with
  | some both => .error (.fixedAndRanged both.name)
  | none => do
    let ranged ← e.ranges.foldlM Space.override (.ofSchema strategy.schema)
    ranged.pinAll e.parameters

/-- Looks the strategy up and checks every part of the experiment against it. -/
def resolve (e : Experiment α) (registry : Registry α) : Except (Rejection α) (Strategy α) := do
  let strategy ← registry.get e.strategy
  strategy.schema.validate e.parameters
  e.costs.validate
  e.search.validate
  e.walkForward.validate
  let _ ← e.space strategy
  return strategy

end Experiment

end Backtest
