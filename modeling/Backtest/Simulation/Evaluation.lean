import Backtest.Metrics.Basic
import Backtest.Simulation.Run

/-!
# Evaluated runs

A finished simulation together with its performance figures: what is stored, ranked and reported.
-/

namespace Backtest

structure Evaluation (α : Type) where
  schemaVersion : Nat
  strategy : String
  /-- The full assignment. -/
  parameters : Parameter.Assignment α
  equity : List (EquityPoint α)
  trades : List (Trade α)
  metrics : Metrics α
  degenerate : List Degenerate
  final : Portfolio α
  costs : Costs α
  barsPerYear : α
  rejectedSignals : Nat
  unfilledSignals : Nat
  totalCommission : α
  totalSlippage : α

variable {α : Type} [Scalar α]

/-- Equal in every part, numbers compared as numbers. -/
instance : BEq (Evaluation α) where
  beq a b :=
    a.schemaVersion == b.schemaVersion && a.strategy == b.strategy &&
      a.parameters == b.parameters && a.equity == b.equity && a.trades == b.trades &&
      a.metrics == b.metrics && a.degenerate == b.degenerate && a.final == b.final &&
      a.costs == b.costs && a.barsPerYear == b.barsPerYear &&
      a.rejectedSignals == b.rejectedSignals && a.unfilledSignals == b.unfilledSignals &&
      a.totalCommission == b.totalCommission && a.totalSlippage == b.totalSlippage

/-- A number of bars a year that figures can be scaled by. -/
def checkBarsPerYear (barsPerYear : α) : Except (Rejection α) Unit :=
  if Scalar.isFinite barsPerYear ∧ Scalar.nat 0 < barsPerYear then .ok ()
  else .error (.invalidBarsPerYear barsPerYear)

namespace Evaluation

/-- The version of the stored form. -/
def currentSchema : Nat := 1

def ofSimulation [Powers α] (strategy : String) (s : Simulation α) (costs : Costs α)
    (barsPerYear : α) : Evaluation α where
  schemaVersion := currentSchema
  strategy := strategy
  parameters := s.parameters
  equity := s.equity
  trades := s.trades
  metrics := .compute s.equityValues s.trades barsPerYear
  degenerate := Degenerate.flags s.equityValues s.trades
  final := s.final
  costs := costs
  barsPerYear := barsPerYear
  rejectedSignals := s.rejectedSignals
  unfilledSignals := s.unfilledSignals
  totalCommission := s.totalCommission
  totalSlippage := s.totalSlippage

/-- Equity at the end of the run. -/
def finalEquity (e : Evaluation α) : α :=
  match e.equity.getLast? with
  | some p => p.equity
  | none => e.costs.startingCash

/-- Simulates from bar `start` on and computes the figures. -/
def runFrom [Powers α] (bars : List (Bar α)) (start : Nat) (strategy : Strategy α)
    (assigned : Parameter.Assignment α) (costs : Costs α) (barsPerYear : α) :
    Except (RunError α) (Evaluation α) := do
  (checkBarsPerYear barsPerYear).mapError .rejected
  let s ← Simulation.runFrom bars start strategy assigned costs
  return ofSimulation strategy.name s costs barsPerYear

/-- Simulates every bar and computes the figures. -/
def run [Powers α] (bars : List (Bar α)) (strategy : Strategy α)
    (assigned : Parameter.Assignment α) (costs : Costs α) (barsPerYear : α) :
    Except (RunError α) (Evaluation α) :=
  runFrom bars 0 strategy assigned costs barsPerYear

end Evaluation

end Backtest
