import Backtest.Metrics.Target
import Backtest.Simulation.Evaluation

/-!
# Search settings
-/

namespace Backtest

/-- How candidates are produced. -/
inductive SearchMethod where
  | grid
  | random
  deriving Repr, DecidableEq

namespace SearchMethod

def name : SearchMethod → String
  | .grid => "grid"
  | .random => "random"

def ofName? (name : String) : Option SearchMethod :=
  if name = "grid" then some .grid else if name = "random" then some .random else none

/-- The method of a name in any case; otherwise what is wrong with it. -/
def parse (text : String) : Except String SearchMethod :=
  let lower := text.map Char.toLower
  match ofName? lower with
  | some m => .ok m
  | none => .error ("unknown search method '" ++ lower ++ "' (expected grid or random)")

end SearchMethod

structure SearchConfig (α : Type) where
  method : SearchMethod
  /-- Larger grids are thinned to this many points. -/
  maxCombinations : Nat
  /-- Random draws, repeated ones included. -/
  trials : Nat
  seed : UInt64
  target : Target
  barsPerYear : α
  /-- Number of workers; results do not depend on it. -/
  threads : Option Nat
  deriving BEq, Repr

namespace SearchConfig

variable {α : Type} [Scalar α]

def standard : SearchConfig α where
  method := .grid
  maxCombinations := 10000
  trials := 100
  seed := 42
  target := .sharpe
  barsPerYear := Metrics.standardBarsPerYear
  threads := none

def validate (c : SearchConfig α) : Except (Rejection α) Unit := do
  checkBarsPerYear c.barsPerYear
  if c.method = .grid ∧ c.maxCombinations = 0 then .error .noCombinations
  else if c.method = .random ∧ c.trials = 0 then .error .noTrials
  else if c.threads = some 0 then .error .noThreads
  else .ok ()

end SearchConfig

end Backtest
