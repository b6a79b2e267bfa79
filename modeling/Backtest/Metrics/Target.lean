import Backtest.Metrics.Basic

/-!
# What a search optimises

A target names one figure. Scores are larger for better runs, so drawdown counts negatively; a
score that is NaN ranks behind every other.
-/

namespace Backtest

inductive Target where
  | sharpe
  | sortino
  | calmar
  | annualGrowth
  | totalReturn
  | winRate
  | profitFactor
  | maxDrawdown
  deriving Repr, DecidableEq

namespace Target

def all : List Target :=
  [.sharpe, .sortino, .calmar, .annualGrowth, .totalReturn, .winRate, .profitFactor, .maxDrawdown]

def name : Target → String
  | .sharpe => "sharpe"
  | .sortino => "sortino"
  | .calmar => "calmar"
  | .annualGrowth => "cagr"
  | .totalReturn => "total_return"
  | .winRate => "win_rate"
  | .profitFactor => "profit_factor"
  | .maxDrawdown => "max_drawdown"

/-- A second name under which a target is also known. -/
def longName? : Target → Option String
  | .sharpe => some "sharpe_ratio"
  | .sortino => some "sortino_ratio"
  | .calmar => some "calmar_ratio"
  | _ => none

/-- The target of an exact name. -/
def ofName? (name : String) : Option Target :=
  all.find? fun t => t.name == name || t.longName? == some name

/-- The target of a name in any case; otherwise the lower-case name that is unknown. -/
def parse (text : String) : Except String Target :=
  let lower := text.map Char.toLower
  match ofName? lower with
  | some t => .ok t
  | none =>
    .error ("unknown target metric '" ++ lower ++ "' (expected one of: " ++
      ", ".intercalate (all.map name) ++ ")")

variable {α : Type} [Scalar α]

/-- The figure as reported. -/
def figure (t : Target) (m : Metrics α) : α :=
  match t with
  | .sharpe => m.sharpe
  | .sortino => m.sortino
  | .calmar => m.calmar
  | .annualGrowth => m.annualGrowth
  | .totalReturn => m.totalReturn
  | .winRate => m.winRate
  | .profitFactor => m.profitFactor
  | .maxDrawdown => m.maxDrawdown

/-- The figure as a score. -/
def score (t : Target) (m : Metrics α) : α :=
  match t with
  | .maxDrawdown => -m.maxDrawdown
  | _ => t.figure m

end Target

/-- Descending order of scores, NaN last. -/
def compareScores {α : Type} [Scalar α] (a b : α) : Ordering :=
  match Scalar.isNaN a, Scalar.isNaN b with
  | true, true => .eq
  | true, false => .gt
  | false, true => .lt
  | false, false => if b < a then .lt else if a < b then .gt else .eq

end Backtest
