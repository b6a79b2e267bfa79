import Backtest.CommandLine.Command
import Backtest.CommandLine.Failure
import Backtest.Text.Blank

/-!
# Assembling an experiment

What is said on the command line is laid over the experiment file, or over a standard experiment for
a strategy named there.
-/

namespace Backtest.CommandLine

/-- A value as typed: an integer if it can be one, else a number, else a choice. -/
def valueOfText (text : String) : Parameter.Value Float :=
  match Decimal.int64? text, Decimal.float? text with
  | some n, _ => .int n
  | none, some x => .float x
  | none, none => .choice text

/-- Reads `name=value`, with blanks around either. -/
def parameterOfText (text : String) : Except Failure (String × Parameter.Value Float) :=
  let name := Text.trim (String.ofList (text.toList.takeWhile (· ≠ '=')))
  match text.toList.dropWhile (· ≠ '=') with
  | [] => .error (.plain ("--param expects NAME=VALUE, got '" ++ text ++ "'"))
  | _ :: value =>
    if name.isEmpty then .error (.plain ("--param '" ++ text ++ "' has an empty name"))
    else .ok (name, valueOfText (Text.trim (String.ofList value)))

/-- Adds the typed parameters, the last of one name counting. -/
def addParameters (a : Parameter.Assignment Float) (texts : List String) :
    Except Failure (Parameter.Assignment Float) :=
  texts.foldlM (fun a text => (parameterOfText text).map fun (name, v) => a.insert name v) a

namespace ExperimentOptions

def applyCosts (o : ExperimentOptions) (c : Costs Float) : Costs Float where
  startingCash := o.cash.getD c.startingCash
  commissionRate := o.commission.getD c.commissionRate
  slippageRate := o.slippage.getD c.slippageRate
  maxLeverage := o.leverage.getD c.maxLeverage
  allowShort := o.allowShort || c.allowShort

/-- Lays the options over an experiment. -/
def apply (o : ExperimentOptions) (e : Experiment Float) : Except Failure (Experiment Float) := do
  let parameters ← addParameters e.parameters o.parameters
  return { e with
    strategy := o.strategy.getD e.strategy
    data := o.data <|> e.data
    parameters
    costs := o.applyCosts e.costs
    search := { e.search with barsPerYear := o.barsPerYear.getD e.search.barsPerYear } }

end ExperimentOptions

def SearchOptions.apply (o : SearchOptions) (c : SearchConfig Float) : SearchConfig Float where
  method := o.method.getD c.method
  maxCombinations := o.maxCombinations.getD c.maxCombinations
  trials := o.trials.getD c.trials
  seed := (o.seed.map UInt64.ofNat).getD c.seed
  target := o.target.getD c.target
  barsPerYear := c.barsPerYear
  threads := o.threads <|> c.threads

def WindowOptions.apply (o : WindowOptions) (c : WalkForwardConfig Float) :
    WalkForwardConfig Float :=
  { c with
    trainLength := o.train.getD c.trainLength
    testLength := o.test.getD c.testLength
    mode := if o.block then .block else c.mode
    leadIn := !o.noLeadIn && c.leadIn }

end Backtest.CommandLine
