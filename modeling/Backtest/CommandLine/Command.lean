import Backtest.CommandLine.Arguments
import Backtest.Decimal.Reading
import Backtest.Search.Config

/-!
# Commands

What can be asked for on the command line, read from its words.
-/

namespace Backtest.CommandLine

/-- What is said about an experiment, over what its file says. -/
structure ExperimentOptions where
  data : Option String
  config : Option String
  strategy : Option String
  parameters : List String
  cash : Option Float
  commission : Option Float
  slippage : Option Float
  leverage : Option Float
  allowShort : Bool
  barsPerYear : Option Float

/-- What is said about a search. -/
structure SearchOptions where
  method : Option SearchMethod
  trials : Option Nat
  maxCombinations : Option Nat
  seed : Option Nat
  target : Option Target
  threads : Option Nat

/-- What is said about walk-forward windows. -/
structure WindowOptions where
  train : Option Nat
  test : Option Nat
  block : Bool
  noLeadIn : Bool

inductive Command where
  | strategies
  | run (experiment : ExperimentOptions) (outputFolder : Option String)
  | optimize (experiment : ExperimentOptions) (search : SearchOptions) (top : Nat)
      (outputFolder : Option String)
  | walkForward (experiment : ExperimentOptions) (search : SearchOptions)
      (windows : WindowOptions) (outputFolder : Option String)
  | report (path : String) (output : Option String)

/-- The options of every command. -/
def sharedTable : OptionTable := [("log-level", .single)]

def experimentTable : OptionTable :=
  [("data", .single), ("config", .single), ("strategy", .single), ("param", .repeated),
   ("cash", .single), ("commission", .single), ("slippage", .single), ("leverage", .single),
   ("allow-short", .flag), ("bars-per-year", .single)]

def searchTable : OptionTable :=
  [("method", .single), ("trials", .single), ("max-combinations", .single), ("seed", .single),
   ("target", .single), ("threads", .single)]

def windowTable : OptionTable :=
  [("train", .single), ("test", .single), ("block", .flag), ("no-lead-in", .flag)]

def outputTable : OptionTable := [("output-dir", .single)]

namespace Arguments

/-- An option whose value has to be readable if it is given. -/
def typed? {β : Type} (a : Arguments) (name : String) (reading : String → Option β) :
    Option (Option β) :=
  match a.value? name with
  | none => some none
  | some text => (reading text).map some

def path? (text : String) : Option String := if text.isEmpty then none else some text

def experiment? (a : Arguments) : Option ExperimentOptions := do
  return {
    data := ← a.typed? "data" path?
    config := ← a.typed? "config" path?
    strategy := a.value? "strategy"
    parameters := a.values "param"
    cash := ← a.typed? "cash" Decimal.float?
    commission := ← a.typed? "commission" Decimal.float?
    slippage := ← a.typed? "slippage" Decimal.float?
    leverage := ← a.typed? "leverage" Decimal.float?
    allowShort := a.contains "allow-short"
    barsPerYear := ← a.typed? "bars-per-year" Decimal.float? }

def search? (a : Arguments) : Option SearchOptions := do
  return {
    method := ← a.typed? "method" fun text => (SearchMethod.parse text).toOption
    trials := ← a.typed? "trials" Decimal.count?
    maxCombinations := ← a.typed? "max-combinations" Decimal.count?
    seed := ← a.typed? "seed" Decimal.count?
    target := ← a.typed? "target" fun text => (Target.parse text).toOption
    threads := ← a.typed? "threads" Decimal.count? }

def windows? (a : Arguments) : Option WindowOptions := do
  return {
    train := ← a.typed? "train" Decimal.count?
    test := ← a.typed? "test" Decimal.count?
    block := a.contains "block"
    noLeadIn := a.contains "no-lead-in" }

/-- Words of a command that takes no free word. -/
def closed? (table : OptionTable) (words : List String) : Option Arguments :=
  match ofWords? (sharedTable ++ table) words with
  | some a => if a.free.isEmpty then some a else none
  | none => none

end Arguments

namespace Command

open Arguments

/-- Rows of a ranking when nothing is said. -/
def standardTop : Nat := 10

/-- Reads a command from its name and the words after it. -/
def ofName? (name : String) (words : List String) : Option Command :=
  if name = "strategies" then (closed? [] words).map fun _ => .strategies
  else if name = "run" then do
    let a ← closed? (experimentTable ++ outputTable) words
    return .run (← a.experiment?) (← a.typed? "output-dir" path?)
  else if name = "optimize" then do
    let table := experimentTable ++ searchTable ++ [("top", OptionShape.single)] ++ outputTable
    let a ← closed? table words
    let top ← a.typed? "top" Decimal.count?
    return .optimize (← a.experiment?) (← a.search?) (top.getD standardTop)
      (← a.typed? "output-dir" path?)
  else if name = "walk-forward" then do
    let a ← closed? (experimentTable ++ searchTable ++ windowTable ++ outputTable) words
    return .walkForward (← a.experiment?) (← a.search?) (← a.windows?)
      (← a.typed? "output-dir" path?)
  else if name = "report" then do
    let a ← ofWords? (sharedTable ++ [("output", OptionShape.single)]) words
    let output ← a.typed? "output" path?
    match a.free with
    | [path] => return .report (← path? path) output
    | _ => none
  else none

/-- Reads a command line. -/
def ofWords? (words : List String) : Option Command :=
  match options? sharedTable words Arguments.empty with
  | some (_, name :: rest) => ofName? name rest
  | _ => none

end Command

end Backtest.CommandLine
