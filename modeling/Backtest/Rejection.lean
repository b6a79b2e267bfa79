import Backtest.Parameter.Value
import Backtest.Text.Quoted

/-!
# Rejected requests

Why a request is refused before anything runs, as causes; `Rejection.message` gives each its one
wording.
-/

namespace Backtest

/-- What is wrong with a declared or requested range. -/
inductive RangeFault (α : Type) where
  | reversed (low high : Parameter.Value α)
  | step (size : Parameter.Value α)
  | defaultOutside (value low high : Parameter.Value α)
  | notFinite
  | noOptions
  | defaultNoOption (value : String)
  | leavesDeclared (low high : Parameter.Value α)
  deriving Repr

inductive Rejection (α : Type) where
  | negativeCash (value : α)
  | rateOutOfRange (name : String) (value : α)
  | invalidLeverage (value : α)
  | invalidBarsPerYear (value : α)
  | unknownStrategy (name : String)
  | unknownParameter (name : String)
  | typeMismatch (name : String) (expected : Parameter.Kind) (actual : Parameter.Value α)
  | rangeMismatch (name : String) (expected actual : Parameter.Kind)
  | outOfRange (name : String) (value low high : α)
  | invalidChoice (name value : String) (options : List String)
  | invalidRange (name : String) (fault : RangeFault α)
  /-- Two parameters of which the first has to be the smaller one. -/
  | notLess (small : String) (smallValue : Parameter.Value α)
      (large : String) (largeValue : Parameter.Value α)
  | noCombinations
  | noTrials
  | noThreads
  | shortWindows (least train test : Nat)
  | overfitThresholdNotFinite
  | ratioCapNotPositive (value : α)
  | nearZeroNegative (value : α)
  | pinnedAndRanged (name : String)
  | fixedAndRanged (name : String)
  deriving Repr

variable {α : Type} [Scalar α]

def RangeFault.message : RangeFault α → String
  | .reversed low high => "min " ++ low.text ++ " > max " ++ high.text
  | .step size => "step must be positive, got " ++ size.text
  | .defaultOutside value low high =>
    "default " ++ value.text ++ " outside [" ++ low.text ++ ", " ++ high.text ++ "]"
  | .notFinite => "bounds and step must be finite"
  | .noOptions => "no options"
  | .defaultNoOption value => "default '" ++ value ++ "' is not an option"
  | .leavesDeclared low high =>
    "override [" ++ low.text ++ ", " ++ high.text ++ "] leaves the declared range"

open Scalar (text)

def Rejection.message : Rejection α → String
  | .negativeCash v => "starting cash must be non-negative, got " ++ text v
  | .rateOutOfRange name v => name ++ " must be in [0, 1), got " ++ text v
  | .invalidLeverage v => "max_leverage must be non-negative and finite, got " ++ text v
  | .invalidBarsPerYear v => "bars_per_year must be positive, got " ++ text v
  | .unknownStrategy name => "unknown strategy '" ++ name ++ "'"
  | .unknownParameter name => "unknown parameter '" ++ name ++ "'"
  | .typeMismatch name expected actual =>
    "parameter '" ++ name ++ "' expects " ++ expected.name ++ ", got " ++ actual.kind.name ++ " " ++
      actual.text
  | .rangeMismatch name expected actual =>
    "parameter '" ++ name ++ "' expects " ++ expected.name ++ ", got " ++ actual.name ++ " range"
  | .outOfRange name v low high =>
    "parameter '" ++ name ++ "' = " ++ text v ++ " is outside [" ++ text low ++ ", " ++
      text high ++ "]"
  | .invalidChoice name v options =>
    "parameter '" ++ name ++ "' = '" ++ v ++ "' is not one of " ++ Text.quotedList options
  | .invalidRange name fault => "invalid range for parameter '" ++ name ++ "': " ++ fault.message
  | .notLess small v large w =>
    "invalid parameter combination: " ++ small ++ " (" ++ v.text ++ ") must be less than " ++
      large ++ " (" ++ w.text ++ ")"
  | .noCombinations => "max_combinations must be at least 1"
  | .noTrials => "n_trials must be at least 1"
  | .noThreads => "threads must be at least 1"
  | .shortWindows least train test =>
    "train_length and test_length must be at least " ++ toString least ++ ", got " ++
      toString train ++ " and " ++ toString test
  | .overfitThresholdNotFinite => "overfit_threshold must be finite"
  | .ratioCapNotPositive v => "ratio_cap must be positive, got " ++ text v
  | .nearZeroNegative v => "near_zero_sharpe must be non-negative, got " ++ text v
  | .pinnedAndRanged name => "parameter '" ++ name ++ "' is pinned and cannot also be ranged"
  | .fixedAndRanged name => "parameter '" ++ name ++ "' is both fixed and ranged"

end Backtest
