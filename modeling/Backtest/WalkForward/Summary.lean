import Backtest.Metrics.Target
import Backtest.Parameter.Assignment
import Backtest.WalkForward.Plan

/-!
# Walk-forward results

Each window compares an out-of-sample figure with the in-sample one it came from. A ratio is formed
only over a positive in-sample figure that is not close to zero, and is held within a cap.
-/

namespace Backtest

/-- How a degradation ratio came about. -/
inductive DegradationFlag where
  | normal
  /-- The in-sample figure is too close to zero to divide by. -/
  | nearZeroInSample
  /-- The in-sample figure is negative. -/
  | negativeInSample
  /-- The ratio went beyond the cap. -/
  | capped
  deriving Repr, DecidableEq

namespace DegradationFlag

def all : List DegradationFlag := [.normal, .nearZeroInSample, .negativeInSample, .capped]

def name : DegradationFlag → String
  | .normal => "normal"
  | .nearZeroInSample => "near_zero_in_sample"
  | .negativeInSample => "negative_in_sample"
  | .capped => "capped"

/-- The name as a title. -/
def title : DegradationFlag → String
  | .normal => "Normal"
  | .nearZeroInSample => "NearZeroInSample"
  | .negativeInSample => "NegativeInSample"
  | .capped => "Capped"

end DegradationFlag

/-- A range of bars with the times of its first and last bar. -/
structure BarRange where
  start : Nat
  /-- Exclusive. -/
  stop : Nat
  startTime : Timestamp
  stopTime : Timestamp
  deriving Repr, DecidableEq

def BarRange.ofBars {α : Type} (bars : List (Bar α)) (start stop : Nat) : BarRange where
  start := start
  stop := stop
  startTime := ((bars[start]?).map (·.time)).getD default
  stopTime := ((bars[stop - 1]?).map (·.time)).getD default

structure WindowResult (α : Type) where
  index : Nat
  inSample : BarRange
  outOfSample : BarRange
  bestParameters : Parameter.Assignment α
  inSampleMetrics : Metrics α
  outOfSampleMetrics : Metrics α
  degradation : Option α
  flag : DegradationFlag
  candidatesEvaluated : Nat
  candidateFailures : Nat

structure WindowFailure where
  index : Nat
  error : String
  deriving Repr, DecidableEq

structure WalkForwardSummary (α : Type) where
  strategy : String
  target : Target
  config : WalkForwardConfig α
  windows : List (WindowResult α)
  failures : List WindowFailure
  plannedWindows : Nat
  discardedBars : Nat
  meanInSample : α
  meanOutOfSample : α
  deviationOutOfSample : α
  /-- Mean over the windows that have a ratio. -/
  meanDegradation : Option α
  /-- Out-of-sample returns of the windows, compounded. -/
  compoundedReturn : α
  overfitSuspected : Bool
  cancelled : Bool

variable {α : Type} [Scalar α]

open Scalar

/-- The out-of-sample figure as a fraction of the in-sample one, where that means something. -/
def degradation (c : WalkForwardConfig α) (inSample outOfSample : α) :
    Option α × DegradationFlag :=
  if !isFinite inSample || abs inSample < c.nearZero then (none, .nearZeroInSample)
  else if inSample < nat 0 then (none, .negativeInSample)
  else
    let ratio := outOfSample / inSample
    if !isFinite ratio || c.ratioCap < abs ratio then
      (some (if isNaN ratio then nat 0 else clamp ratio (-c.ratioCap) c.ratioCap), .capped)
    else (some ratio, .normal)

/-- Product of one plus each return, less one. -/
def compound (returns : List α) : α :=
  returns.foldl (fun acc r => acc * (nat 1 + r)) (nat 1) - nat 1

/-- Draws the windows together. Overfitting is suspected when the mean ratio is below the threshold
or the out-of-sample figures vary by more than their mean. -/
def WalkForwardSummary.ofWindows [Powers α] (strategy : String) (target : Target)
    (config : WalkForwardConfig α) (plan : WindowPlan) (windows : List (WindowResult α))
    (failures : List WindowFailure) (cancelled : Bool) : WalkForwardSummary α :=
  let outOfSample := windows.map (·.outOfSampleMetrics.sharpe)
  let ratios := windows.filterMap (·.degradation)
  let meanOutOfSample := Metrics.mean outOfSample
  let deviationOutOfSample := Metrics.deviation outOfSample
  let meanDegradation := if ratios.isEmpty then none else some (Metrics.mean ratios)
  let degraded := meanDegradation.any fun d => d < config.overfitThreshold
  { strategy, target, config, windows, failures
    plannedWindows := plan.windows.length
    discardedBars := plan.discarded
    meanInSample := Metrics.mean (windows.map (·.inSampleMetrics.sharpe))
    meanOutOfSample
    deviationOutOfSample
    meanDegradation
    compoundedReturn := compound (windows.map (·.outOfSampleMetrics.totalReturn))
    overfitSuspected := !windows.isEmpty && (degraded || meanOutOfSample < deviationOutOfSample)
    cancelled }

end Backtest
