import Backtest.Report.Search
import Backtest.Time.Printer
import Backtest.WalkForward.Run

/-!
# The report of a walk-forward run

The summary over all windows, a table of the windows, and those that failed.
-/

namespace Backtest.Report

def walkForwardSummary (s : WalkForwardSummary Float) : List String :=
  ["- Windows: " ++ toString s.windows.length ++ " completed, " ++ toString s.failures.length ++
      " failed, " ++ toString s.plannedWindows ++ " planned (" ++ toString s.discardedBars ++
      " trailing bars discarded)",
   "- Mean IS Sharpe: " ++ Decimal.fixed 3 s.meanInSample,
   "- Mean OOS Sharpe: " ++ Decimal.fixed 3 s.meanOutOfSample ++ " (std " ++
      Decimal.fixed 3 s.deviationOutOfSample ++ ")",
   "- Mean degradation: " ++ (s.meanDegradation.map (Decimal.fixed 3)).getD "n/a",
   "- Compounded OOS return: " ++ percent s.compoundedReturn,
   "- Overfit suspected: " ++ if s.overfitSuspected then "YES" else "no"]

def span (r : BarRange) : String := r.startTime.toSeconds ++ " → " ++ r.stopTime.toSeconds

def windowRow (w : WindowResult Float) : String :=
  row [toString w.index, span w.inSample, span w.outOfSample, w.bestParameters.text,
    Decimal.fixed 3 w.inSampleMetrics.sharpe, Decimal.fixed 3 w.outOfSampleMetrics.sharpe,
    percent w.outOfSampleMetrics.totalReturn,
    (w.degradation.map (Decimal.fixed 3)).getD "n/a" ++ " (" ++ w.flag.title ++ ")"]

def failedWindow (w : WindowFailure) : String :=
  "- Window " ++ toString w.index ++ ": " ++ w.error

/-- The report of a walk-forward run. -/
def ofWalkForward (s : WalkForwardSummary Float) : String :=
  lines <|
    ["# Walk-Forward Report: `" ++ s.strategy ++ "`", "",
     "Target: " ++ s.target.name ++ " | train " ++ toString s.config.trainLength ++ " / test " ++
       toString s.config.testLength ++ " bars (" ++ s.config.mode.title ++ ")", "",
     "## Summary", ""] ++ walkForwardSummary s ++ stoppedNote s.cancelled ++
    ["", "## Windows", ""] ++
    head ["#", "In-sample", "Out-of-sample", "Best params", "IS Sharpe", "OOS Sharpe",
      "OOS Return", "Degradation"] ++ s.windows.map windowRow ++
    whenever (!s.failures.isEmpty) (["", "## Failed Windows", ""] ++ s.failures.map failedWindow)

end Backtest.Report
