import Backtest.Csv.Printer
import Backtest.Decimal.Fixed
import Backtest.Decimal.Layout
import Backtest.Simulation.Evaluation
import Backtest.Storage.Run
import Backtest.Time.Printer
import Backtest.WalkForward.Summary

/-!
# Tables of a result

Trades, equity curves and walk-forward windows as comma-separated tables, one record for each.
-/

namespace Backtest.Report

def cell (x : Float) : String := Decimal.Layout.cell.write x

def tradeColumns : List String :=
  ["side", "signal_time", "entry_bar", "entry_time", "entry_price", "exit_bar", "exit_time",
   "exit_price", "quantity", "commission_paid", "slippage_paid", "pnl", "return_pct", "bars_held"]

def tradeCells (t : Trade Float) : List String :=
  [Storage.sideName t.side, t.signalTime.toSeconds, toString t.entryBar, t.entryTime.toSeconds,
   cell t.entryPrice, toString t.exitBar, t.exitTime.toSeconds, cell t.exitPrice,
   cell t.quantity, cell t.commission, cell t.slippage, cell t.profit, cell t.returnFraction,
   toString t.barsHeld]

/-- The table of closed trades. -/
def tradeTable (trades : List (Trade Float)) : String :=
  Csv.table (tradeColumns :: trades.map tradeCells)

def equityColumns : List String := ["timestamp", "point", "equity"]

/-- The cells of a point of a curve. The first point, the initial state, has the time of the first
bar and is told from its close by a word. -/
def equityCells (p : EquityPoint Float) (i : Nat) : List String :=
  [p.time.toSeconds, if i = 0 then "start" else "close", Decimal.fixed 2 p.equity]

/-- The table of an equity curve. -/
def equityTable (points : List (EquityPoint Float)) : String :=
  Csv.table (equityColumns :: points.zipIdx.map fun (p, i) => equityCells p i)

def windowColumns : List String :=
  ["window_index", "is_start", "is_end", "oos_start", "oos_end", "best_params", "is_sharpe",
   "oos_sharpe", "is_total_return", "oos_total_return", "oos_max_drawdown", "oos_trades",
   "degradation_ratio", "degradation_flag"]

def windowCells (w : WindowResult Float) : List String :=
  [toString w.index, w.inSample.startTime.toSeconds, w.inSample.stopTime.toSeconds,
   w.outOfSample.startTime.toSeconds, w.outOfSample.stopTime.toSeconds, w.bestParameters.text,
   cell w.inSampleMetrics.sharpe, cell w.outOfSampleMetrics.sharpe,
   cell w.inSampleMetrics.totalReturn, cell w.outOfSampleMetrics.totalReturn,
   cell w.outOfSampleMetrics.maxDrawdown, toString w.outOfSampleMetrics.tradeCount,
   (w.degradation.map cell).getD "", w.flag.title]

/-- The table of walk-forward windows; without a window it has no header either. -/
def windowTable (windows : List (WindowResult Float)) : String :=
  if windows.isEmpty then "" else Csv.table (windowColumns :: windows.map windowCells)

end Backtest.Report
