import Backtest.Report.Markdown
import Backtest.Simulation.Evaluation
import Backtest.Time.Printer

/-!
# The report of a run

Parameters, figures, costs, and the most and least profitable trades.
-/

namespace Backtest.Report

/-- The table of figures. -/
def figures (m : Metrics Float) : List String :=
  head ["Metric", "Value"] ++
    [row ["Total Return", percent m.totalReturn],
     row ["CAGR", percent m.annualGrowth],
     row ["Sharpe", ratio m.sharpe],
     row ["Sortino", ratio m.sortino],
     row ["Max Drawdown", percent m.maxDrawdown],
     row ["Calmar", ratio m.calmar],
     row ["Win Rate", Decimal.fixed 1 (m.winRate * 100.0) ++ "%"],
     row ["Profit Factor", ratio m.profitFactor],
     row ["Trades", toString m.tradeCount]]

def period (points : List (EquityPoint Float)) : List String :=
  match points.head?, points.getLast? with
  | some first, some last =>
    ["Period: " ++ first.time.toSeconds ++ " → " ++ last.time.toSeconds ++ " (" ++
      toString (points.length - 1) ++ " bars)", ""]
  | _, _ => []

def parameters (a : Parameter.Assignment Float) : List String :=
  if a.isEmpty then ["_none_"]
  else head ["Parameter", "Value"] ++ a.entries.map fun e => row [e.1, e.2.text]

def notes (flags : List Degenerate) : List String :=
  whenever (!flags.isEmpty) ("" :: flags.map fun f => "- Note: " ++ f.describe)

def costs (e : Evaluation Float) : List String :=
  ["- Starting cash: " ++ Decimal.fixed 2 e.costs.startingCash,
   "- Final equity: " ++ Decimal.fixed 2 e.finalEquity,
   "- Commission paid: " ++ Decimal.fixed 2 e.totalCommission,
   "- Slippage paid: " ++ Decimal.fixed 2 e.totalSlippage] ++
  whenever (0 < e.rejectedSignals)
    ["- Short signals ignored (shorting disabled): " ++ toString e.rejectedSignals] ++
  whenever (0 < e.unfilledSignals)
    ["- Signals dropped (no valid open on the fill bar): " ++ toString e.unfilledSignals] ++
  whenever (!e.final.isFlat)
    ["- Open position at end: " ++ Decimal.fixed 4 e.final.quantity ++ " @ " ++
      Decimal.fixed 2 e.final.averagePrice ++ " (not counted as a trade)"]

def sideTitle : Side → String
  | .long => "Long"
  | .short => "Short"

def tradeRow (t : Trade Float) : String :=
  row [sideTitle t.side, t.entryTime.toSeconds, t.exitTime.toSeconds,
    Decimal.fixedSigned 2 t.profit, percent t.returnFraction]

/-- Trades by descending profit, those of equal profit as they were closed. -/
def byProfit (trades : List (Trade Float)) : List (Trade Float) :=
  trades.mergeSort fun a b => totalKey b.profit ≤ totalKey a.profit

/-- How many trades each end of the tape shows. -/
def tapeLength : Nat := 5

def tape (trades : List (Trade Float)) : List String :=
  let sorted := byProfit trades
  let titles := head ["Side", "Entry", "Exit", "PnL", "Return"]
  let winners := (sorted.take tapeLength).filter fun t => 0.0 < t.profit
  let losers := (sorted.reverse.take tapeLength).filter fun t => t.profit ≤ 0.0
  whenever (!trades.isEmpty)
    (["", "## Trade Tape", "", "### Top Winners"] ++ titles ++ winners.map tradeRow ++
      ["", "### Top Losers"] ++ titles ++ losers.map tradeRow)

/-- The report of a run. -/
def ofEvaluation (e : Evaluation Float) : String :=
  lines <|
    ["# StratLab Run Report", "", "Strategy: `" ++ e.strategy ++ "`", ""] ++ period e.equity ++
    ["## Parameters", ""] ++ parameters e.parameters ++
    ["", "## Performance", ""] ++ figures e.metrics ++ notes e.degenerate ++
    ["", "## Capital & Costs", ""] ++ costs e ++ tape e.trades

end Backtest.Report
