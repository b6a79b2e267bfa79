import Backtest.Storage.Run

/-!
# Flat records of runs

One run as a flat object of plain values, for tools that know nothing of assignments and curves:
parameters are texts, times are to the second, and figures that are not finite are `null`.
-/

namespace Backtest.Storage

def timeText (p : Option (EquityPoint Float)) : String :=
  (p.map fun p => p.time.toSeconds).getD ""

def ofRecord (e : Evaluation Float) : Document :=
  let m := e.metrics
  .object
    [("strategy", .text e.strategy),
     ("params", .object (e.parameters.entries.map fun p => (p.1, .text p.2.text))),
     ("start", .text (timeText e.equity.head?)), ("end", .text (timeText e.equity.getLast?)),
     ("bars", ofCount (e.equity.length - 1)), ("starting_cash", .float e.costs.startingCash),
     ("final_equity", .float e.finalEquity), ("total_return", .float m.totalReturn),
     ("cagr", .float m.annualGrowth), ("sharpe_ratio", .float m.sharpe),
     ("sortino_ratio", .float m.sortino), ("max_drawdown", .float m.maxDrawdown),
     ("calmar_ratio", .float m.calmar), ("win_rate", .float m.winRate),
     ("profit_factor", ofFinite m.profitFactor), ("num_trades", ofCount m.tradeCount),
     ("total_commission", .float e.totalCommission), ("total_slippage", .float e.totalSlippage),
     ("rejected_signals", ofCount e.rejectedSignals),
     ("unfilled_signals", ofCount e.unfilledSignals)]

end Backtest.Storage
