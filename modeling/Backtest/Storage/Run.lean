import Backtest.Metrics.Target
import Backtest.Scalar.Double
import Backtest.Simulation.Evaluation
import Backtest.Storage.Parameter
import Backtest.Time.Printer

/-!
# Stored runs

An evaluated run as a document and back. A profit factor that is not finite is stored as `null`,
which reads as infinity.
-/

namespace Backtest.Storage

def ofTime (t : Timestamp) : Document := .text t.exact

def ofCount (n : Nat) : Document := .int n

def ofPoint (p : EquityPoint Float) : Document :=
  .object [("timestamp", ofTime p.time), ("equity", .float p.equity)]

def point? (d : Document) : Option (EquityPoint Float) := do
  let f ← d.fields? ["timestamp", "equity"]
  return ⟨← f.required "timestamp" Document.time?, ← f.required "equity" Document.float?⟩

def ofCurve (points : List (EquityPoint Float)) : Document := .list (points.map ofPoint)

def sideName : Side → String
  | .long => "long"
  | .short => "short"

def sideOfName? (name : String) : Option Side :=
  if name = "long" then some .long else if name = "short" then some .short else none

def ofTrade (t : Trade Float) : Document :=
  .object
    [("side", .text (sideName t.side)), ("signal_time", ofTime t.signalTime),
     ("entry_bar", ofCount t.entryBar), ("entry_time", ofTime t.entryTime),
     ("entry_price", .float t.entryPrice), ("exit_bar", ofCount t.exitBar),
     ("exit_time", ofTime t.exitTime), ("exit_price", .float t.exitPrice),
     ("quantity", .float t.quantity), ("commission_paid", .float t.commission),
     ("slippage_paid", .float t.slippage), ("pnl", .float t.profit)]

def trade? (d : Document) : Option (Trade Float) := do
  let f ← d.fields? ["side", "signal_time", "entry_bar", "entry_time", "entry_price", "exit_bar",
    "exit_time", "exit_price", "quantity", "commission_paid", "slippage_paid", "pnl"]
  return {
    side := ← f.required "side" (Document.named? sideOfName?)
    signalTime := ← f.required "signal_time" Document.time?
    entryBar := ← f.required "entry_bar" Document.count?
    entryTime := ← f.required "entry_time" Document.time?
    entryPrice := ← f.required "entry_price" Document.float?
    exitBar := ← f.required "exit_bar" Document.count?
    exitTime := ← f.required "exit_time" Document.time?
    exitPrice := ← f.required "exit_price" Document.float?
    quantity := ← f.required "quantity" Document.float?
    commission := ← f.required "commission_paid" Document.float?
    slippage := ← f.required "slippage_paid" Document.float?
    profit := ← f.required "pnl" Document.float? }

/-- A number, `null` when it is not finite. -/
def ofFinite (x : Float) : Document := if x.isFinite then .float x else .null

def ofMetrics (m : Metrics Float) : Document :=
  .object
    [("total_return", .float m.totalReturn), ("cagr", .float m.annualGrowth),
     ("sharpe_ratio", .float m.sharpe), ("sortino_ratio", .float m.sortino),
     ("max_drawdown", .float m.maxDrawdown), ("calmar_ratio", .float m.calmar),
     ("win_rate", .float m.winRate), ("profit_factor", ofFinite m.profitFactor),
     ("num_trades", ofCount m.tradeCount)]

def metrics? (d : Document) : Option (Metrics Float) := do
  let f ← d.fields? ["total_return", "cagr", "sharpe_ratio", "sortino_ratio", "max_drawdown",
    "calmar_ratio", "win_rate", "profit_factor", "num_trades"]
  let factor ← f.required "profit_factor" (Document.nullable? Document.float?)
  return {
    totalReturn := ← f.required "total_return" Document.float?
    annualGrowth := ← f.required "cagr" Document.float?
    sharpe := ← f.required "sharpe_ratio" Document.float?
    sortino := ← f.required "sortino_ratio" Document.float?
    maxDrawdown := ← f.required "max_drawdown" Document.float?
    calmar := ← f.required "calmar_ratio" Document.float?
    winRate := ← f.required "win_rate" Document.float?
    profitFactor := factor.getD Scalar.infinity
    tradeCount := ← f.required "num_trades" Document.count? }

def degenerateOfName? (name : String) : Option Degenerate :=
  Degenerate.all.find? fun flag => flag.name == name

def ofPortfolio (p : Portfolio Float) : Document :=
  .object
    [("cash", .float p.cash), ("position_quantity", .float p.quantity),
     ("position_avg_price", .float p.averagePrice), ("equity", .float p.equity)]

def portfolio? (d : Document) : Option (Portfolio Float) := do
  let f ← d.fields? ["cash", "position_quantity", "position_avg_price", "equity"]
  return {
    cash := ← f.required "cash" Document.float?
    quantity := ← f.required "position_quantity" Document.float?
    averagePrice := ← f.required "position_avg_price" Document.float?
    equity := ← f.required "equity" Document.float? }

def ofCosts (c : Costs Float) : Document :=
  .object
    [("starting_cash", .float c.startingCash), ("commission_rate", .float c.commissionRate),
     ("slippage_rate", .float c.slippageRate), ("max_leverage", .float c.maxLeverage),
     ("allow_short", .bool c.allowShort)]

/-- Costs; what is left out is standard. -/
def costs? (d : Document) : Option (Costs Float) := do
  let f ← d.fields? ["starting_cash", "commission_rate", "slippage_rate", "max_leverage",
    "allow_short"]
  let c : Costs Float := .standard
  return {
    startingCash := ← f.withDefault "starting_cash" Document.float? c.startingCash
    commissionRate := ← f.withDefault "commission_rate" Document.float? c.commissionRate
    slippageRate := ← f.withDefault "slippage_rate" Document.float? c.slippageRate
    maxLeverage := ← f.withDefault "max_leverage" Document.float? c.maxLeverage
    allowShort := ← f.withDefault "allow_short" Document.bool? c.allowShort }

def ofEvaluation (e : Evaluation Float) : Document :=
  .object
    [("schema_version", ofCount e.schemaVersion), ("strategy", .text e.strategy),
     ("params", ofAssignment e.parameters), ("equity_curve", ofCurve e.equity),
     ("trades", .list (e.trades.map ofTrade)), ("metrics", ofMetrics e.metrics),
     ("degenerate", ofTexts (e.degenerate.map Degenerate.name)),
     ("final_state", ofPortfolio e.final), ("config", ofCosts e.costs),
     ("bars_per_year", .float e.barsPerYear), ("rejected_signals", ofCount e.rejectedSignals),
     ("unfilled_signals", ofCount e.unfilledSignals),
     ("total_commission", .float e.totalCommission), ("total_slippage", .float e.totalSlippage)]

/-- A version number of 32 bits. -/
def version? (d : Document) : Option Nat :=
  d.count?.bind fun n => if n < UInt32.size then some n else none

def evaluation? (d : Document) : Option (Evaluation Float) := do
  let f ← d.fields? ["schema_version", "strategy", "params", "equity_curve", "trades", "metrics",
    "degenerate", "final_state", "config", "bars_per_year", "rejected_signals",
    "unfilled_signals", "total_commission", "total_slippage"]
  let flags := Document.list? (Document.named? degenerateOfName?)
  return {
    schemaVersion := ← f.withDefault "schema_version" version? Evaluation.currentSchema
    strategy := ← f.required "strategy" Document.text?
    parameters := ← f.required "params" assignment?
    equity := ← f.required "equity_curve" (Document.list? point?)
    trades := ← f.required "trades" (Document.list? trade?)
    metrics := ← f.required "metrics" metrics?
    degenerate := ← f.withDefault "degenerate" flags []
    final := ← f.required "final_state" portfolio?
    costs := ← f.required "config" costs?
    barsPerYear := ← f.required "bars_per_year" Document.float?
    rejectedSignals := ← f.withDefault "rejected_signals" Document.count? 0
    unfilledSignals := ← f.withDefault "unfilled_signals" Document.count? 0
    totalCommission := ← f.withDefault "total_commission" Document.float? 0.0
    totalSlippage := ← f.withDefault "total_slippage" Document.float? 0.0 }

end Backtest.Storage
