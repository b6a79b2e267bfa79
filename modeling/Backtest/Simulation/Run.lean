import Backtest.Simulation.Order
import Backtest.Time.Printer

/-!
# Simulation

One strategy, one assignment and one series of bars. Each bar from the first traded one on is met
in three steps: the signal of the close before is decided on the history up to it, it is executed
at the opening, and the account is marked at the close. Bars before the first traded one are
history only.
-/

namespace Backtest

/-- Why a simulation gives no result. -/
inductive RunError (α : Type) where
  | insufficientData (required actual : Nat)
  | disordered (disorder : Disorder)
  | rejected (rejection : Rejection α)
  | failed (bar : Nat) (fault : Fault α)
  deriving Repr

structure EquityPoint (α : Type) where
  time : Timestamp
  equity : α
  deriving BEq, Repr

structure Simulation (α : Type) where
  /-- The full assignment the run used. -/
  parameters : Parameter.Assignment α
  /-- The initial state, then one point a traded bar. -/
  equity : List (EquityPoint α)
  /-- Closed round trips; a position still open at the end is not among them. -/
  trades : List (Trade α)
  final : Portfolio α
  /-- Short signals turned flat because shorting is not allowed. -/
  rejectedSignals : Nat
  /-- Position changes dropped because the bar had no price to open at. -/
  unfilledSignals : Nat
  /-- Index of the first traded bar. -/
  start : Nat
  totalCommission : α
  totalSlippage : α

variable {α : Type} [Scalar α]

def RunError.message : RunError α → String
  | .insufficientData required actual =>
    "insufficient data: " ++ toString actual ++ " bars, need at least " ++ toString required
  | .disordered d =>
    "bars out of order at index " ++ toString d.index ++ ": " ++ d.current.message ++
      " does not follow " ++ d.previous.message
  | .rejected r => "invalid config: " ++ r.message
  | .failed bar f => "signal at bar " ++ toString bar ++ ": " ++ f.message

namespace Simulation

open Scalar

/-- One bar to signal and one to fill. -/
def leastBars : Nat := 2

/-- Cash that is negative by less than this is rounding. -/
def cashTolerance : α := decimal 1 6

/-- What does not change during a run. -/
structure Setup (α : Type) where
  strategy : Strategy α
  parameters : Parameter.Assignment α
  table : IndicatorTable α
  costs : Costs α

/-- The account during a run. -/
structure Account (α : Type) where
  ledger : Ledger α
  lastClose : Option α
  rejectedSignals : Nat
  unfilledSignals : Nat
  /-- Newest first. -/
  points : List (EquityPoint α)

def Account.start (cash : α) (time : Timestamp) : Account α :=
  ⟨.ofCash cash, none, 0, 0, [⟨time, cash⟩]⟩

/-- The signal at the newest bar of a history. -/
def signalAt (s : Setup α) (history : History α) : Except (RunError α) (Signal α) :=
  let bar := history.length - 1
  (s.strategy.evaluate history (s.table.view bar) s.parameters).mapError (.failed bar)

/-- Executes a signal of the newest bar of a history at the opening of the bar that follows. -/
def execute (s : Setup α) (history : History α) (signal : Signal α) (bar : Bar α)
    (a : Account α) : Except (RunError α) (Account α) :=
  match signal.weight?, history.last? with
  | some requested, some signalBar =>
    if !isFinite requested then
      .error (.failed (history.length - 1) ⟨s.strategy.name, .weightNotFinite requested⟩)
    else
      let (weight, refused) := Order.allowedWeight s.costs requested
      let a := if refused then { a with rejectedSignals := a.rejectedSignals + 1 } else a
      match Order.outcome s.costs a.ledger.portfolio signal.isDiscrete weight signalBar.time
          history.length bar with
      | .unchanged => .ok a
      | .noOpening => .ok { a with unfilledSignals := a.unfilledSignals + 1 }
      | .filled fill =>
        .ok { a with ledger := (a.ledger.apply fill).snapCash cashTolerance }
  | _, _ => .ok a

/-- Marks the account at a close; a close that is not finite leaves the last one in force. -/
def close (bar : Bar α) (a : Account α) : Account α :=
  let lastClose := if isFinite bar.close then some bar.close else a.lastClose
  let ledger := a.ledger.mark (lastClose.getD a.ledger.portfolio.averagePrice)
  { a with ledger, lastClose, points := ⟨bar.time, ledger.portfolio.equity⟩ :: a.points }

/-- Meets one bar with the history before it. -/
def step (s : Setup α) (history : History α) (bar : Bar α) (a : Account α) :
    Except (RunError α) (Account α) :=
  if history.isEmpty then .ok (close bar a)
  else
    (signalAt s history).bind fun signal => (execute s history signal bar a).map (close bar)

/-- Meets the remaining bars in order. -/
def play (s : Setup α) : History α → List (Bar α) → Account α → Except (RunError α) (Account α)
  | _, [], a => .ok a
  | history, bar :: rest, a =>
    match step s history bar a with
    | .ok a => play s (history.push bar) rest a
    | .error e => .error e

def ofAccount (parameters : Parameter.Assignment α) (start : Nat) (a : Account α) :
    Simulation α where
  parameters := parameters
  equity := a.points.reverse
  trades := a.ledger.trades
  final := a.ledger.portfolio
  rejectedSignals := a.rejectedSignals
  unfilledSignals := a.unfilledSignals
  start := start
  totalCommission := a.ledger.totalCommission
  totalSlippage := a.ledger.totalSlippage

/-- Checks everything a run depends on, and computes the declared series. -/
def prepare (bars : List (Bar α)) (start : Nat) (strategy : Strategy α)
    (assigned : Parameter.Assignment α) (costs : Costs α) : Except (RunError α) (Setup α) := do
  costs.validate.mapError .rejected
  if bars.length < start + leastBars then
    throw (.insufficientData (min (start + leastBars) maxCount) bars.length)
  if let some d := disorder? bars then throw (.disordered d)
  let parameters ← (strategy.resolve assigned).mapError .rejected
  let indicators ← (strategy.indicators parameters).mapError (.failed start)
  return ⟨strategy, parameters, .compute bars indicators, costs⟩

/-- Trades the bars from index `start` on; earlier bars are history, and the signal of the last of
them is executed at the first traded opening. -/
def runFrom (bars : List (Bar α)) (start : Nat) (strategy : Strategy α)
    (assigned : Parameter.Assignment α) (costs : Costs α) :
    Except (RunError α) (Simulation α) := do
  let setup ← prepare bars start strategy assigned costs
  let firstTime := ((bars[start]?).map (·.time)).getD default
  let account ← play setup (.ofSeries (bars.take start)) (bars.drop start)
    (.start costs.startingCash firstTime)
  return ofAccount setup.parameters start account

/-- Trades every bar. -/
def run (bars : List (Bar α)) (strategy : Strategy α) (assigned : Parameter.Assignment α)
    (costs : Costs α) : Except (RunError α) (Simulation α) :=
  runFrom bars 0 strategy assigned costs

/-- Equity values in order. -/
def equityValues (s : Simulation α) : List α := s.equity.map (·.equity)

def barsTraded (s : Simulation α) : Nat := s.equity.length - 1

end Simulation

end Backtest
