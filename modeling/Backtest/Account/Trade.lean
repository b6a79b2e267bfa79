import Backtest.Account.Position
import Backtest.Time.Timestamp

/-!
# Trades

A trade is a round trip from flat to flat, or to the opposite side. While it is open its entries
and exits are accumulated; closed, it shows their quantity-weighted average prices and the profit
net of costs.
-/

namespace Backtest

/-- A closed round trip. -/
structure Trade (α : Type) where
  side : Side
  /-- Time of the bar whose signal opened the trade. -/
  signalTime : Timestamp
  entryBar : Nat
  entryTime : Timestamp
  entryPrice : α
  exitBar : Nat
  exitTime : Timestamp
  exitPrice : α
  /-- Largest absolute quantity held. -/
  quantity : α
  commission : α
  slippage : α
  /-- Net of commission; slippage is part of the prices. -/
  profit : α
  deriving BEq, Repr

namespace Trade

variable {α : Type} [Scalar α]

/-- Profit as a fraction of the entry notional, 0 without one. -/
def returnFraction (t : Trade α) : α :=
  let notional := t.entryPrice * t.quantity
  if notional == Scalar.nat 0 then Scalar.nat 0 else t.profit / notional

def isWinner (t : Trade α) : Bool := Scalar.nat 0 < t.profit

def barsHeld (t : Trade α) : Nat := t.exitBar - t.entryBar

end Trade

/-- A round trip that has not ended. -/
structure OpenTrade (α : Type) where
  side : Side
  signalTime : Timestamp
  entryBar : Nat
  entryTime : Timestamp
  entryQuantity : α
  entryNotional : α
  exitQuantity : α
  exitNotional : α
  peakQuantity : α
  commission : α
  slippage : α
  deriving Repr

namespace OpenTrade

variable {α : Type} [Scalar α]

/-- Notional over quantity, 0 without a quantity. -/
def average (notional quantity : α) : α :=
  if Scalar.nat 0 < quantity then notional / quantity else Scalar.nat 0

def close (o : OpenTrade α) (bar : Nat) (time : Timestamp) : Trade α where
  side := o.side
  signalTime := o.signalTime
  entryBar := o.entryBar
  entryTime := o.entryTime
  entryPrice := average o.entryNotional o.entryQuantity
  exitBar := bar
  exitTime := time
  exitPrice := average o.exitNotional o.exitQuantity
  quantity := o.peakQuantity
  commission := o.commission
  slippage := o.slippage
  profit := o.side.sign * (o.exitNotional - o.entryNotional) - o.commission

end OpenTrade

end Backtest
