import Backtest.Account.Ledger
import Backtest.Simulation.Costs
import Backtest.Strategy.Basic

/-!
# From signal to fill

A signal is sized at the next opening: the requested weight of equity at the raw opening price is
turned into a quantity at the price after slippage and commission, and a purchase is cut to what
the borrowing limit allows. A discrete signal for the side already held changes nothing.
-/

namespace Backtest.Order

variable {α : Type} [Scalar α]

open Scalar

/-- What becomes of a signal at an opening. -/
inductive Outcome (α : Type) where
  | unchanged
  /-- The opening price cannot be traded at. -/
  | noOpening
  | filled (fill : Fill α)

def buyPrice (c : Costs α) (opening : α) : α := opening * (nat 1 + c.slippageRate)

def sellPrice (c : Costs α) (opening : α) : α := opening * (nat 1 - c.slippageRate)

/-- The largest purchase after which cash is at least the negative of the allowed leverage times
equity, with equity at the raw opening price. -/
def maxBuy (c : Costs α) (p : Portfolio α) (opening : α) : α :=
  let leverage := c.maxLeverage
  let unitCost := buyPrice c opening * (nat 1 + c.commissionRate)
  let headroom := p.cash * (nat 1 + leverage) + leverage * p.quantity * opening
  let denominator := unitCost * (nat 1 + leverage) - leverage * opening
  if headroom ≤ nat 0 || denominator ≤ nat 0 then nat 0 else headroom / denominator

/-- The quantity that a weight of equity comes to at an opening price. -/
def targetQuantity (c : Costs α) (p : Portfolio α) (opening weight : α) : α :=
  let equity := p.equityAt opening
  if equity ≤ nat 0 || weight == nat 0 then nat 0
  else if nat 0 < weight then weight * equity / (buyPrice c opening * (nat 1 + c.commissionRate))
  else weight * equity / sellPrice c opening

/-- The quantity to trade, positive for a purchase. -/
def quantity (c : Costs α) (p : Portfolio α) (opening weight : α) : α :=
  let difference := targetQuantity c p opening weight - p.quantity
  if nat 0 < difference then smaller difference (maxBuy c p opening) else difference

/-- A requested weight brought within the limits, and whether a short request was refused. -/
def allowedWeight (c : Costs α) (requested : α) : α × Bool :=
  let weight := clamp requested (-c.maxWeight) c.maxWeight
  if weight < nat 0 && !c.allowShort then (nat 0, true) else (weight, false)

/-- The position already is where a signal wants it. -/
def isSettled (discrete : Bool) (held weight : α) : Bool :=
  (discrete && Side.ofQuantity? held == Side.ofQuantity? weight) ||
    (weight == nat 0 && held == nat 0)

/-- A price that can be traded at. -/
def isTradable (opening : α) : Bool := isFinite opening && nat 0 < opening

/-- The fill of a weight at the opening of bar `bar`. -/
def fillFor (c : Costs α) (p : Portfolio α) (weight : α) (signalTime : Timestamp) (bar : Nat)
    (b : Bar α) : Outcome α :=
  let dq := quantity c p b.openPrice weight
  if abs dq < Ledger.dust then .unchanged
  else
    let price := if nat 0 < dq then buyPrice c b.openPrice else sellPrice c b.openPrice
    .filled
      { bar
        time := b.time
        signalTime
        quantity := dq
        price
        commission := abs dq * price * c.commissionRate
        slippage := abs dq * b.openPrice * c.slippageRate }

/-- What becomes of a weight requested by a signal. -/
def outcome (c : Costs α) (p : Portfolio α) (discrete : Bool) (weight : α)
    (signalTime : Timestamp) (bar : Nat) (b : Bar α) : Outcome α :=
  if isSettled discrete p.quantity weight then .unchanged
  else if !isTradable b.openPrice then .noOpening
  else fillFor c p weight signalTime bar b

end Backtest.Order
