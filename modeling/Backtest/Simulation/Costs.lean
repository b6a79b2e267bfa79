import Backtest.Rejection

/-!
# Costs and exposure

What trading costs in one run, and how far the account may borrow or go short.
-/

namespace Backtest

structure Costs (α : Type) where
  startingCash : α
  /-- Fraction of the notional charged on every fill. -/
  commissionRate : α
  /-- Fraction of the price paid on buys and given up on sells. -/
  slippageRate : α
  /-- Borrowing allowed as a multiple of equity. -/
  maxLeverage : α
  allowShort : Bool
  deriving BEq, Repr

namespace Costs

variable {α : Type} [Scalar α]

open Scalar

def standard : Costs α :=
  ⟨nat 100000, nat 0, decimal 5 4, nat 0, false⟩

/-- No commission and no slippage. -/
def frictionless (startingCash : α) : Costs α :=
  { standard with startingCash, commissionRate := nat 0, slippageRate := nat 0 }

def isRate (x : α) : Bool := nat 0 ≤ x && x < nat 1

/-- The first cost that cannot be used. -/
def validate (c : Costs α) : Except (Rejection α) Unit :=
  if !isFinite c.startingCash || c.startingCash < nat 0 then .error (.negativeCash c.startingCash)
  else if !isRate c.commissionRate then .error (.rateOutOfRange "commission_rate" c.commissionRate)
  else if !isRate c.slippageRate then .error (.rateOutOfRange "slippage_rate" c.slippageRate)
  else if !isFinite c.maxLeverage || c.maxLeverage < nat 0 then
    .error (.invalidLeverage c.maxLeverage)
  else .ok ()

/-- The largest weight, long or short, that a strategy may request. -/
def maxWeight (c : Costs α) : α := nat 1 + c.maxLeverage

end Costs

end Backtest
