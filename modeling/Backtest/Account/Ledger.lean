import Backtest.Account.Trade

/-!
# The ledger

The ledger books fills. A fill against the position first reduces, and perhaps closes, the open
trade; what is left of it opens a trade on the other side at the same price, and its costs are
shared between the two in proportion to quantity. Quantities below `dust` count as nothing.
-/

namespace Backtest

/-- One execution. -/
structure Fill (α : Type) where
  bar : Nat
  time : Timestamp
  /-- Time of the bar whose signal caused the fill. -/
  signalTime : Timestamp
  /-- Positive buys, negative sells. -/
  quantity : α
  /-- Price paid or received, slippage included. -/
  price : α
  commission : α
  slippage : α
  deriving Repr

structure Ledger (α : Type) where
  portfolio : Portfolio α
  openTrade : Option (OpenTrade α)
  /-- Closed trades, newest first. -/
  closedTrades : List (Trade α)
  totalCommission : α
  totalSlippage : α

namespace Ledger

variable {α : Type} [Scalar α]

open Scalar

/-- Quantities smaller than this are flat. -/
def dust : α := decimal 1 9

def ofCash (cash : α) : Ledger α :=
  ⟨.ofCash cash, none, [], nat 0, nat 0⟩

/-- Closed trades in the order of their closing. -/
def trades (l : Ledger α) : List (Trade α) := l.closedTrades.reverse

def mark (l : Ledger α) (price : α) : Ledger α :=
  { l with portfolio := l.portfolio.mark price }

/-- Lifts cash that is negative by less than `tolerance` to zero. -/
def snapCash (l : Ledger α) (tolerance : α) : Ledger α :=
  if l.portfolio.cash < nat 0 && -tolerance < l.portfolio.cash then
    { l with portfolio := { l.portfolio with cash := nat 0 } }
  else l

/-- How a fill divides between the position it meets and a new one. -/
structure Split (α : Type) where
  /-- Quantity that reduces the position. -/
  closing : α
  /-- Quantity that opens or adds. -/
  opening : α
  /-- The closing part as a fraction of the fill. -/
  closeShare : α
  /-- Position after the fill, with dust removed. -/
  after : α

/-- Divides a fill of `quantity` against a position of `held`. -/
def split (held quantity : α) : Split α :=
  let reducing := !(held == nat 0) && !sameSide held quantity
  let closing := if reducing then smaller (abs quantity) (abs held) else nat 0
  let sum := held + quantity
  { closing
    opening := abs quantity - closing
    closeShare := closing / abs quantity
    after := if abs sum < dust then nat 0 else sum }

/-- The open trade after the closing part has been booked as an exit. -/
def bookExit (s : Split α) (f : Fill α) (o : OpenTrade α) : OpenTrade α :=
  { o with
    exitQuantity := o.exitQuantity + s.closing
    exitNotional := o.exitNotional + s.closing * f.price
    commission := o.commission + f.commission * s.closeShare
    slippage := o.slippage + f.slippage * s.closeShare }

/-- The open trade after the opening part has been booked as an entry. -/
def bookEntry (s : Split α) (f : Fill α) : Option (OpenTrade α) → OpenTrade α
  | some o =>
    { o with
      entryQuantity := o.entryQuantity + s.opening
      entryNotional := o.entryNotional + s.opening * f.price
      commission := o.commission + f.commission * (nat 1 - s.closeShare)
      slippage := o.slippage + f.slippage * (nat 1 - s.closeShare) }
  | none =>
    { side := if nat 0 < f.quantity then .long else .short
      signalTime := f.signalTime
      entryBar := f.bar
      entryTime := f.time
      entryQuantity := s.opening
      entryNotional := s.opening * f.price
      exitQuantity := nat 0
      exitNotional := nat 0
      peakQuantity := nat 0
      commission := f.commission * (nat 1 - s.closeShare)
      slippage := f.slippage * (nat 1 - s.closeShare) }

/-- Average price of the position after a fill. -/
def averageAfter (p : Portfolio α) (s : Split α) (f : Fill α) : α :=
  if s.after == nat 0 then nat 0
  else if p.quantity == nat 0 || !sameSide s.after p.quantity then f.price
  else if abs p.quantity < abs s.after then
    (abs p.quantity * p.averagePrice + s.opening * f.price) / abs s.after
  else p.averagePrice

/-- Books the closing part: the open trade takes an exit, and ends if the position is gone or has
changed sides. -/
def closePart (l : Ledger α) (s : Split α) (f : Fill α) : Option (OpenTrade α) × List (Trade α) :=
  if nat 0 < s.closing then
    let booked := l.openTrade.map (bookExit s f)
    if s.after == nat 0 || !sameSide s.after l.portfolio.quantity then
      match booked with
      | some o => (none, o.close f.bar f.time :: l.closedTrades)
      | none => (none, l.closedTrades)
    else (booked, l.closedTrades)
  else (l.openTrade, l.closedTrades)

/-- Books one fill. -/
def apply (l : Ledger α) (f : Fill α) : Ledger α :=
  if abs f.quantity < dust then l
  else
    let s := split l.portfolio.quantity f.quantity
    let (remaining, closed) := l.closePart s f
    let opened := if dust < s.opening then some (bookEntry s f remaining) else remaining
    { portfolio :=
        { l.portfolio with
          cash := l.portfolio.cash - (f.quantity * f.price + f.commission)
          quantity := s.after
          averagePrice := averageAfter l.portfolio s f }
      openTrade := opened.map fun o =>
        { o with peakQuantity := larger o.peakQuantity (abs s.after) }
      closedTrades := closed
      totalCommission := l.totalCommission + f.commission
      totalSlippage := l.totalSlippage + f.slippage }

end Ledger

end Backtest
