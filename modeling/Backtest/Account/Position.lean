import Backtest.Scalar

/-!
# Cash and position

The state of an account that holds one instrument: cash, a signed quantity, the average price paid
for it, and the equity at the last mark.
-/

namespace Backtest

/-- Direction of a position. -/
inductive Side where
  | long
  | short
  deriving Repr, DecidableEq

namespace Side

variable {α : Type} [Scalar α]

/-- 1 for long, -1 for short. -/
def sign : Side → α
  | .long => Scalar.nat 1
  | .short => -Scalar.nat 1

/-- The side of a signed quantity; none when flat. -/
def ofQuantity? (quantity : α) : Option Side :=
  if Scalar.nat 0 < quantity then some .long
  else if quantity < Scalar.nat 0 then some .short
  else none

end Side

structure Portfolio (α : Type) where
  cash : α
  /-- Positive long, negative short, zero flat. -/
  quantity : α
  averagePrice : α
  equity : α
  deriving BEq, Repr

namespace Portfolio

variable {α : Type} [Scalar α]

def ofCash (cash : α) : Portfolio α :=
  ⟨cash, Scalar.nat 0, Scalar.nat 0, cash⟩

def isFlat (p : Portfolio α) : Bool := p.quantity == Scalar.nat 0

def marketValue (p : Portfolio α) (price : α) : α := p.quantity * price

def equityAt (p : Portfolio α) (price : α) : α := p.cash + p.marketValue price

/-- Records the equity at a price. -/
def mark (p : Portfolio α) (price : α) : Portfolio α :=
  { p with equity := p.equityAt price }

end Portfolio

end Backtest
