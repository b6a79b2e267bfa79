import Backtest.Scalar
import Backtest.Time.Timestamp

/-!
# Bars

A bar is what one market did over one interval. A series of bars is usable only in strictly
increasing order of time; it is never sorted here.
-/

namespace Backtest

structure Bar (α : Type) where
  time : Timestamp
  openPrice : α
  high : α
  low : α
  close : α
  volume : α
  deriving Repr

namespace Bar

variable {α : Type} [Scalar α]

/-- Some price of the bar is missing. -/
def isVoid (b : Bar α) : Bool :=
  Scalar.isNaN b.openPrice || Scalar.isNaN b.high || Scalar.isNaN b.low || Scalar.isNaN b.close

/-- No price is missing, high and low bound the others, and trading prices are positive. -/
def isSane (b : Bar α) : Bool :=
  !b.isVoid && b.low ≤ b.high && b.openPrice ≤ b.high && b.close ≤ b.high && b.low ≤ b.openPrice &&
    b.low ≤ b.close && Scalar.nat 0 < b.openPrice && Scalar.nat 0 < b.close

end Bar

/-- Two neighbouring bars of which the second is not later. -/
structure Disorder where
  index : Nat
  previous : Timestamp
  current : Timestamp
  deriving Repr, DecidableEq

variable {α : Type}

/-- The first disorder of a series whose first bar has the given index. -/
def disorderFrom : Nat → List (Bar α) → Option Disorder
  | index, a :: b :: rest =>
    if a.time < b.time then disorderFrom (index + 1) (b :: rest)
    else some ⟨index + 1, a.time, b.time⟩
  | _, _ => none

/-- The first bar that does not follow its predecessor in time. -/
def disorder? (bars : List (Bar α)) : Option Disorder :=
  disorderFrom 0 bars

end Backtest
