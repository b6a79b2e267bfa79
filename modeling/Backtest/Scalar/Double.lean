import Backtest.Decimal.Layout
import Backtest.Scalar

/-!
# Doubles

The arithmetic that runs: IEEE double precision, with the special values of that standard.
-/

namespace Backtest

/-- The floor of a double as a count, 0 below zero and for NaN. -/
def floorCount (bound : Nat) (x : Float) : Nat :=
  match Decimal.Binary.ofFloat x with
  | .nan => 0
  | .infinite negative => if negative then 0 else bound
  | .finite negative significand exponent =>
    if negative then 0
    else min bound (significand * Nat.pow 2 exponent.toNat / Nat.pow 2 (-exponent).toNat)

instance : Scalar Float where
  decLt := fun a b => Float.decLt a b
  decLe := fun a b => Float.decLe a b
  nat := Float.ofNat
  int := Float.ofInt
  decimal m p := Float.ofScientific m true p
  nan := 0.0 / 0.0
  infinity := 1.0 / 0.0
  isNaN := Float.isNaN
  isFinite := Float.isFinite
  abs := Float.abs
  floorUpTo := floorCount
  integer? x := (Decimal.Binary.ofFloat x).integer?
  same a b := a.toBits == b.toBits
  text := Decimal.Layout.message.write

/-- A key whose order runs through all doubles: negative ones first, each zero and NaN in its place
by sign and bits. -/
def totalKey (x : Float) : Int :=
  let word : Nat := x.toBits.toNat
  if word < Decimal.signBit then word else (Decimal.signBit - 1 : Int) - word

instance : Powers Float where
  sqrt := Float.sqrt
  pow := Float.pow

end Backtest
