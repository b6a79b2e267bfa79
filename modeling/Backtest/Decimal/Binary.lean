/-!
# What a double stands for

A finite double is a sign, a significand and a power of two. The decimal texts of this library are
all computed from that exact value in natural numbers.
-/

namespace Backtest.Decimal

/-- The meaning of a double. -/
inductive Binary where
  | nan
  | infinite (negative : Bool)
  /-- `± significand · 2 ^ exponent` -/
  | finite (negative : Bool) (significand : Nat) (exponent : Int)
  deriving Repr, DecidableEq

/-- Significand of the smallest normal double, the one with a closer neighbour below. -/
def leastNormal : Nat := 0x10000000000000

/-- The sign bit, the highest of the 64. -/
def signBit : Nat := 0x8000000000000000

/-- Exponent of the subnormal doubles. -/
def leastExponent : Int := -1074

def Binary.ofBits (bits : UInt64) : Binary :=
  let word : Nat := bits.toNat
  let negative := decide (signBit ≤ word)
  let biased : Nat := word / leastNormal % 2048
  let fraction : Nat := word % leastNormal
  if biased = 2047 then
    if fraction = 0 then .infinite negative else .nan
  else if biased = 0 then .finite negative fraction leastExponent
  else .finite negative (fraction + leastNormal) ((biased : Int) - 1075)

def Binary.ofFloat (x : Float) : Binary :=
  .ofBits x.toBits

/-- The integer that a finite double equals, if it has no fraction. -/
def Binary.integer? : Binary → Option Int
  | .finite negative significand exponent =>
    let magnitude : Option Nat :=
      if 0 ≤ exponent then some (significand * Nat.pow 2 exponent.toNat)
      else
        let unit := Nat.pow 2 (-exponent).toNat
        if significand % unit = 0 then some (significand / unit) else none
    magnitude.map fun m => if negative then -(m : Int) else (m : Int)
  | _ => none

end Backtest.Decimal
