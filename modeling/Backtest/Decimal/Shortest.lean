import Backtest.Decimal.Binary

/-!
# Fewest digits that read back

Every real between the two midpoints around a double is read as that double, the midpoints
themselves when its significand is even. `shortest` looks for the coarsest decimal grid with a
point in that interval and takes the grid point nearest to the value.
-/

namespace Backtest.Decimal

/-- A decimal magnitude `digits · 10 ^ exponent`. -/
structure Digits where
  digits : Nat
  exponent : Int
  deriving Repr, DecidableEq

/-- A positive magnitude with the interval of reals that read as it, over one denominator. -/
structure Interval where
  low : Nat
  value : Nat
  high : Nat
  denominator : Nat
  /-- Whether the ends themselves read back. -/
  closed : Bool

/-- The interval of `significand · 2 ^ exponent`. Below the smallest significand of a binade the
neighbour is half as far, except at the subnormals. -/
def Interval.ofBinary (significand : Nat) (exponent : Int) : Interval :=
  let below := if significand = leastNormal ∧ leastExponent < exponent then 1 else 2
  let scale := if 2 ≤ exponent then Nat.pow 2 (exponent - 2).toNat else 1
  { low := (4 * significand - below) * scale
    value := 4 * significand * scale
    high := (4 * significand + 2) * scale
    denominator := if 2 ≤ exponent then 1 else Nat.pow 2 (2 - exponent).toNat
    closed := significand % 2 == 0 }

/-- Whether `digits · 10 ^ exponent`, given as a fraction `num / den`, reads back. -/
def Interval.holds (i : Interval) (num den : Nat) : Bool :=
  let (low, point, high) := (i.low * den, num * i.denominator, i.high * den)
  if i.closed then low ≤ point && point ≤ high else low < point && point < high

/-- The point of the grid `10 ^ exponent` that reads back and is nearest to the value; of two
equally near points the one with an even last digit. -/
def Interval.onGrid? (i : Interval) (exponent : Int) : Option Digits :=
  let up := Nat.pow 10 exponent.toNat
  let down := Nat.pow 10 (-exponent).toNat
  let floor := i.value * down / (i.denominator * up)
  let reads (c : Nat) : Bool := 0 < c && i.holds (c * up) down
  let twice := 2 * (i.value * down)
  let middle := (2 * floor + 1) * (i.denominator * up)
  let lowerFirst := twice < middle || (twice == middle && floor % 2 == 0)
  let (first, second) := if lowerFirst then (floor, floor + 1) else (floor + 1, floor)
  if reads first then some ⟨first, exponent⟩
  else if reads second then some ⟨second, exponent⟩
  else none

/-- Searches ever finer grids, starting at `exponent`. -/
def Interval.search (i : Interval) : (fuel : Nat) → (exponent : Int) → Digits
  | 0, exponent => ⟨i.value, exponent⟩
  | fuel + 1, exponent =>
    match i.onGrid? exponent with
    | some d => d
    | none => i.search fuel (exponent - 1)

/-- How many decimal digits a natural number has; 1 for zero. -/
def digitCount (n : Nat) : Nat :=
  (Nat.toDigits 10 n).length

/-- The fewest digits that read back as `significand · 2 ^ exponent`, and of those the nearest.
Twenty grids reach below the seventeen digits that always suffice. -/
def shortest (significand : Nat) (exponent : Int) : Digits :=
  if significand = 0 then ⟨0, 0⟩
  else
    let i := Interval.ofBinary significand exponent
    let start : Int := (digitCount i.high : Int) - (digitCount i.denominator : Int) + 1
    i.search 22 start

end Backtest.Decimal
