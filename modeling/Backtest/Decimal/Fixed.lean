import Backtest.Decimal.Binary

/-!
# Fixed decimal places

The exact value of a double is rounded to a number of places, a tie going to the even neighbour.
-/

namespace Backtest.Decimal

/-- The quotient nearest to `num / den`; a tie goes to the even neighbour. -/
def roundHalfEven (num den : Nat) : Nat :=
  let floor := num / den
  let twice := 2 * (num % den)
  if twice < den then floor
  else if den < twice then floor + 1
  else if floor % 2 = 0 then floor else floor + 1

/-- `units · 10 ^ -places` with exactly `places` digits after the point. -/
def withPoint (units places : Nat) : String :=
  if places = 0 then toString units
  else
    let fraction := toString (units % Nat.pow 10 places)
    let padding := String.ofList (List.replicate (places - fraction.length) '0')
    toString (units / Nat.pow 10 places) ++ "." ++ padding ++ fraction

/-- The text of a double with fixed places; a NaN has no sign, and `plus` stands before every other
number that is not negative. -/
def fixedWith (plus : String) (places : Nat) (x : Float) : String :=
  match Binary.ofFloat x with
  | .nan => "NaN"
  | .infinite negative => (if negative then "-" else plus) ++ "inf"
  | .finite negative significand exponent =>
    let num := significand * Nat.pow 10 places * Nat.pow 2 exponent.toNat
    let den := Nat.pow 2 (-exponent).toNat
    (if negative then "-" else plus) ++ withPoint (roundHalfEven num den) places

def fixed (places : Nat) (x : Float) : String := fixedWith "" places x

/-- As `fixed`, with a plus sign before what is not negative. -/
def fixedSigned (places : Nat) (x : Float) : String := fixedWith "+" places x

end Backtest.Decimal
