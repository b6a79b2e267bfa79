import Backtest.Decimal.Shortest

/-!
# Number texts with the fewest digits

A `Layout` is the set of decisions that tell one such text from another: which numbers are written
without an exponent, whether a whole number keeps `.0`, and how the special values are spelt.
-/

namespace Backtest.Decimal

/-- How a double is spelt once its shortest digits are known. -/
structure Layout where
  /-- Numbers `0.d₁d₂… · 10 ^ p` with `p` in this range are written without exponent; every number
  is when there is no range. -/
  positional : Option (Int × Int)
  /-- What follows a whole number written without exponent. -/
  wholeSuffix : String
  /-- What stands before a non-negative exponent, after the `e`. -/
  exponentPlus : String
  nan : String
  infinity : String
  negativeInfinity : String

/-- Text inside a message or a report: never an exponent, whole numbers without a point. -/
def Layout.message : Layout := ⟨none, "", "", "NaN", "inf", "-inf"⟩

/-- A number in JSON; what is not finite has no number there and is `null`. -/
def Layout.json : Layout := ⟨some (-4, 16), ".0", "+", "null", "null", "null"⟩

/-- A number in a table cell. -/
def Layout.cell : Layout := ⟨some (-4, 16), ".0", "", "NaN", "inf", "-inf"⟩

def zeros (n : Nat) : String :=
  String.ofList (List.replicate n '0')

/-- Writes `d` without an exponent. -/
def Layout.plain (l : Layout) (d : Digits) : String :=
  let text := toString d.digits
  if 0 ≤ d.exponent then text ++ zeros d.exponent.toNat ++ l.wholeSuffix
  else
    let places := (-d.exponent).toNat
    if places < text.length then
      let whole := text.length - places
      String.ofList (text.toList.take whole) ++ "." ++ String.ofList (text.toList.drop whole)
    else "0." ++ zeros (places - text.length) ++ text

/-- Writes `d` with one digit before the point and an exponent. -/
def Layout.scientific (l : Layout) (d : Digits) : String :=
  let text := toString d.digits
  let exponent := d.exponent + (text.length : Int) - 1
  let mantissa :=
    match text.toList with
    | first :: second :: rest => String.ofList (first :: '.' :: second :: rest)
    | _ => text
  mantissa ++ "e" ++ (if 0 ≤ exponent then l.exponentPlus else "") ++ toString exponent

/-- Writes a magnitude. -/
def Layout.magnitude (l : Layout) (d : Digits) : String :=
  if d.digits = 0 then "0" ++ l.wholeSuffix
  else
    let point := d.exponent + (digitCount d.digits : Int)
    match l.positional with
    | none => l.plain d
    | some (low, high) => if low ≤ point ∧ point ≤ high then l.plain d else l.scientific d

/-- The text of a double. -/
def Layout.write (l : Layout) (x : Float) : String :=
  match Binary.ofFloat x with
  | .nan => l.nan
  | .infinite negative => if negative then l.negativeInfinity else l.infinity
  | .finite negative significand exponent =>
    (if negative then "-" else "") ++ l.magnitude (shortest significand exponent)

end Backtest.Decimal
