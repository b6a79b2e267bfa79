/-!
# Reading decimals

A decimal text denotes `± mantissa · 10 ^ exponent`; the double read from it is the nearest one.
Exponents far outside the range of doubles are cut off before any power is computed.
-/

namespace Backtest.Decimal

/-- A decimal as it is written. -/
structure Written where
  negative : Bool
  mantissa : Nat
  exponent : Int
  deriving Repr, DecidableEq

/-- The double nearest to a magnitude; infinite when the magnitude is out of range. -/
def Written.magnitude (w : Written) : Float :=
  let size : Int := (Nat.toDigits 10 w.mantissa).length + w.exponent
  if w.mantissa = 0 then 0.0
  else if 400 < size then 1.0 / 0.0
  else if size < -400 then 0.0
  else if 0 ≤ w.exponent then Float.ofScientific (w.mantissa * Nat.pow 10 w.exponent.toNat) false 0
  else Float.ofScientific w.mantissa true (-w.exponent).toNat

/-- The double nearest to a decimal; a negative zero keeps its sign. -/
def Written.toFloat (w : Written) : Float :=
  if w.negative then -w.magnitude else w.magnitude

def digitValue (c : Char) : Nat := c.toNat - '0'.toNat

/-- The number that a run of decimal digits denotes. -/
def ofDigits (cs : List Char) : Nat :=
  cs.foldl (fun n c => 10 * n + digitValue c) 0

/-- Splits off the leading decimal digits. -/
def spanDigits (cs : List Char) : List Char × List Char :=
  (cs.takeWhile Char.isDigit, cs.dropWhile Char.isDigit)

/-- The exponent after `e` or `E`: an optional sign and at least one digit. -/
def exponent? (cs : List Char) : Option (Int × List Char) :=
  let (sign, rest) : Int × List Char :=
    match cs with
    | '+' :: r => (1, r)
    | '-' :: r => (-1, r)
    | r => (1, r)
  let (digits, rest) := spanDigits rest
  if digits.isEmpty then none else some (sign * (ofDigits digits : Int), rest)

/-- A plain decimal: digits with at most one point and at least one digit, then perhaps an
exponent, and nothing after it. -/
def plain? (negative : Bool) (cs : List Char) : Option Written :=
  let (whole, rest) := spanDigits cs
  let (fraction, rest) :=
    match rest with
    | '.' :: r => spanDigits r
    | r => ([], r)
  if whole.isEmpty && fraction.isEmpty then none
  else
    let mantissa := ofDigits (whole ++ fraction)
    let shift : Int := -(fraction.length : Int)
    match rest with
    | [] => some ⟨negative, mantissa, shift⟩
    | c :: r =>
      if c = 'e' ∨ c = 'E' then
        match exponent? r with
        | some (e, []) => some ⟨negative, mantissa, shift + e⟩
        | _ => none
      else none

/-- Reads a number cell or flag: a signed plain decimal, or `inf`, `infinity`, `nan` in any case. -/
def float? (text : String) : Option Float :=
  let (negative, body) :=
    match text.toList with
    | '-' :: r => (true, r)
    | '+' :: r => (false, r)
    | r => (false, r)
  let word := String.ofList (body.map Char.toLower)
  if word = "inf" ∨ word = "infinity" then some (if negative then -(1.0 / 0.0) else 1.0 / 0.0)
  else if word = "nan" then some (0.0 / 0.0)
  else (plain? negative body).map Written.toFloat

/-- Reads an integer: an optional sign and digits only. -/
def int? (text : String) : Option Int :=
  let (sign, body) : Int × List Char :=
    match text.toList with
    | '-' :: r => (-1, r)
    | '+' :: r => (1, r)
    | r => (1, r)
  if body.isEmpty || !body.all Char.isDigit then none
  else some (sign * (ofDigits body : Int))

/-- Reads an integer that fits 64 bits with a sign. -/
def int64? (text : String) : Option Int64 :=
  match int? text with
  | some z => if Int64.minValue.toInt ≤ z ∧ z ≤ Int64.maxValue.toInt then some (Int64.ofInt z) else none
  | none => none

/-- Reads a count that fits a 64-bit word. A minus sign is refused, also before zero. -/
def count? (text : String) : Option Nat :=
  match text.toList with
  | '-' :: _ => none
  | _ =>
    match int? text with
    | some z => if z < UInt64.size then some z.toNat else none
    | none => none

end Backtest.Decimal
