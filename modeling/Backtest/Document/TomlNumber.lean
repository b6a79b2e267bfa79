import Backtest.Document.TomlString
import Backtest.Time.Reader

/-!
# Numbers and dates of TOML

Underscores may stand between digits. Integers fit 64 bits with a sign and may be hexadecimal, octal
or binary; numbers with a point or an exponent are doubles. Dates and times are only recognised.
-/

namespace Backtest.Document.Toml

/-- Reads digits with single underscores between them, and drops the underscores. -/
def digitRun (isDigit : Char → Bool) : List Char → List Char × List Char
  | '_' :: c :: r =>
    if isDigit c then
      let (ds, rest) := digitRun isDigit r
      (c :: ds, rest)
    else ([], '_' :: c :: r)
  | c :: r =>
    if isDigit c then
      let (ds, rest) := digitRun isDigit r
      (c :: ds, rest)
    else ([], c :: r)
  | [] => ([], [])

/-- Digits, the first of which is no underscore. -/
def digits? (isDigit : Char → Bool) (cs : List Char) : Option (List Char × List Char) :=
  match cs with
  | c :: _ => if isDigit c then some (digitRun isDigit cs) else none
  | [] => none

/-- Reads an optional sign; true for a minus. -/
def sign : List Char → Bool × List Char
  | '-' :: r => (true, r)
  | '+' :: r => (false, r)
  | cs => (false, cs)

/-- Decimal digits without a leading zero. -/
def wholeDigits? (cs : List Char) : Option (List Char × List Char) :=
  match cs with
  | '0' :: r => some (['0'], r)
  | cs => digits? Char.isDigit cs

def exponent? : List Char → Option (Int × List Char)
  | c :: r =>
    if c = 'e' ∨ c = 'E' then
      let (negative, r) := sign r
      (digits? Char.isDigit r).map fun (ds, r) =>
        (if negative then -(Decimal.ofDigits ds : Int) else Decimal.ofDigits ds, r)
    else none
  | [] => none

/-- A double, unless it is too large to be finite. -/
def doubleOf? (w : Decimal.Written) : Option Document :=
  let x := w.toFloat
  if x == 1.0 / 0.0 then none else some (.float x)

/-- Reads a number with a point or an exponent. -/
def plainFloat? (cs : List Char) : Option (Document × List Char) := do
  let (negative, cs) := sign cs
  let (whole, cs) ← wholeDigits? cs
  match cs with
  | '.' :: r =>
    let (fraction, r) ← digits? Char.isDigit r
    let (exponent, r) := (exponent? r).getD (0, r)
    let written := ⟨negative, Decimal.ofDigits (whole ++ fraction), exponent - fraction.length⟩
    return (← doubleOf? written, r)
  | cs =>
    let (exponent, r) ← exponent? cs
    return (← doubleOf? ⟨negative, Decimal.ofDigits whole, exponent⟩, r)

/-- Reads an infinity or a NaN. -/
def specialFloat? (cs : List Char) : Option (Document × List Char) :=
  let (negative, cs) := sign cs
  match cs with
  | 'i' :: 'n' :: 'f' :: r => some (.float (if negative then -(1.0 / 0.0) else 1.0 / 0.0), r)
  | 'n' :: 'a' :: 'n' :: r => some (.float (0.0 / 0.0), r)
  | _ => none

def isHexDigit (c : Char) : Bool := (Digest.hexValue? c).isSome
def isOctalDigit (c : Char) : Bool := '0' ≤ c && c ≤ '7'
def isBinaryDigit (c : Char) : Bool := c = '0' || c = '1'

/-- The number that digits denote in a base. -/
def inBase (base : Nat) (ds : List Char) : Nat :=
  ds.foldl (fun n c => base * n + (Digest.hexValue? c).getD 0) 0

def int64Of? (z : Int) : Option Document :=
  if Int64.minValue.toInt ≤ z ∧ z ≤ Int64.maxValue.toInt then some (.int z) else none

/-- Reads digits in a base after their mark. -/
def basedInt? (base : Nat) (isDigit : Char → Bool) (cs : List Char) :
    Option (Document × List Char) := do
  let (ds, r) ← digits? isDigit cs
  return (← int64Of? (inBase base ds), r)

def integer? (cs : List Char) : Option (Document × List Char) :=
  match cs with
  | '0' :: 'x' :: r => basedInt? 16 isHexDigit r
  | '0' :: 'o' :: r => basedInt? 8 isOctalDigit r
  | '0' :: 'b' :: r => basedInt? 2 isBinaryDigit r
  | cs => do
    let (negative, cs) := sign cs
    let (ds, r) ← wholeDigits? cs
    let n : Int := Decimal.ofDigits ds
    return (← int64Of? (if negative then -n else n), r)

/-- `YYYY-MM-DD` with a day that exists. -/
def date? (cs : List Char) : Option (List Char) := do
  let (year, r) ← Time.fixedDigits? 4 cs
  let (month, r) ← Time.fixedDigits? 2 (← Time.char? '-' r)
  let (day, r) ← Time.fixedDigits? 2 (← Time.char? '-' r)
  if 1 ≤ month ∧ month ≤ 12 ∧ 1 ≤ day ∧ day ≤ Date.daysInMonth year month then some r else none

/-- `HH:MM:SS`, perhaps with a fraction. -/
def time? (cs : List Char) : Option (List Char) := do
  let (hour, r) ← Time.fixedDigits? 2 cs
  let (minute, r) ← Time.fixedDigits? 2 (← Time.char? ':' r)
  let (second, r) ← Time.fixedDigits? 2 (← Time.char? ':' r)
  if 23 < hour ∨ 59 < minute ∨ 60 < second then none
  else
    match r with
    | '.' :: c :: r => if c.isDigit then some (r.dropWhile Char.isDigit) else none
    | r => some r

/-- Recognises a date, a time, or both with an optional offset. None of the values described here
is a date, so it is only told apart from numbers and stands as an object without members. -/
def moment? (cs : List Char) : Option (Document × List Char) :=
  let moment := Document.object []
  match date? cs with
  | some (c :: r) =>
    if c = 'T' ∨ c = 't' ∨ c = ' ' then
      match time? r with
      | some r =>
        match Time.offset? r with
        | some (_, r) => some (moment, r)
        | none => some (moment, r)
      | none => some (moment, c :: r)
    else some (moment, c :: r)
  | some [] => some (moment, [])
  | none => (time? cs).map fun r => (moment, r)

/-- Reads a date or a number. -/
def number? (cs : List Char) : Option (Document × List Char) :=
  moment? cs <|> plainFloat? cs <|> specialFloat? cs <|> integer? cs

end Backtest.Document.Toml
