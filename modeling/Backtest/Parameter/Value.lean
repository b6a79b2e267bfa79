import Backtest.Decimal.Reading
import Backtest.Scalar

/-!
# Parameter values

A value is an integer, a number or one of a few named choices. Two numbers are the same value only
if they have the same representation, so the two zeros differ and a NaN equals itself.
-/

namespace Backtest.Parameter

/-- What kind of value a parameter takes. -/
inductive Kind where
  | int
  | float
  | choice
  deriving Repr, DecidableEq

def Kind.name : Kind → String
  | .int => "int"
  | .float => "float"
  | .choice => "choice"

inductive Value (α : Type) where
  | int (value : Int64)
  | float (value : α)
  | choice (value : String)
  deriving Repr

/-- The integer, moved into the range of 64-bit integers. -/
def clampInt64 (z : Int) : Int64 :=
  if z < Int64.minValue.toInt then Int64.minValue
  else if Int64.maxValue.toInt < z then Int64.maxValue
  else Int64.ofInt z

namespace Value

/-- The value with a number replaced by what a function gives for it. -/
def map {α β : Type} (f : α → β) : Value α → Value β
  | .int v => .int v
  | .float v => .float (f v)
  | .choice v => .choice v

variable {α : Type} [Scalar α]

def kind : Value α → Kind
  | .int _ => .int
  | .float _ => .float
  | .choice _ => .choice

def text : Value α → String
  | .int v => toString v.toInt
  | .float v => Scalar.text v
  | .choice v => v

def same : Value α → Value α → Bool
  | .int a, .int b => a == b
  | .float a, .float b => Scalar.same a b
  | .choice a, .choice b => a == b
  | _, _ => false

instance : BEq (Value α) := ⟨same⟩

/-- The value as a number; choices have none. -/
def number? : Value α → Option α
  | .int v => some (Scalar.int v.toInt)
  | .float v => some v
  | .choice _ => none

/-- The value as an integer; a number without a fraction counts, moved into range. -/
def int? : Value α → Option Int64
  | .int v => some v
  | .float v => (Scalar.integer? v).map clampInt64
  | .choice _ => none

end Value

end Backtest.Parameter
