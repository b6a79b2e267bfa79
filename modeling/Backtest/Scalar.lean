/-!
# Arithmetic of prices and quantities

`Scalar` names the operations that a backtest performs on numbers and assumes no law of them, so
one set of definitions runs on doubles and is reasoned about on exact numbers. What is derived
from the operations (`larger`, `smaller`, `clamp`, `total`) fixes how missing values are treated:
a NaN operand loses a comparison for the larger or smaller of two, and poisons a sum.
-/

namespace Backtest

/-- The largest count that fits one 64-bit word. -/
def maxCount : Nat := UInt64.size - 1

/-- Numbers a backtest can run on. -/
class Scalar (α : Type) extends Add α, Sub α, Mul α, Div α, Neg α, LT α, LE α, BEq α where
  decLt : DecidableLT α
  decLe : DecidableLE α
  /-- The number nearest to a natural number. -/
  nat : Nat → α
  /-- The number nearest to an integer. -/
  int : Int → α
  /-- `decimal m p` is the number nearest to `m / 10 ^ p`. -/
  decimal : Nat → Nat → α
  nan : α
  infinity : α
  isNaN : α → Bool
  isFinite : α → Bool
  abs : α → α
  /-- The floor as a count: 0 below zero and for NaN, the bound where it is exceeded. -/
  floorUpTo (bound : Nat) (x : α) : Nat
  /-- The integer that a finite number equals, if it has no fraction. -/
  integer? : α → Option Int
  /-- Same representation: tells the two zeros apart and a NaN from no NaN. -/
  same : α → α → Bool
  /-- The text of a number inside a message. -/
  text : α → String

attribute [reducible, instance] Scalar.decLt Scalar.decLe

/-- Square roots and powers, which only performance figures need. -/
class Powers (α : Type) where
  sqrt : α → α
  pow : α → α → α

namespace Scalar

variable {α : Type} [Scalar α]

/-- The larger of two numbers, the second of equal ones; a NaN operand is ignored. -/
def larger (a b : α) : α :=
  if isNaN b then a else if b < a then a else b

/-- The smaller of two numbers, the second of equal ones; a NaN operand is ignored. -/
def smaller (a b : α) : α :=
  if isNaN b then a else if a < b then a else b

/-- Moves `x` into `[low, high]`; a NaN stays. -/
def clamp (x low high : α) : α :=
  let raised := if x < low then low else x
  if high < raised then high else raised

/-- Left-to-right sum. It starts from negative zero, the one neutral start for both zeros. -/
def total (xs : List α) : α :=
  xs.foldl (· + ·) (-nat 0)

/-- Both numbers lie strictly on the same side of zero. -/
def sameSide (a b : α) : Bool :=
  (nat 0 < a && nat 0 < b) || (a < nat 0 && b < nat 0)

/-- Infinite of either sign. -/
def isInfinite (x : α) : Bool :=
  !isNaN x && !isFinite x

end Scalar

end Backtest
