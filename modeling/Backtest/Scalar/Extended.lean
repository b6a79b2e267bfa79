import Backtest.Scalar

/-!
# Exact numbers

Rational numbers without rounding, completed by two infinities and NaN, which follow the rules of
the floating-point standard. There is one zero; a quotient by it takes its sign from the dividend.
A law of a backtest that rounding would break is a law of these numbers.
-/

namespace Backtest

/-- A rational number, an infinity, or no number. -/
inductive Extended where
  | finite (value : Rat)
  | infinite (negative : Bool)
  | nan
  deriving DecidableEq, Repr

namespace Extended

instance : Coe Rat Extended := ⟨finite⟩

instance : Inhabited Extended := ⟨finite 0⟩

/-- Below zero. -/
def negative : Extended → Bool
  | finite a => a < 0
  | infinite s => s
  | nan => false

protected def neg : Extended → Extended
  | finite a => finite (-a)
  | infinite s => infinite !s
  | nan => nan

protected def add : Extended → Extended → Extended
  | finite a, finite b => finite (a + b)
  | nan, _ | _, nan => nan
  | infinite s, infinite t => if s = t then infinite s else nan
  | infinite s, finite _ => infinite s
  | finite _, infinite t => infinite t

protected def mul : Extended → Extended → Extended
  | finite a, finite b => finite (a * b)
  | nan, _ | _, nan => nan
  | x, y => if x = finite 0 ∨ y = finite 0 then nan else infinite (x.negative ^^ y.negative)

protected def div : Extended → Extended → Extended
  | finite a, finite b =>
    if b ≠ 0 then finite (a / b) else if a = 0 then nan else infinite (a < 0)
  | nan, _ | _, nan => nan
  | infinite _, infinite _ => nan
  | infinite s, y => infinite (s ^^ y.negative)
  | finite _, infinite _ => finite 0

/-- Order of the numbers that are no NaN. -/
def less : Extended → Extended → Bool
  | finite a, finite b => a < b
  | nan, _ | _, nan => false
  | infinite s, infinite t => s && !t
  | infinite s, finite _ => s
  | finite _, infinite t => !t

/-- Equality of numbers; a NaN equals nothing. -/
def equal (x y : Extended) : Bool := x = y && x ≠ nan

/-- The absolute value. -/
def magnitude : Extended → Extended
  | finite a => finite a.abs
  | infinite _ => infinite false
  | nan => nan

/-- The floor as a count up to a bound. -/
def floorCount (bound : Nat) : Extended → Nat
  | finite a => min bound a.floor.toNat
  | infinite s => if s then 0 else bound
  | nan => 0

/-- The integer that a number equals. -/
def integer? : Extended → Option Int
  | finite a => if a.den = 1 then some a.num else none
  | _ => none

/-- A quotient of integers, or a word. -/
def text : Extended → String
  | finite a => if a.den = 1 then toString a.num else toString a.num ++ "/" ++ toString a.den
  | infinite s => if s then "-inf" else "inf"
  | nan => "NaN"

instance : Scalar Extended where
  add := Extended.add
  sub x y := Extended.add x y.neg
  mul := Extended.mul
  div := Extended.div
  neg := Extended.neg
  lt x y := less x y
  le x y := less x y || equal x y
  beq := equal
  decLt _ _ := inferInstanceAs (Decidable (_ = true))
  decLe _ _ := inferInstanceAs (Decidable (_ = true))
  nat n := finite n
  int n := finite n
  decimal m p := finite (mkRat m (Nat.pow 10 p))
  nan := nan
  infinity := infinite false
  isNaN x := x = nan
  isFinite
    | finite _ => true
    | _ => false
  abs := magnitude
  floorUpTo := floorCount
  integer? := integer?
  same x y := x = y
  text := text

/-! ## Finite operands -/

variable {a b : Rat}

@[simp] theorem finite_add : finite a + finite b = finite (a + b) := rfl

@[simp] theorem finite_neg : -finite a = finite (-a) := rfl

@[simp] theorem finite_sub : finite a - finite b = finite (a - b) := by
  rw [Rat.sub_eq_add_neg]; rfl

@[simp] theorem finite_mul : finite a * finite b = finite (a * b) := rfl

@[simp] theorem finite_div (hb : b ≠ 0) : finite a / finite b = finite (a / b) :=
  if_pos hb

@[simp] theorem finite_lt : finite a < finite b ↔ a < b := by
  change decide (a < b) = true ↔ _
  simp

@[simp] theorem finite_le : finite a ≤ finite b ↔ a ≤ b := by
  change (decide (a < b) || equal (finite a) (finite b)) = true ↔ _
  simp [equal, Rat.le_iff_lt_or_eq]

@[simp] theorem finite_beq : (finite a == finite b) = decide (a = b) := by
  change equal (finite a) (finite b) = _
  simp [equal]

@[simp] theorem isFinite_finite : Scalar.isFinite (finite a) = true := rfl

@[simp] theorem isNaN_finite : Scalar.isNaN (finite a) = false := rfl

/-- A number is finite, an infinity or NaN. -/
theorem isFinite_iff {x : Extended} : Scalar.isFinite x = true ↔ ∃ a, x = finite a := by
  cases x <;> simp [Scalar.isFinite]

end Extended

end Backtest
