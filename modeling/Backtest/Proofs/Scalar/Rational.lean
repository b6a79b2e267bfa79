import Mathlib.Data.Nat.Sqrt
import Backtest.Proofs.Scalar.Reading
import Backtest.Random.Uniform

/-!
# Rational numbers

Rational numbers are an arithmetic of their own, without infinities and NaN. Where nothing is
divided by zero, exact numbers compute what they compute.
-/

namespace Backtest

instance : Scalar ℚ where
  decLt := inferInstance
  decLe := inferInstance
  nat n := n
  int n := n
  decimal m p := mkRat m (Nat.pow 10 p)
  nan := 0
  infinity := 0
  isNaN _ := false
  isFinite _ := true
  abs x := |x|
  floorUpTo bound x := Extended.floorCount bound (.finite x)
  integer? x := Extended.integer? (.finite x)
  same x y := x = y
  text x := Extended.text (.finite x)

namespace Rational

variable {a b : ℚ}

@[simp] theorem nat_eq (n : ℕ) : (Scalar.nat n : ℚ) = n := rfl

@[simp] theorem abs_eq : Scalar.abs a = |a| := rfl

@[simp] theorem isNaN_eq : Scalar.isNaN a = false := rfl

@[simp] theorem isFinite_eq : Scalar.isFinite a = true := rfl

@[simp] theorem beq_eq : (a == b) = decide (a = b) := rfl

theorem smaller_eq_min (a b : ℚ) : Scalar.smaller a b = min a b := by
  simp only [Scalar.smaller, isNaN_eq, Bool.false_eq_true, if_false]
  rcases lt_or_ge a b with h | h
  · rw [if_pos h, min_eq_left h.le]
  · rw [if_neg h.not_gt, min_eq_right h]

theorem larger_eq_max (a b : ℚ) : Scalar.larger a b = max a b := by
  simp only [Scalar.larger, isNaN_eq, Bool.false_eq_true, if_false]
  rcases lt_or_ge b a with h | h
  · rw [if_pos h, max_eq_left h.le]
  · rw [if_neg h.not_gt, max_eq_right h]

theorem clamp_eq_min {x low high : ℚ} (h : low ≤ x) : Scalar.clamp x low high = min x high := by
  simp only [Scalar.clamp, if_neg h.not_gt]
  rcases lt_or_ge high x with hlt | hle
  · rw [if_pos hlt, min_eq_right hlt.le]
  · rw [if_neg hle.not_gt, min_eq_left hle]

end Rational

/-- Rational numbers lie where they are, and their sums are not rounded. -/
noncomputable instance : Reading ℚ where
  value a := ((a : ℝ) : EReal)
  round a := a
  isFinite_iff {x} := by simp
  lt_iff _ _ := by simp
  beq_iff _ _ := by simp
  isFinite_zero := rfl
  value_zero := by simp
  isFinite_billionth := rfl
  billionth_pos := by
    have hpos : (0 : ℚ) < mkRat 1 (Nat.pow 10 9) := by decide
    simpa [Scalar.decimal] using hpos
  isNaN_neg _ := rfl
  value_neg x := by simp
  isNaN_abs _ := rfl
  value_abs x := by
    rw [Rational.abs_eq, Rat.cast_abs, abs_eq_max_neg, EReal.coe_strictMono.monotone.map_max,
      EReal.coe_neg]
  isNaN_add _ _ := rfl
  value_add _ _ := by simp
  isNaN_sub _ _ := rfl
  value_sub _ _ := by simp
  round_neg _ := rfl
  le_round _ h := h

instance : Saturating ℚ where
  isNaN_of_lt _ := rfl
  isNaN_of_beq _ := rfl
  isFinite_of_add _ := ⟨rfl, rfl⟩

namespace Extended

variable {a b : ℚ}

/-! ## Exact numbers that are rational -/

@[simp] theorem nat_eq_finite (n : ℕ) : (Scalar.nat n : Extended) = finite (Scalar.nat n) := rfl

@[simp] theorem sameSide_finite :
    Scalar.sameSide (finite a) (finite b) = Scalar.sameSide a b := by
  simp only [Scalar.sameSide, nat_eq_finite, finite_lt]

@[simp] theorem smaller_finite :
    Scalar.smaller (finite a) (finite b) = finite (Scalar.smaller a b) := by
  simp only [Scalar.smaller, isNaN_finite, Rational.isNaN_eq, finite_lt, Bool.false_eq_true,
    if_false, apply_ite finite]

@[simp] theorem larger_finite :
    Scalar.larger (finite a) (finite b) = finite (Scalar.larger a b) := by
  simp only [Scalar.larger, isNaN_finite, Rational.isNaN_eq, finite_lt, Bool.false_eq_true,
    if_false, apply_ite finite]

@[simp] theorem clamp_finite {x low high : ℚ} :
    Scalar.clamp (finite x) (finite low) (finite high) = finite (Scalar.clamp x low high) := by
  simp only [Scalar.clamp, finite_lt, ← apply_ite finite]

/-! ## Computable stand-ins for roots, powers and draws -/

/-- Roots rounded down to six places, and powers with exponents rounded down. -/
@[reducible]
def coarsePowers : Powers Extended where
  sqrt
    | finite a => finite (mkRat ((a * 10 ^ 12).floor.toNat.sqrt) (10 ^ 6))
    | x => x
  pow
    | finite a, finite b => finite (a ^ b.floor)
    | _, _ => nan

@[reducible]
def wordDraws : Random.Uniform Extended where
  between low high g :=
    let (word, g) := g.longWord
    (low + (high - low) * finite (mkRat word (2 ^ 64)), g)

end Extended

end Backtest
