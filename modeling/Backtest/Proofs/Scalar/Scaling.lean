import Mathlib.Tactic.Ring
import Backtest.Proofs.Scalar.Total

/-!
# Exact numbers in another unit

A change of unit multiplies by a positive rational number. Infinities, NaN and zero are the same in
every unit. Sums, differences and multiples change along, comparisons do not change, and a quotient
of two numbers in one unit has none.
-/

namespace Backtest.Extended

open Scalar

variable {k : ℚ}

theorem scale_nan (k : ℚ) : finite k * Scalar.nan = Scalar.nan := rfl

theorem scale_zero (k : ℚ) : finite k * nat 0 = nat 0 := by
  simp

variable (hk : 0 < k)
include hk

theorem scale_infinite (s : Bool) : finite k * infinite s = infinite s := by
  change Extended.mul (finite k) (infinite s) = infinite s
  simp [Extended.mul, negative, hk.ne', hk.not_gt]

theorem scale_of_not_isFinite {x : Extended} (hx : isFinite x = false) : finite k * x = x := by
  cases x with
  | finite a => cases hx
  | infinite s => exact scale_infinite hk s
  | nan => rfl

theorem isNaN_scale (x : Extended) : isNaN (finite k * x) = isNaN x := by
  cases x with
  | finite | nan => rfl
  | infinite s => rw [scale_infinite hk]

theorem scale_neg (x : Extended) : -(finite k * x) = finite k * -x := by
  cases x with
  | finite a => simp
  | infinite s => rw [scale_infinite hk, scale_of_not_isFinite hk rfl]
  | nan => rfl

theorem scale_add (x y : Extended) : finite k * x + finite k * y = finite k * (x + y) := by
  cases x with
  | finite a =>
    cases y with
    | finite b => simp [mul_add]
    | infinite t =>
      rw [scale_infinite hk]
      exact (scale_infinite hk t).symm
    | nan => rfl
  | infinite s =>
    rw [scale_infinite hk]
    cases y with
    | finite b => exact (scale_infinite hk s).symm
    | infinite t =>
      have hsum : isFinite (infinite s + infinite t) = false := by cases s <;> cases t <;> rfl
      rw [scale_infinite hk, scale_of_not_isFinite hk hsum]
    | nan => rfl
  | nan => rfl

theorem scale_sub (x y : Extended) : finite k * x - finite k * y = finite k * (x - y) := by
  have hsub (x y : Extended) : x - y = x + -y := rfl
  rw [hsub, hsub, scale_neg hk, scale_add hk]

theorem mul_scale (w : ℚ) (x : Extended) :
    finite w * (finite k * x) = finite k * (finite w * x) := by
  cases x with
  | finite a => simp [mul_left_comm]
  | infinite s =>
    have hproduct : isFinite (finite w * infinite s) = false := by
      change isFinite (Extended.mul (finite w) (infinite s)) = false
      simp only [Extended.mul]
      split <;> rfl
    rw [scale_infinite hk, scale_of_not_isFinite hk hproduct]
  | nan => rfl

/-- A weighted mean is in the unit of what it is of. -/
theorem scale_mean {w : Extended} {q : ℚ} (hw : w = finite q) (x y : Extended) :
    w * (finite k * x) + (nat 1 - w) * (finite k * y) =
      finite k * (w * x + (nat 1 - w) * y) := by
  rw [hw, nat_eq_finite, finite_sub, mul_scale hk, mul_scale hk, scale_add hk]

theorem scale_div {n : ℚ} (hn : n ≠ 0) (x : Extended) :
    finite k * x / finite n = finite k * (x / finite n) := by
  cases x with
  | finite a => simp [hn, mul_div_assoc]
  | infinite s => rw [scale_infinite hk, scale_of_not_isFinite hk rfl]
  | nan => rfl

theorem scale_div_scale (x y : Extended) : finite k * x / (finite k * y) = x / y := by
  have hsign (b : ℚ) : k * b < 0 ↔ b < 0 := by simp [mul_neg_iff, hk, hk.not_gt]
  cases x with
  | finite a =>
    cases y with
    | finite b =>
      by_cases hb : b = 0
      · change Extended.div (finite (k * a)) (finite (k * b)) = Extended.div (finite a) (finite b)
        simp [Extended.div, hb, hsign, hk.ne']
      · rw [finite_mul, finite_mul, finite_div (mul_ne_zero hk.ne' hb), finite_div hb,
          mul_div_mul_left _ _ hk.ne']
    | infinite t => rw [scale_infinite hk]; rfl
    | nan => rfl
  | infinite s =>
    cases y with
    | finite b =>
      rw [scale_infinite hk]
      change Extended.div (infinite s) (finite (k * b)) = Extended.div (infinite s) (finite b)
      simp [Extended.div, negative, hsign]
    | infinite t => rw [scale_infinite hk, scale_infinite hk]
    | nan =>
      rw [scale_infinite hk]
      rfl
  | nan => rfl

theorem scale_lt_scale {x y : Extended} : finite k * x < finite k * y ↔ x < y := by
  cases x with
  | finite a =>
    cases y with
    | finite b => simp [hk]
    | infinite t => rw [scale_infinite hk]; rfl
    | nan => rfl
  | infinite s =>
    rw [scale_infinite hk]
    cases y with
    | finite b => rfl
    | infinite t => rw [scale_infinite hk]
    | nan => rfl
  | nan => rfl

theorem scale_beq_zero (x : Extended) : (finite k * x == nat 0) = (x == nat 0) := by
  cases x with
  | finite a => simp [hk.ne']
  | infinite s => rw [scale_infinite hk]
  | nan => rfl

theorem zero_lt_scale (x : Extended) : nat 0 < finite k * x ↔ nat 0 < x := by
  conv_lhs => rw [← scale_zero k, scale_lt_scale hk]

theorem scale_le_zero (x : Extended) : finite k * x ≤ nat 0 ↔ x ≤ nat 0 := by
  have hle (y : Extended) : y ≤ nat 0 ↔ y < nat 0 ∨ (y == nat 0) = true := Bool.or_eq_true_iff
  have hlt : finite k * x < nat 0 ↔ x < nat 0 := by
    conv_lhs => rw [← scale_zero k, scale_lt_scale hk]
  rw [hle, hle, hlt, scale_beq_zero hk]

theorem larger_scale_zero (x : Extended) :
    larger (finite k * x) (nat 0) = finite k * larger x (nat 0) := by
  have hnumber : isNaN (nat 0 : Extended) = false := rfl
  simp only [larger, hnumber, zero_lt_scale hk, Bool.false_eq_true, if_false,
    apply_ite (finite k * ·), scale_zero]

theorem total_scale (xs : List Extended) :
    total (xs.map (finite k * ·)) = finite k * total xs := by
  have hzero : finite k * -nat 0 = -nat 0 := by simp
  have hfold : xs.foldl (fun s x => s + finite k * x) (finite k * -nat 0) =
      finite k * xs.foldl (· + ·) (-nat 0) :=
    List.foldl_hom (finite k * ·) fun s x => scale_add hk s x
  rw [total, List.foldl_map, total, ← hfold, hzero]

end Backtest.Extended
