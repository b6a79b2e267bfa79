import Backtest.Proofs.Scalar.Product
import Backtest.Proofs.Scalar.Rational

/-!
# When a quotient is a number

A quotient of finite numbers is no NaN unless it is one by zero, and a quotient by zero is never
finite. A number that is not finite lies beyond every finite one, so a comparison of its magnitude
with a finite bound tells it apart as well.
-/

namespace Backtest

open Scalar

/-- Division fails at zero, and only there. -/
class Dividing (α : Type) [Scalar α] : Prop where
  isNaN_div {x y : α} : isFinite x = true → isFinite y = true → (y == nat 0) = false →
    isNaN (x / y) = false
  isFinite_div_zero {x y : α} : (y == nat 0) = true → isFinite (x / y) = false

instance : Dividing Extended where
  isNaN_div {x y} hx hy hne := by
    obtain ⟨a, rfl⟩ := Extended.isFinite_iff.1 hx
    obtain ⟨b, rfl⟩ := Extended.isFinite_iff.1 hy
    rw [Extended.nat_eq_finite, Extended.finite_beq, decide_eq_false_iff_not] at hne
    rw [Extended.finite_div hne]
    rfl
  isFinite_div_zero {x y} hzero := by
    have hy : y = .finite 0 := by
      cases y with
      | finite b =>
        rw [Extended.nat_eq_finite, Extended.finite_beq, decide_eq_true_iff] at hzero
        exact congrArg Extended.finite hzero
      | _ => cases hzero
    subst hy
    cases x with
    | finite a =>
      change isFinite (Extended.div (.finite a) (.finite 0)) = false
      rw [Extended.div, if_neg (not_not.2 rfl)]
      split <;> rfl
    | _ => rfl

namespace Double

open Float.Model
open Float.Model.UnpackedFloat

theorem Rounded.store_ne_notANumber {s : Sign} {v : ℚ} {u : UnpackedFloat} {f r : ℕ} {t : ℤ}
    (h : Rounded s v u f r t) : store u ≠ .notANumber := by
  obtain ⟨-, rfl⟩ | ⟨m, e, hm, rfl, hcanon, -⟩ := h.result
  · rw [store, unpack_pack (u := .zero s) trivial]
    intro hnan
    cases hnan
  · exact (place_store_finite s hm hcanon).1

/-- Both zeros equal zero, and nothing else does. -/
theorem beq_zero_iff {x : Float} : (x == Scalar.nat 0) = true ↔ ∃ s, unpacked x = .zero s := by
  change ((unpacked x).compare (.zero .positive) == some .eq) = true ↔ _
  cases unpacked x with
  | zero s => exact iff_of_true rfl ⟨s, rfl⟩
  | notANumber => exact iff_of_false nofun nofun
  | infinity s => cases s <;> exact iff_of_false nofun nofun
  | finite s m e h => cases s <;> exact iff_of_false nofun nofun

theorem unpacked_of_isFinite {x : Float} (hx : Scalar.isFinite x = true) :
    (∃ s, unpacked x = .zero s) ∨ ∃ s m e h, unpacked x = .finite s m e h := by
  change (unpacked x).isFinite = true at hx
  cases hu : unpacked x with
  | zero s => exact .inl ⟨s, rfl⟩
  | finite s m e h => exact .inr ⟨s, m, e, h, rfl⟩
  | _ =>
    rw [hu] at hx
    cases hx

theorem div_zero (u : UnpackedFloat) (t : Sign) :
    UnpackedFloat.div .binary64 u (.zero t) = .notANumber ∨
      ∃ s, UnpackedFloat.div .binary64 u (.zero t) = .infinity s := by
  cases u with
  | notANumber => exact .inl rfl
  | infinity s => exact .inr ⟨_, rfl⟩
  | zero s => exact .inl rfl
  | finite s m e h => exact .inr ⟨_, rfl⟩

theorem unpacked_div (x y : Float) :
    unpacked (x / y) = store (.div .binary64 (unpacked x) (unpacked y)) := rfl

end Double

instance : Dividing Float where
  isNaN_div {x y} hx hy hne := by
    rw [Double.isNaN_eq_false_iff, Double.unpacked_div]
    obtain ⟨t, hzero⟩ | ⟨t, m, e, h, hy⟩ := Double.unpacked_of_isFinite hy
    · rw [Double.beq_zero_iff.2 ⟨t, hzero⟩] at hne
      cases hne
    · rw [hy]
      obtain ⟨s, hx⟩ | ⟨s, m', e', h', hx⟩ := Double.unpacked_of_isFinite hx
      · rw [hx]
        change Double.store (.zero (s / t)) ≠ _
        rw [Double.store, Double.unpack_pack (u := .zero (s / t)) trivial]
        exact nofun
      · rw [hx]
        obtain ⟨f, r, k, hrounded⟩ := Double.exists_rounded_div h' h s t
        exact hrounded.store_ne_notANumber
  isFinite_div_zero {x y} hzero := by
    obtain ⟨t, hy⟩ := Double.beq_zero_iff.1 hzero
    change (Double.unpacked (x / y)).isFinite = false
    rw [Double.unpacked_div, hy]
    obtain hdiv | ⟨s, hdiv⟩ := Double.div_zero (Double.unpacked x) t
    · rw [hdiv, Double.store, Double.unpack_pack (u := .notANumber) trivial]
      rfl
    · rw [hdiv, Double.store, Double.unpack_pack (u := .infinity s) trivial]
      rfl

/-! ## Numbers beyond a bound -/

namespace Reading

variable {α : Type} [Scalar α] [Reading α] {x bound : α}

/-- An infinity is beyond every finite number. -/
theorem isFinite_of_abs_le (hx : isNaN x = false) (hbound : isFinite bound = true)
    (h : ¬bound < abs x) : isFinite x = true := by
  obtain ⟨hnum, b, hb⟩ := isFinite_iff.1 hbound
  have hnabs : isNaN (abs x) = false := by rw [isNaN_abs, hx]
  rw [lt_iff hnum hnabs, not_lt, hb] at h
  exact isFinite_of_isFinite_abs (isFinite_abs_of_le hx h)

/-- A number whose magnitude keeps a bound lies between the bound and its opposite. -/
theorem clamp_of_abs_le (hx : isNaN x = false) (hbound : isNaN bound = false)
    (h : ¬bound < abs x) : clamp x (-bound) bound = x := by
  have hnabs : isNaN (abs x) = false := by rw [isNaN_abs, hx]
  have hnneg : isNaN (-bound) = false := by rw [isNaN_neg, hbound]
  rw [not_lt_iff hbound hnabs, value_abs, max_le_iff] at h
  have hlow : ¬x < -bound := by
    rw [not_lt_iff hx hnneg, value_neg]
    exact EReal.neg_le_of_neg_le h.2
  have hhigh : ¬bound < x := (not_lt_iff hbound hx).2 h.1
  simp only [clamp, if_neg hlow, if_neg hhigh]

theorem clamp_inside {low high : α} (hx : isNaN x = false) (hlow : isNaN low = false)
    (hhigh : isNaN high = false) (hordered : ¬high < low) :
    isNaN (clamp x low high) = false ∧ ¬clamp x low high < low ∧ ¬high < clamp x low high := by
  simp only [clamp]
  by_cases hbelow : x < low
  · rw [if_pos hbelow, if_neg hordered]
    exact ⟨hlow, (not_lt_iff hlow hlow).2 le_rfl, hordered⟩
  · rw [if_neg hbelow]
    by_cases habove : high < x
    · rw [if_pos habove]
      exact ⟨hhigh, hordered, (not_lt_iff hhigh hhigh).2 le_rfl⟩
    · rw [if_neg habove]
      exact ⟨hx, hbelow, habove⟩

end Reading

end Backtest
