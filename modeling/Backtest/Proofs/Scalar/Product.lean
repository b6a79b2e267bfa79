import Backtest.Proofs.Scalar.Quotient

/-!
# Products of doubles that are not negative

A positive double times one that is not negative is not negative either and no NaN, whether the
product underflows, overflows or is rounded. Added to a number it moves it up or leaves it where it
is, so a number of steps above a bound never leads below it.
-/

namespace Backtest.Double

open Float.Model
open Float.Model.UnpackedFloat

theorem Rounded.store_nonneg {v : ℚ} {u : UnpackedFloat} {f r : ℕ} {t : ℤ}
    (h : Rounded .positive v u f r t) : store u ≠ .notANumber ∧ 0 ≤ place (store u) := by
  obtain ⟨-, rfl⟩ | ⟨m, e, hm, rfl, hcanon, -⟩ := h.result
  · rw [store, unpack_pack (u := .zero .positive) trivial]
    exact ⟨by simp, le_rfl⟩
  · obtain ⟨hnumber, hplace⟩ := place_store_finite .positive hm hcanon
    exact ⟨hnumber, hplace ▸ bounded_nonneg _⟩

/-- The product of two significands either has enough bits, or is one of least exponents. -/
theorem exists_rounded_mul {s₁ s₂ : Sign} {m₁ m₂ : ℕ} {e₁ e₂ : ℤ} {h₁ : 0 < m₁} {h₂ : 0 < m₂}
    (hu : Stored (.finite s₁ m₁ e₁ h₁)) (hv : Stored (.finite s₂ m₂ e₂ h₂)) :
    ∃ f r t, Rounded (s₁ * s₂) ((m₁ * m₂ : ℕ) * 2 ^ (e₁ + e₂))
      (UnpackedFloat.mul Format.binary64 (.finite s₁ m₁ e₁ h₁) (.finite s₂ m₂ e₂ h₂)) f r t := by
  rw [mul_finite]
  refine exists_rounded_exact _ ?_
  rcases hu.1.normal with hlarge | hleast
  · exact .inl (hlarge.trans (Nat.le_mul_of_pos_right m₁ h₂))
  · rcases hv.1.normal with hlarge | hleast'
    · exact .inl (hlarge.trans (Nat.le_mul_of_pos_left m₂ h₁))
    · exact .inr (by omega)

variable {x y : Float}

theorem exists_unpacked_of_pos (hx : Scalar.isFinite x = true) (hpos : Scalar.nat 0 < x) :
    ∃ m e h, unpacked x = .finite .positive m e h := by
  have hn := Reading.isNaN_of_isFinite hx
  rw [Reading.lt_iff Reading.isNaN_zero hn, Reading.value_zero] at hpos
  change 0 < place (unpacked x) at hpos
  change (unpacked x).isFinite = true at hx
  cases hu : unpacked x with
  | notANumber => exact absurd hu (isNaN_eq_false_iff.1 hn)
  | infinity s =>
    rw [hu] at hx
    cases hx
  | zero s =>
    rw [hu] at hpos
    exact absurd hpos (lt_irrefl 0)
  | finite s m e h =>
    cases s with
    | positive => exact ⟨m, e, h, rfl⟩
    | negative =>
      rw [hu] at hpos
      exact absurd hpos place_lt_zero.le.not_gt

theorem mul_nonneg (hx : Scalar.isFinite x = true) (hpos : Scalar.nat 0 < x)
    (hy : Scalar.isNaN y = false) (hnonneg : 0 ≤ place (unpacked y)) :
    Scalar.isNaN (x * y) = false ∧ 0 ≤ place (unpacked (x * y)) := by
  obtain ⟨m, e, h, hu⟩ := exists_unpacked_of_pos hx hpos
  have hstored := stored_unpacked x
  have hstored' := stored_unpacked y
  have hmul : unpacked (x * y) = store (.mul .binary64 (unpacked x) (unpacked y)) := rfl
  rw [isNaN_eq_false_iff] at hy ⊢
  rw [hmul, hu]
  rw [hu] at hstored
  cases hv : unpacked y with
  | notANumber => exact absurd hv hy
  | infinity s =>
    cases s with
    | positive =>
      have hproduct : UnpackedFloat.mul .binary64 (.finite .positive m e h) (.infinity .positive) =
          .infinity .positive := rfl
      rw [hproduct, store, unpack_pack (u := .infinity .positive) trivial]
      exact ⟨by simp, le_top⟩
    | negative =>
      rw [hv] at hnonneg
      exact absurd hnonneg (not_le.2 EReal.bot_lt_zero)
  | zero s =>
    have hproduct : UnpackedFloat.mul .binary64 (.finite .positive m e h) (.zero s) =
        .zero (.positive * s) := rfl
    rw [hproduct, store, unpack_pack (u := .zero (.positive * s)) trivial]
    exact ⟨by simp, le_rfl⟩
  | finite s m' e' h' =>
    rw [hv] at hstored' hnonneg
    cases s with
    | negative => exact absurd hnonneg place_lt_zero.not_ge
    | positive =>
      obtain ⟨f, r, t, hrounded⟩ := exists_rounded_mul hstored hstored'
      exact hrounded.store_nonneg

theorem nat_nonneg {k : ℕ} (hk : k < 2 ^ 64) :
    Scalar.isNaN (Scalar.nat k : Float) = false ∧ 0 ≤ place (unpacked (Scalar.nat k)) := by
  rw [isNaN_eq_false_iff]
  rcases Nat.eq_zero_or_pos k with rfl | hpos
  · rw [unpacked_zero]
    exact ⟨by simp, le_rfl⟩
  · obtain ⟨m, e, h, hu, -, -⟩ := exists_unpacked_ofNat hpos hk
    rw [hu]
    exact ⟨by simp, zero_lt_place.le⟩

/-- What is not negative moves a number up when it is added, or leaves it where it is. -/
theorem le_add (hx : Scalar.isFinite x = true) (hy : Scalar.isNaN y = false)
    (hnonneg : 0 ≤ place (unpacked y)) :
    Scalar.isNaN (x + y) = false ∧ place (unpacked x) ≤ place (unpacked (x + y)) := by
  rw [isNaN_eq_false_iff]
  cases hfinite : Scalar.isFinite y with
  | true =>
    obtain ⟨hnumber, hplace⟩ := place_unpacked_add (Reading.isNaN_of_isFinite hx) hfinite
    refine ⟨hnumber, hplace ▸ le_roundPlace (stored_unpacked x) ?_⟩
    exact le_add_of_nonneg_right hnonneg
  | false =>
    -- a number that is neither below zero nor finite
    have hinfinite : unpacked y = .infinity .positive := by
      rw [isNaN_eq_false_iff] at hy
      change (unpacked y).isFinite = false at hfinite
      cases hv : unpacked y with
      | notANumber => exact absurd hv hy
      | infinity s =>
        cases s with
        | positive => rfl
        | negative =>
          rw [hv] at hnonneg
          exact absurd hnonneg (not_le.2 EReal.bot_lt_zero)
      | _ =>
        rw [hv] at hfinite
        cases hfinite
    have hsum : unpacked (x + y) = .infinity .positive := by
      change store (.add .binary64 (unpacked x) (unpacked y)) = _
      change (unpacked x).isFinite = true at hx
      rw [hinfinite]
      cases hu : unpacked x with
      | finite s m e h => exact unpack_pack (u := .infinity .positive) trivial
      | zero s => exact unpack_pack (u := .infinity .positive) trivial
      | _ =>
        rw [hu] at hx
        cases hx
    rw [hsum]
    exact ⟨by simp, le_top⟩

end Backtest.Double
