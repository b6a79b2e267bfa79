import Backtest.Proofs.Decimal.Rounding

/-!
# Quotients in and out of range

A rounded fraction lies less than one last place from the exact one. That is enough to tell a
quotient that leaves the range of doubles, which becomes an infinity, from one that stays well
inside.
-/

namespace Backtest.Double

open Float.Model
open Float.Model.UnpackedFloat

/-! ## Within one last place -/

/-- `u` is the value `v` rounded down or up to a multiple of `2 ^ t`, the last place of a double. -/
structure Rounded (s : Sign) (v : ℚ) (u : UnpackedFloat) (f r : ℕ) (t : ℤ) : Prop where
  low : (f : ℚ) * 2 ^ t ≤ v
  high : v < (f + 1) * 2 ^ t
  floor : f ≤ r ∧ r ≤ f + 1
  lt : f < 2 ^ 53
  least : -1074 ≤ t
  normal : 2 ^ 52 ≤ f ∨ t = -1074
  result : (r = 0 ∧ u = .zero s) ∨
    ∃ m e h, u = .finite s m e h ∧ Canonical m e ∧ units m e = units r t

theorem le_roundHalfEven (num den : ℕ) :
    num / den ≤ Decimal.roundHalfEven num den ∧ Decimal.roundHalfEven num den ≤ num / den + 1 := by
  simp only [Decimal.roundHalfEven]
  split
  · omega
  · split
    · omega
    · split <;> omega

theorem roundWithAccuracy_of_zero {s : Sign} {n : ℕ} {e t : ℤ} {acc : Accuracy}
    {em : ExtendedMantissa}
    (h : shiftToTargetExponent Format.binary64 n e acc = (em, t)) (hzero : em.roundedMantissa = 0) :
    roundWithAccuracy Format.binary64 s n e acc = .zero s := by
  have hsecond : (shiftToTargetExponent Format.binary64 0 t .exact).1.mantissa = 0 := by
    rw [shiftToTargetExponent, shiftToExponent, mantissa_shift]
    exact Nat.zero_div _
  simp only [roundWithAccuracy, h, hzero]
  exact dif_pos hsecond

theorem exists_rounded (s : Sign) {num den : ℕ} {e : ℤ} (hden : 0 < den)
    (hbits : 2 ^ 52 ≤ num / den ∨ e ≤ -1074) :
    ∃ f r t, Rounded s (num / den * 2 ^ e)
      (roundWithAccuracy Format.binary64 s (num / den) e (accuracyOfFraction (num % den) den))
      f r t := by
  obtain ⟨em, k, hfirst, hround, hlt, hleast, hnormal⟩ := shift_fraction hden hbits
  have hden' : 0 < den * 2 ^ k := by positivity
  have hpos : (0 : ℚ) < (den * 2 ^ k : ℕ) := Nat.cast_pos.2 hden'
  have hscale : (num / den : ℚ) * 2 ^ e = num / ((den * 2 ^ k : ℕ) : ℚ) * 2 ^ (e + k) := by
    rw [zpow_add₀ two_ne_zero, zpow_natCast]
    push_cast
    field_simp
  obtain ⟨hlow, hhigh⟩ := le_roundHalfEven num (den * 2 ^ k)
  rw [← hround] at hlow hhigh
  refine ⟨num / (den * 2 ^ k), em.roundedMantissa, e + k, ?_, ?_, ⟨hlow, hhigh⟩, hlt, hleast,
    hnormal, ?_⟩
  · rw [hscale]
    refine mul_le_mul_of_nonneg_right ?_ (by positivity)
    rw [le_div_iff₀ hpos]
    exact_mod_cast Nat.div_mul_le_self num (den * 2 ^ k)
  · rw [hscale]
    refine mul_lt_mul_of_pos_right ?_ (by positivity)
    rw [div_lt_iff₀ hpos]
    exact_mod_cast Nat.lt_mul_of_div_lt (Nat.lt_succ_self _) hden'
  · rcases Nat.eq_zero_or_pos em.roundedMantissa with hzero | hr
    · exact .inl ⟨hzero, roundWithAccuracy_of_zero hfirst hzero⟩
    · obtain ⟨m, e'', hsecond, hcanon, hsame⟩ :=
        carry hr (by omega) hleast (hnormal.imp_left hlow.trans')
      have hm : m ≠ 0 := by
        rintro rfl
        have hunits := units_pos hr (e + k)
        rw [← hsame, units, zero_mul] at hunits
        exact absurd hunits (lt_irrefl 0)
      refine .inr ⟨m, e'', Nat.pos_of_ne_zero hm, ?_, hcanon, hsame⟩
      simp only [roundWithAccuracy, hfirst, hsecond]
      rw [dif_neg hm]

theorem exists_rounded_div {m₁ m₂ : ℕ} {e₁ e₂ : ℤ} (h₁ : 0 < m₁) (h₂ : 0 < m₂) (s₁ s₂ : Sign) :
    ∃ f r t, Rounded (s₁ / s₂) (m₁ * 2 ^ e₁ / (m₂ * 2 ^ e₂))
      (UnpackedFloat.div Format.binary64 (.finite s₁ m₁ e₁ h₁) (.finite s₂ m₂ e₂ h₂)) f r t := by
  obtain ⟨num, den, t, hden, hbits, hvalue, hdiv⟩ := exists_div_eq h₁ h₂ s₁ s₂
  rw [hdiv, ← hvalue]
  exact exists_rounded _ hden hbits

theorem exists_rounded_exact (s : Sign) {n : ℕ} {e : ℤ} (hbits : 2 ^ 52 ≤ n ∨ e ≤ -1074) :
    ∃ f r t, Rounded s (n * 2 ^ e) (roundWithAccuracy Format.binary64 s n e .exact) f r t := by
  have h := @exists_rounded s n 1 e one_pos (by rwa [Nat.div_one])
  rwa [Nat.div_one, Nat.mod_one, Nat.cast_one, div_one] at h

/-! ## Out of range and well inside -/

section

variable {s : Sign} {v : ℚ} {u : UnpackedFloat} {f r : ℕ} {t : ℤ}

/-- What would need a larger exponent than there is becomes an infinity. -/
theorem Rounded.store_eq_infinity (h : Rounded s v u f r t) (hv : 2 ^ (1024 : ℤ) ≤ v) :
    store u = .infinity s := by
  have ht : 971 < t := by
    have hlt : (f + 1 : ℚ) ≤ 2 ^ (53 : ℤ) := by exact_mod_cast h.lt
    have hpow : (2 : ℚ) ^ (1024 : ℤ) < 2 ^ (53 + t) := by
      calc (2 : ℚ) ^ (1024 : ℤ) ≤ v := hv
        _ < (f + 1) * 2 ^ t := h.high
        _ ≤ 2 ^ (53 : ℤ) * 2 ^ t := mul_le_mul_of_nonneg_right hlt (by positivity)
        _ = 2 ^ (53 + t) := (zpow_add₀ two_ne_zero ..).symm
    have := (zpow_lt_zpow_iff_right₀ one_lt_two).1 hpow
    omega
  have hf : 2 ^ 52 ≤ f := h.normal.resolve_right (by omega)
  obtain ⟨hzero, -⟩ | ⟨m, e, hm, rfl, hc, hunits⟩ := h.result
  · have := h.floor.1
    omega
  · refine unpack_pack_of_gt s hm (lt_of_not_ge fun he => ?_)
    have hlt := units_lt hc he
    rw [hunits] at hlt
    refine hlt.not_ge ?_
    calc overflow ≤ 2 ^ (52 + (t + 1074).toNat) := overflow_le_two_pow (by omega)
      _ = 2 ^ 52 * 2 ^ (t + 1074).toNat := pow_add ..
      _ ≤ r * 2 ^ (t + 1074).toNat := Nat.mul_le_mul_right _ (hf.trans h.floor.1)

theorem Rounded.stored (h : Rounded s v u f r t) (hv : v < 2 ^ (1023 : ℤ)) : Stored u := by
  obtain ⟨-, rfl⟩ | ⟨m, e, hm, rfl, hc, hunits⟩ := h.result
  · exact trivial
  · refine ⟨hc, le_of_not_gt fun he => ?_⟩
    have hle := le_units hc he
    rw [hunits] at hle
    have ht : t < 971 := by
      rcases h.normal with hf | hleast
      · have hf : (2 ^ (52 : ℤ) : ℚ) ≤ f := by exact_mod_cast hf
        have hpow : (2 : ℚ) ^ (52 + t) < 2 ^ (1023 : ℤ) := by
          calc (2 : ℚ) ^ (52 + t) = 2 ^ (52 : ℤ) * 2 ^ t := zpow_add₀ two_ne_zero ..
            _ ≤ f * 2 ^ t := mul_le_mul_of_nonneg_right hf (by positivity)
            _ ≤ v := h.low
            _ < 2 ^ (1023 : ℤ) := hv
        have := (zpow_lt_zpow_iff_right₀ one_lt_two).1 hpow
        omega
      · omega
    refine hle.not_gt ?_
    have hr : r ≤ 2 ^ 53 := h.floor.2.trans h.lt
    calc r * 2 ^ (t + 1074).toNat ≤ 2 ^ 53 * 2 ^ (t + 1074).toNat := Nat.mul_le_mul_right _ hr
      _ = 2 ^ (53 + (t + 1074).toNat) := (pow_add ..).symm
      _ < 2 ^ (53 + (t + 1074).toNat + 1) := Nat.pow_lt_pow_right one_lt_two (Nat.lt_succ_self _)
      _ ≤ overflow := two_pow_le_overflow (by omega)

/-- A value of at least 1 changes by less than a factor of 2. -/
theorem Rounded.within (h : Rounded s v u f r t) (hv : 1 ≤ v) :
    ∃ m e hm, u = .finite s m e hm ∧ v / 2 ≤ m * 2 ^ e ∧ (m * 2 ^ e : ℚ) ≤ 2 * v := by
  have hpos : (0 : ℚ) < 2 ^ t := by positivity
  have hf : 1 ≤ f := by
    rcases h.normal with hf | rfl
    · exact le_trans (by norm_num) hf
    · by_contra hzero
      obtain rfl : f = 0 := by omega
      have hhigh := h.high
      have hone : (2 : ℚ) ^ (-1074 : ℤ) ≤ 1 := zpow_le_one_of_nonpos₀ one_le_two (by decide)
      rw [Nat.cast_zero, zero_add, one_mul] at hhigh
      linarith
  have hfq : (1 : ℚ) ≤ f := by exact_mod_cast hf
  obtain ⟨hzero, -⟩ | ⟨m, e, hm, rfl, hc, hunits⟩ := h.result
  · have := h.floor.1
    omega
  · have hvalue : (m * 2 ^ e : ℚ) = r * 2 ^ t := by
      have hcast : (units m e : ℚ) = units r t := by exact_mod_cast hunits
      rw [Decimal.units_eq hc.least, Decimal.units_eq h.least] at hcast
      exact mul_right_cancel₀ (by positivity) hcast
    obtain ⟨hlow, hhigh⟩ := h.floor
    have hlow : (f : ℚ) ≤ r := by exact_mod_cast hlow
    have hhigh : (r : ℚ) ≤ f + 1 := by exact_mod_cast hhigh
    refine ⟨m, e, hm, rfl, ?_, ?_⟩
    · rw [hvalue]
      nlinarith [h.high]
    · rw [hvalue]
      nlinarith [h.low]

end

/-! ## Quotients of doubles -/

section

variable {x y : Float} {s₁ s₂ : Sign} {m₁ m₂ : ℕ} {e₁ e₂ : ℤ} {h₁ : 0 < m₁} {h₂ : 0 < m₂}

theorem isFinite_of_stored {u : UnpackedFloat} (hu : Stored u) (hfinite : u.isFinite = true)
    (hx : unpacked x = store u) : Scalar.isFinite x = true := by
  change (unpacked x).isFinite = true
  rw [hx, store, unpack_pack hu, hfinite]

theorem Rounded.isFinite {s : Sign} {v : ℚ} {u : UnpackedFloat} {f r : ℕ} {t : ℤ}
    (h : Rounded s v u f r t) : u.isFinite = true := by
  obtain ⟨-, rfl⟩ | ⟨m, e, hm, rfl, -⟩ := h.result <;> rfl

theorem isFinite_div (hx : unpacked x = .finite s₁ m₁ e₁ h₁)
    (hy : unpacked y = .finite s₂ m₂ e₂ h₂)
    (h : (m₁ * 2 ^ e₁ / (m₂ * 2 ^ e₂) : ℚ) < 2 ^ (1023 : ℤ)) : Scalar.isFinite (x / y) = true := by
  obtain ⟨f, r, t, hrounded⟩ := exists_rounded_div h₁ h₂ s₁ s₂
  refine isFinite_of_stored (hrounded.stored h) hrounded.isFinite ?_
  rw [← hx, ← hy]
  rfl

theorem isFinite_div_of_overflow (hx : unpacked x = .finite s₁ m₁ e₁ h₁)
    (hy : unpacked y = .finite s₂ m₂ e₂ h₂)
    (h : 2 ^ (1024 : ℤ) ≤ (m₁ * 2 ^ e₁ / (m₂ * 2 ^ e₂) : ℚ)) : Scalar.isFinite (x / y) = false := by
  obtain ⟨f, r, t, hrounded⟩ := exists_rounded_div h₁ h₂ s₁ s₂
  have hdiv : unpacked (x / y) = .infinity (s₁ / s₂) := by
    rw [← hrounded.store_eq_infinity h, ← hx, ← hy]
    rfl
  change (unpacked (x / y)).isFinite = false
  rw [hdiv]
  rfl

end

/-! ## Fractions and counts -/

theorem unpacked_one : unpacked (Scalar.nat 1) = .finite .positive (2 ^ 52) (-52) (by decide) := rfl

/-- The doubles above zero and below one. -/
theorem exists_unpacked_of_fraction {x : Float} (hpos : Scalar.nat 0 < x) (hlt : x < Scalar.nat 1) :
    ∃ m e h, unpacked x = .finite .positive m e h ∧ m < 2 ^ 53 ∧ e ≤ -53 := by
  have hn := Saturating.isNaN_of_lt hlt
  rw [Reading.lt_iff Reading.isNaN_zero hn, Reading.value_zero] at hpos
  rw [Reading.lt_iff hn rfl] at hlt
  change 0 < place (unpacked x) at hpos
  change place (unpacked x) < place (unpacked (Scalar.nat 1)) at hlt
  have hstored := stored_unpacked x
  rw [unpacked_one] at hlt
  cases hu : unpacked x with
  | notANumber => exact absurd hu (isNaN_eq_false_iff.1 hn)
  | infinity s =>
    rw [hu] at hpos hlt
    cases s with
    | negative => exact absurd hpos (not_lt.2 bot_le)
    | positive => exact absurd hlt (not_lt.2 le_top)
  | zero s =>
    rw [hu] at hpos
    exact absurd hpos (lt_irrefl 0)
  | finite s m e h =>
    rw [hu] at hpos hlt hstored
    cases s with
    | negative => exact absurd hpos place_lt_zero.le.not_gt
    | positive =>
      refine ⟨m, e, h, rfl, hstored.1.lt, ?_⟩
      have hunits : units m e < units (2 ^ 52) (-52) :=
        Int.ofNat_lt.1 (point_strictMono.lt_iff_lt.1 hlt)
      by_contra he
      have hnormal := hstored.1.normal.resolve_right (by omega)
      have hexponent : (-52 + 1074 : ℤ).toNat ≤ (e + 1074).toNat := by omega
      refine hunits.not_ge ?_
      unfold units
      gcongr
      exact one_le_two

/-- A double lies in its own interval. -/
theorem near_self (m : ℕ) (e : ℤ) : Near m e (m * 2 ^ e) := by
  have hscale : (m * 2 ^ e : ℚ) = 4 * m * 2 ^ (e - 2) := by
    rw [zpow_sub₀ two_ne_zero]
    ring
  have hpos : (0 : ℚ) < 2 ^ (e - 2) := by positivity
  have hreach : (1 : ℚ) ≤ reach m e := by
    unfold reach
    split <;> norm_num
  have hlow : (4 * m - reach m e : ℚ) * 2 ^ (e - 2) < 4 * m * 2 ^ (e - 2) :=
    mul_lt_mul_of_pos_right (by linarith) hpos
  have hhigh : (4 * m : ℚ) * 2 ^ (e - 2) < (4 * m + 2) * 2 ^ (e - 2) :=
    mul_lt_mul_of_pos_right (by linarith) hpos
  rw [hscale]
  exact ⟨hlow.le, hhigh.le, fun _ => ⟨hlow, hhigh⟩⟩

theorem mul_finite (s₁ s₂ : Sign) {m₁ m₂ : ℕ} {e₁ e₂ : ℤ} (h₁ : 0 < m₁) (h₂ : 0 < m₂) :
    UnpackedFloat.mul Format.binary64 (.finite s₁ m₁ e₁ h₁) (.finite s₂ m₂ e₂ h₂) =
      roundWithAccuracy Format.binary64 (s₁ * s₂) (m₁ * m₂) (e₁ + e₂) .exact := rfl

theorem ofScientific_natural {n : ℕ} (hn : 0 < n) :
    UnpackedFloat.ofScientific Format.binary64 n 0 =
      roundWithAccuracy Format.binary64 .positive (n * 2 ^ 53) (-53) .exact := by
  have hbits : (0 : ℤ) ≤ 2 ^ Format.binary64.exponentBits := by positivity
  have hsmall : -((2 : ℤ) ^ Format.binary64.exponentBits + n.log2) ≤ 0 :=
    neg_nonpos.2 (by positivity)
  have hmantissa : n <<< Format.binary64.mantissaBits * 10 ^ (0 : ℤ).toNat = n * 2 ^ 53 := by
    rw [Nat.shiftLeft_eq, Int.toNat_zero, pow_zero, mul_one]
    exact congrArg (n * 2 ^ ·) (show Format.binary64.mantissaBits = 53 from rfl)
  have hexponent : -(Format.binary64.mantissaBits : ℤ) + 0 = -53 := rfl
  rw [UnpackedFloat.ofScientific, dif_neg hn.ne', if_neg hbits.not_gt, if_neg hsmall.not_gt,
    if_pos le_rfl, mul_finite, hmantissa, hexponent]
  exact congrArg (roundWithAccuracy Format.binary64 · (n * 2 ^ 53) (-53) .exact)
    (show Sign.positive * Sign.positive = .positive from rfl)

/-- A count becomes a double no farther from it than a factor of 2. -/
theorem exists_unpacked_ofNat {n : ℕ} (hn : 0 < n) (hlt : n < 2 ^ 64) :
    ∃ m e h, unpacked (Scalar.nat n) = .finite .positive m e h ∧ (n / 2 : ℚ) ≤ m * 2 ^ e ∧
      (m * 2 ^ e : ℚ) ≤ 2 * n := by
  have hone : (1 : ℚ) ≤ n := by exact_mod_cast hn
  by_cases hshort : n < 2 ^ 53
  · obtain ⟨m, e, hm, hunpacked, -, hvalue⟩ := Decimal.exact_toFloat hn hshort
    refine ⟨m, e, hm, ?_, by linarith, by linarith⟩
    refine Decimal.unpacked_ofScientific hm (hunpacked ▸ stored_unpacked _) hn ?_
    simpa [hvalue] using near_self m e
  · obtain ⟨f, r, t, hrounded⟩ := exists_rounded_exact .positive (n := n * 2 ^ 53) (e := -53)
      (.inl (le_trans (by norm_num) (Nat.mul_le_mul_right (2 ^ 53) hn)))
    have hvalue : ((n * 2 ^ 53 : ℕ) * 2 ^ (-53 : ℤ) : ℚ) = n := by
      push_cast
      rw [mul_assoc]
      norm_num
    rw [hvalue] at hrounded
    have hrange : (n : ℚ) < 2 ^ (1023 : ℤ) := by
      have hlt : (n : ℚ) < 2 ^ (64 : ℤ) := by exact_mod_cast hlt
      exact hlt.trans_le (zpow_le_zpow_right₀ one_le_two (by decide))
    have hstored := hrounded.stored hrange
    obtain ⟨m, e, hm, hu, hlow, hhigh⟩ := hrounded.within hone
    refine ⟨m, e, hm, ?_, hlow, hhigh⟩
    have hnat : (Scalar.nat n : Float) =
        .ofModel (.pack (UnpackedFloat.ofScientific .binary64 n 0)) := by
      change Float.ofScientific n false 0 = _
      exact dif_neg fun h => hshort h.1
    rw [hnat, ofScientific_natural hn, Decimal.unpacked_ofModel hstored, hu]

/-- A quotient of counts is finite. -/
theorem isFinite_nat_div {k n : ℕ} (hk : k < 2 ^ 64) (hn : 0 < n) (hlt : n < 2 ^ 64) :
    Scalar.isFinite (Scalar.nat k / Scalar.nat n : Float) = true := by
  obtain ⟨m₂, e₂, h₂, hy, hlow, -⟩ := exists_unpacked_ofNat hn hlt
  rcases Nat.eq_zero_or_pos k with rfl | hpos
  · refine isFinite_of_stored (u := .zero .positive) trivial rfl ?_
    change store (.div .binary64 (unpacked _) (unpacked _)) = _
    rw [unpacked_zero, hy]
    rfl
  · obtain ⟨m₁, e₁, h₁, hx, -, hhigh⟩ := exists_unpacked_ofNat hpos hk
    refine isFinite_div hx hy ?_
    have hone : (1 : ℚ) ≤ n := by exact_mod_cast hn
    have hk : (k : ℚ) < 2 ^ 64 := by exact_mod_cast hk
    rw [div_lt_iff₀ (by linarith)]
    calc (m₁ * 2 ^ e₁ : ℚ) ≤ 2 * k := hhigh
      _ < 2 ^ (66 : ℤ) * (1 / 2) := by norm_num; linarith
      _ ≤ 2 ^ (1023 : ℤ) * (m₂ * 2 ^ e₂) := by
          gcongr
          · exact one_le_two
          · decide
          · linarith

end Backtest.Double
