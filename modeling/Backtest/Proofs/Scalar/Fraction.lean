import Backtest.Decimal.Fixed
import Backtest.Decimal.Shortest
import Backtest.Proofs.Scalar.Place

/-!
# Rounding of fractions

The two residual bits of an extended significand are enough to round a fraction: it becomes the
integer nearest to it, even at a tie. Every fraction in the interval around a double, half way to
its neighbours, therefore rounds to that double.
-/

namespace Backtest.Double

open Float.Model
open Float.Model.UnpackedFloat

/-! ## Residual bits -/

/-- The extended significand that stands for a fraction. -/
structure Represents (em : ExtendedMantissa) (num den : ℕ) : Prop where
  mantissa : em.mantissa = num / den
  roundBit : em.roundBit = decide (den ≤ 2 * (num % den))
  stickyBit : em.stickyBit = decide (num % den ≠ 0 ∧ 2 * (num % den) ≠ den)

section

variable {em : ExtendedMantissa} {num den : ℕ}

theorem represents_fraction (hden : 0 < den) :
    Represents (.ofMantissaAndAccuracy (num / den) (accuracyOfFraction (num % den) den))
      num den := by
  unfold accuracyOfFraction
  split
  · rename_i h
    refine ⟨rfl, ?_, ?_⟩
    · simp [ExtendedMantissa.ofMantissaAndAccuracy, h, hden.ne']
    · simp [ExtendedMantissa.ofMantissaAndAccuracy, h]
  · rename_i h
    rcases lt_trichotomy (2 * (num % den)) den with hlt | heq | hgt
    · rw [Nat.compare_eq_lt.2 hlt]
      exact ⟨rfl, by simp [ExtendedMantissa.ofMantissaAndAccuracy, hlt],
        by simp [ExtendedMantissa.ofMantissaAndAccuracy, h, hlt.ne]⟩
    · rw [Nat.compare_eq_eq.2 heq]
      exact ⟨rfl, by simp [ExtendedMantissa.ofMantissaAndAccuracy, heq],
        by simp [ExtendedMantissa.ofMantissaAndAccuracy, heq]⟩
    · rw [Nat.compare_eq_gt.2 hgt]
      exact ⟨rfl, by simp [ExtendedMantissa.ofMantissaAndAccuracy, hgt.le],
        by simp [ExtendedMantissa.ofMantissaAndAccuracy, h, hgt.ne']⟩

theorem Represents.shiftRightOne (hden : 0 < den) (h : Represents em num den) :
    Represents em.shiftRightOne num (den * 2) := by
  have hmod : num % (den * 2) = num % den + den * (num / den % 2) := Nat.mod_mul
  have hlt := Nat.mod_lt num hden
  refine ⟨?_, ?_, ?_⟩
  · rw [ExtendedMantissa.shiftRightOne, h.mantissa, Nat.div_div_eq_div_mul]
  · rw [ExtendedMantissa.shiftRightOne, h.mantissa, hmod]
    rcases Nat.mod_two_eq_zero_or_one (num / den) with hparity | hparity
    · simp [hparity]
      omega
    · simp [hparity]
      omega
  · rw [ExtendedMantissa.shiftRightOne, h.roundBit, h.stickyBit, hmod]
    rcases Nat.mod_two_eq_zero_or_one (num / den) with hparity | hparity
    · rw [hparity, mul_zero, add_zero, Bool.eq_iff_iff]
      simp only [Bool.or_eq_true, decide_eq_true_eq]
      omega
    · rw [hparity, mul_one, Bool.eq_iff_iff]
      simp only [Bool.or_eq_true, decide_eq_true_eq]
      omega

theorem Represents.shiftRight (hden : 0 < den) (h : Represents em num den) (k : ℕ) :
    Represents (em >>> k) num (den * 2 ^ k) := by
  induction k with
  | zero => rwa [pow_zero, mul_one]
  | succ k ih =>
    rw [shift_succ, pow_succ, ← mul_assoc]
    exact ih.shiftRightOne (by positivity)

theorem Represents.roundedMantissa (hden : 0 < den) (h : Represents em num den) :
    em.roundedMantissa = Decimal.roundHalfEven num den := by
  have hem : em = ⟨num / den, decide (den ≤ 2 * (num % den)),
      decide (num % den ≠ 0 ∧ 2 * (num % den) ≠ den)⟩ := by
    rw [← h.mantissa, ← h.roundBit, ← h.stickyBit]
  have hparity := Nat.mod_two_eq_zero_or_one (num / den)
  rw [hem, Decimal.roundHalfEven]
  rcases lt_trichotomy (2 * (num % den)) den with hlt | heq | hgt
  · rw [if_pos hlt, decide_eq_false hlt.not_ge]
    by_cases hzero : num % den = 0
    · rw [decide_eq_false fun hand => hand.1 hzero]
      rfl
    · rw [decide_eq_true ⟨hzero, hlt.ne⟩]
      rfl
  · rw [if_neg heq.not_lt, if_neg heq.not_gt, decide_eq_true heq.ge,
      decide_eq_false fun hand => hand.2 heq]
    change num / den + num / den % 2 = _
    split <;> omega
  · rw [if_neg hgt.not_gt, if_pos hgt, decide_eq_true hgt.le,
      decide_eq_true ⟨by omega, hgt.ne'⟩]
    rfl

end

/-- The nearest integer, by twice its distance from the fraction. -/
theorem roundHalfEven_of_twice {s num den : ℕ} (hden : 0 < den)
    (hlow : 2 * (s * den) ≤ 2 * num + den) (hhigh : 2 * num ≤ 2 * (s * den) + den)
    (hodd : s % 2 = 1 → 2 * (s * den) < 2 * num + den ∧ 2 * num < 2 * (s * den) + den) :
    Decimal.roundHalfEven num den = s := by
  have hsplit := Nat.div_add_mod' num den
  have hlt := Nat.mod_lt num hden
  have hle : num / den ≤ s := by
    by_contra hnot
    have hmul := Nat.mul_le_mul_right den (show s + 1 ≤ num / den by omega)
    rw [add_mul, one_mul] at hmul
    omega
  have hge : s ≤ num / den + 1 := by
    by_contra hnot
    have hmul := Nat.mul_le_mul_right den (show num / den + 2 ≤ s by omega)
    rw [add_mul] at hmul
    omega
  have hparity := Nat.mod_two_eq_zero_or_one s
  rw [Decimal.roundHalfEven]
  rcases Nat.le_iff_lt_or_eq.1 hge with hsame | rfl
  · obtain rfl : s = num / den := by omega
    split
    · rfl
    · split
      · omega
      · split <;> omega
  · rw [add_mul, one_mul] at hlow hhigh hodd
    split
    · omega
    · split
      · rfl
      · split <;> omega

theorem roundHalfEven_eq {s num den : ℕ} (hden : 0 < den) (hlow : (s : ℚ) - 1 / 2 ≤ num / den)
    (hhigh : (num / den : ℚ) ≤ s + 1 / 2)
    (hodd : s % 2 = 1 → (s : ℚ) - 1 / 2 < num / den ∧ (num / den : ℚ) < s + 1 / 2) :
    Decimal.roundHalfEven num den = s := by
  have hpos : (0 : ℚ) < den := Nat.cast_pos.2 hden
  rw [le_div_iff₀ hpos] at hlow
  rw [div_le_iff₀ hpos] at hhigh
  rw [lt_div_iff₀ hpos, div_lt_iff₀ hpos] at hodd
  refine roundHalfEven_of_twice hden ?_ ?_ fun hs => ?_
  · have h : (2 * (s * den) : ℚ) ≤ 2 * num + den := by linarith
    exact_mod_cast h
  · have h : (2 * num : ℚ) ≤ 2 * (s * den) + den := by linarith
    exact_mod_cast h
  · have h : (2 * (s * den) : ℚ) < 2 * num + den ∧ (2 * num : ℚ) < 2 * (s * den) + den :=
      ⟨by linarith [(hodd hs).1], by linarith [(hodd hs).2]⟩
    exact_mod_cast h

/-! ## The interval of a double -/

/-- How far the interval of `m * 2 ^ e` reaches below it, in quarters of its last place. The
neighbour below the smallest significand of a binade is half as far. -/
def reach (m : ℕ) (e : ℤ) : ℕ :=
  if m = Decimal.leastNormal ∧ Decimal.leastExponent < e then 1 else 2

/-- What lies half way to the neighbours of `m * 2 ^ e` or nearer, the ends only for an even
significand. -/
structure Near (m : ℕ) (e : ℤ) (v : ℚ) : Prop where
  low : (4 * m - reach m e : ℚ) * 2 ^ (e - 2) ≤ v
  high : v ≤ (4 * m + 2 : ℚ) * 2 ^ (e - 2)
  strict : m % 2 = 1 → (4 * m - reach m e : ℚ) * 2 ^ (e - 2) < v ∧
    v < (4 * m + 2 : ℚ) * 2 ^ (e - 2)

theorem reach_le (m : ℕ) (e : ℤ) : reach m e ≤ 2 := by
  unfold reach
  split <;> omega

theorem canonical_unique {m₁ m₂ : ℕ} {e₁ e₂ : ℤ} (h₁ : Canonical m₁ e₁) (h₂ : Canonical m₂ e₂)
    (h : units m₁ e₁ = units m₂ e₂) : m₁ = m₂ ∧ e₁ = e₂ := by
  rcases lt_trichotomy e₁ e₂ with hlt | rfl | hgt
  · exact absurd h (units_lt_units h₁ h₂ hlt).ne
  · exact ⟨Nat.eq_of_mul_eq_mul_right (by positivity) h, rfl⟩
  · exact absurd h (units_lt_units h₂ h₁ hgt).ne'

/-- The first shift of a rounding leaves a fraction of a number of the target exponent. -/
theorem shift_fraction {num den : ℕ} {e : ℤ} (hden : 0 < den)
    (hbits : 2 ^ 52 ≤ num / den ∨ e ≤ -1074) :
    ∃ em, ∃ k : ℕ,
      shiftToTargetExponent Format.binary64 (num / den) e (accuracyOfFraction (num % den) den) =
        (em, e + k) ∧
      em.roundedMantissa = Decimal.roundHalfEven num (den * 2 ^ k) ∧
      num / (den * 2 ^ k) < 2 ^ 53 ∧ -1074 ≤ e + k ∧
      (2 ^ 52 ≤ num / (den * 2 ^ k) ∨ e + k = -1074) := by
  obtain ⟨q, hq⟩ : ∃ q, num / den = q := ⟨_, rfl⟩
  obtain ⟨t, ht⟩ : ∃ t, Format.binary64.targetExponent (totalExponent q e) = t := ⟨_, rfl⟩
  have htarget : t = max ((q.log2 : ℤ) + 1 + e - 53) (-1074) := ht.symm
  have hlog : 2 ^ 52 ≤ q → 52 ≤ q.log2 := fun h => (Nat.le_log2 (by omega)).2 h
  rw [hq] at hbits
  have hk : ((t - e).toNat : ℤ) = t - e := Int.toNat_of_nonneg (by omega)
  refine ⟨_, (t - e).toNat, ?_,
    ((represents_fraction hden).shiftRight hden _).roundedMantissa (by positivity), ?_, by omega,
    ?_⟩
  · rw [hq, ← ht]
    rfl
  · rw [← Nat.div_div_eq_div_mul, hq, Nat.div_lt_iff_lt_mul (by positivity), ← pow_add]
    calc q < 2 ^ (q.log2 + 1) := Nat.lt_log2_self
      _ ≤ 2 ^ (53 + (t - e).toNat) := Nat.pow_le_pow_right two_pos (by omega)
  · rw [← Nat.div_div_eq_div_mul, hq]
    rcases eq_or_ne t (-1074) with hleast | hne
    · exact .inr (by omega)
    · refine .inl ?_
      have hpos : q ≠ 0 := by
        rintro rfl
        have hzero : Nat.log2 0 = 0 := rfl
        omega
      rw [Nat.le_div_iff_mul_le (by positivity), ← pow_add]
      calc 2 ^ (52 + (t - e).toNat) = 2 ^ q.log2 := by congr 1; omega
        _ ≤ q := Nat.log2_self_le hpos

theorem near_quarters {m : ℕ} {e : ℤ} {q : ℚ} (h : Near m e (q * 2 ^ (e - 2))) :
    (4 * m - reach m e : ℚ) ≤ q ∧ q ≤ 4 * m + 2 ∧
      (m % 2 = 1 → (4 * m - reach m e : ℚ) < q ∧ q < 4 * m + 2) := by
  have hpos : (0 : ℚ) < 2 ^ (e - 2) := by positivity
  refine ⟨le_of_mul_le_mul_right h.low hpos, le_of_mul_le_mul_right h.high hpos, fun hm => ?_⟩
  exact ⟨lt_of_mul_lt_mul_right (h.strict hm).1 hpos.le,
    lt_of_mul_lt_mul_right (h.strict hm).2 hpos.le⟩

/-- Where the target exponent is that of the double, the fraction rounds to its significand. -/
theorem roundHalfEven_of_near {num den m : ℕ} {e : ℤ} (hden : 0 < den)
    (h : Near m e (num / den * 2 ^ e)) : Decimal.roundHalfEven num den = m := by
  have hscale : (num / den : ℚ) * 2 ^ e = 4 * (num / den) * 2 ^ (e - 2) := by
    rw [zpow_sub₀ two_ne_zero]
    ring
  rw [hscale] at h
  obtain ⟨hlow, hhigh, hstrict⟩ := near_quarters h
  have hreach : (reach m e : ℚ) ≤ 2 := by exact_mod_cast reach_le m e
  refine roundHalfEven_eq hden (by linarith) (by linarith) fun hodd => ?_
  exact ⟨by linarith [(hstrict hodd).1], by linarith [(hstrict hodd).2]⟩

/-- A fraction of 53 bits whose exponent is lower than that of the double is just below the
smallest significand of its binade, and rounds to it. -/
theorem roundHalfEven_of_near_lt {num den m : ℕ} {e t : ℤ} (hden : 0 < den) (hc : Canonical m e)
    (hlt : num / den < 2 ^ 53) (ht : -1074 ≤ t) (hte : t < e)
    (h : Near m e (num / den * 2 ^ t)) :
    Decimal.roundHalfEven num den = 2 ^ 53 ∧ m = 2 ^ 52 ∧ t = e - 1 := by
  obtain ⟨j, rfl⟩ : ∃ j : ℕ, t = e - 1 - j := ⟨(e - 1 - t).toNat, by omega⟩
  have hpos : (0 : ℚ) < den := Nat.cast_pos.2 hden
  have hsmall : (num / den : ℚ) < 2 ^ 53 := by
    rw [div_lt_iff₀ hpos]
    exact_mod_cast (Nat.div_lt_iff_lt_mul hden).1 hlt
  have hscale : (num / den : ℚ) * 2 ^ (e - 1 - j) = 2 * (num / den) / 2 ^ j * 2 ^ (e - 2) := by
    rw [show e - 1 - j = e - 2 + 1 - j by ring, zpow_sub₀ two_ne_zero, zpow_add_one₀ two_ne_zero,
      zpow_natCast]
    ring
  rw [hscale] at h
  obtain ⟨hlow, -, -⟩ := near_quarters h
  have hnormal : 2 ^ 52 ≤ m := hc.normal.resolve_right (by omega)
  have hle : 2 * (num / den : ℚ) / 2 ^ j ≤ 2 * (num / den) :=
    div_le_self (by positivity) (one_le_pow₀ one_le_two)
  have hreach : (reach m e : ℚ) ≤ 2 := by exact_mod_cast reach_le m e
  have hm : m = 2 ^ 52 := by
    refine le_antisymm ?_ hnormal
    by_contra hgt
    have hgt : (2 ^ 52 + 1 : ℚ) ≤ m := by exact_mod_cast not_le.1 hgt
    linarith
  have hone : reach m e = 1 := if_pos ⟨hm, by simp only [Decimal.leastExponent]; omega⟩
  rw [hone, hm] at hlow
  push_cast at hlow
  have hj : j = 0 := by
    by_contra hne
    have hhalf : 2 * (num / den : ℚ) / 2 ^ j ≤ 2 * (num / den) / 2 ^ 1 :=
      div_le_div_of_nonneg_left (by positivity) (by positivity)
        (pow_le_pow_right₀ one_le_two (Nat.one_le_iff_ne_zero.2 hne))
    linarith
  subst hj
  refine ⟨roundHalfEven_eq hden ?_ ?_ fun hodd => absurd hodd (by decide), hm, by simp⟩
  · push_cast
    linarith
  · push_cast
    linarith

/-- A fraction of 53 bits in the interval of a double has no larger exponent. -/
theorem le_of_near {num den m : ℕ} {e t : ℤ} (hden : 0 < den) (hc : Canonical m e)
    (hge : 2 ^ 52 ≤ num / den) (h : Near m e (num / den * 2 ^ t)) : t ≤ e := by
  by_contra hlt
  have hlarge : (2 ^ 52 : ℚ) ≤ num / den := by
    rw [le_div_iff₀ (Nat.cast_pos.2 hden)]
    exact_mod_cast (Nat.le_div_iff_mul_le hden).1 hge
  have hm : (m + 1 : ℚ) ≤ 2 ^ 53 := by exact_mod_cast hc.lt
  have hpos : (0 : ℚ) < 2 ^ (e - 2) := by positivity
  have hscale : (2 : ℚ) ^ (e + 1) = 8 * 2 ^ (e - 2) := by
    rw [show e + 1 = 3 + (e - 2) by ring, zpow_add₀ two_ne_zero]
    norm_num
  have hge : 2 ^ 52 * (8 * 2 ^ (e - 2)) ≤ (num / den * 2 ^ t : ℚ) := by
    rw [← hscale]
    gcongr
    · exact one_le_two
    · omega
  nlinarith [h.high]

/-- A fraction in the interval of a double is rounded to it. -/
theorem roundWithAccuracy_of_near (s : Sign) {num den m : ℕ} {e e' : ℤ} (hden : 0 < den)
    (hbits : 2 ^ 52 ≤ num / den ∨ e' ≤ -1074) (hm : 0 < m) (hc : Canonical m e)
    (h : Near m e (num / den * 2 ^ e')) :
    roundWithAccuracy Format.binary64 s (num / den) e' (accuracyOfFraction (num % den) den) =
      .finite s m e hm := by
  obtain ⟨em, k, hfirst, hround, hlt, hleast, hnormal⟩ := shift_fraction hden hbits
  have hden' : 0 < den * 2 ^ k := by positivity
  have hscale : (num / den : ℚ) * 2 ^ e' = num / ((den * 2 ^ k : ℕ) : ℚ) * 2 ^ (e' + k) := by
    rw [zpow_add₀ two_ne_zero, zpow_natCast]
    push_cast
    field_simp
  rw [hscale] at h
  -- the shifted exponent is that of the double, or one less just below a binade
  have hrounded : 0 < em.roundedMantissa ∧ em.roundedMantissa ≤ 2 ^ 53 ∧
      (2 ^ 52 ≤ em.roundedMantissa ∨ e' + k = -1074) ∧
      units em.roundedMantissa (e' + k) = units m e := by
    rw [hround]
    rcases lt_trichotomy (e' + k) e with hbelow | hsame | habove
    · obtain ⟨hr, rfl, ht⟩ := roundHalfEven_of_near_lt hden' hc hlt hleast hbelow h
      rw [hr]
      refine ⟨by positivity, le_rfl, .inl (by norm_num), ?_⟩
      have hexp : (e + 1074).toNat = (e' + k + 1074).toNat + 1 := by omega
      rw [units, units, hexp, pow_succ 2 (e' + k + 1074).toNat]
      ring
    · rw [hsame] at h ⊢
      rw [roundHalfEven_of_near hden' h]
      exact ⟨hm, hc.lt.le, hc.normal, rfl⟩
    · have hleast' := hc.least
      exact absurd (le_of_near hden' hc (hnormal.resolve_right (by omega)) h) habove.not_ge
  obtain ⟨hpos, hle, hnormal, hunits⟩ := hrounded
  obtain ⟨m', e'', hsecond, hcanon, hsame⟩ := carry hpos hle hleast hnormal
  obtain ⟨rfl, rfl⟩ := canonical_unique hcanon hc (hsame.trans hunits)
  simp only [roundWithAccuracy, hfirst, hsecond]
  rw [dif_neg hm.ne']

/-! ## Products and quotients -/

section

variable {m m₁ m₂ : ℕ} {e e₁ e₂ : ℤ} (hm : 0 < m) (h₁ : 0 < m₁) (h₂ : 0 < m₂) (hc : Canonical m e)

include hc in
theorem mul_of_near (hbits : 2 ^ 52 ≤ m₁ * m₂ ∨ e₁ + e₂ ≤ -1074)
    (h : Near m e (m₁ * 2 ^ e₁ * (m₂ * 2 ^ e₂))) :
    UnpackedFloat.mul Format.binary64 (.finite .positive m₁ e₁ h₁) (.finite .positive m₂ e₂ h₂) =
      .finite .positive m e hm := by
  have hone : Near m e ((m₁ * m₂ : ℕ) / (1 : ℕ) * 2 ^ (e₁ + e₂)) := by
    rw [zpow_add₀ two_ne_zero]
    push_cast
    convert h using 1
    ring
  have hround := roundWithAccuracy_of_near .positive one_pos (by rwa [Nat.div_one]) hm hc hone
  rw [Nat.div_one, Nat.mod_one] at hround
  exact hround

/-- The quotient of the significands is computed to at least 53 bits and rounded. -/
theorem exists_div_eq (s₁ s₂ : Sign) :
    ∃ (num den : ℕ) (t : ℤ), 0 < den ∧ (2 ^ 52 ≤ num / den ∨ t ≤ -1074) ∧
      (num / den * 2 ^ t : ℚ) = m₁ * 2 ^ e₁ / (m₂ * 2 ^ e₂) ∧
      UnpackedFloat.div Format.binary64 (.finite s₁ m₁ e₁ h₁) (.finite s₂ m₂ e₂ h₂) =
        roundWithAccuracy Format.binary64 (s₁ / s₂) (num / den) t
          (accuracyOfFraction (num % den) den) := by
  obtain ⟨t, ht⟩ : ∃ t, min (e₁ - e₂)
      (Format.binary64.targetExponent (totalExponent m₁ e₁ - totalExponent m₂ e₂)) = t := ⟨_, rfl⟩
  have htarget : t = min (e₁ - e₂)
      (max ((m₁.log2 : ℤ) + 1 + e₁ - (m₂.log2 + 1 + e₂) - 53) (-1074)) := ht.symm
  obtain ⟨k, hk⟩ : ∃ k, (e₁ - e₂ - t).toNat = k := ⟨_, rfl⟩
  have hexp : e₁ - e₂ = t + k := by omega
  refine ⟨m₁ * 2 ^ k, m₂, t, h₂, ?_, ?_, ?_⟩
  · rcases le_or_gt t (-1074) with hle | hgt
    · exact .inr hle
    · refine .inl ((Nat.le_div_iff_mul_le h₂).2 ?_)
      calc 2 ^ 52 * m₂ ≤ 2 ^ 52 * 2 ^ (m₂.log2 + 1) :=
            Nat.mul_le_mul_left _ Nat.lt_log2_self.le
        _ = 2 ^ (52 + (m₂.log2 + 1)) := (pow_add ..).symm
        _ ≤ 2 ^ (m₁.log2 + k) := Nat.pow_le_pow_right two_pos (by omega)
        _ = 2 ^ m₁.log2 * 2 ^ k := pow_add ..
        _ ≤ m₁ * 2 ^ k := Nat.mul_le_mul_right _ (Nat.log2_self_le h₁.ne')
  · rw [show e₁ = e₂ + (t + k) by omega, zpow_add₀ two_ne_zero, zpow_add₀ two_ne_zero, zpow_natCast]
    push_cast
    field_simp
  · change roundWithAccuracy Format.binary64 (s₁ / s₂) (m₁ <<< (e₁ - e₂ - _).toNat / m₂) _
      (accuracyOfFraction (m₁ <<< (e₁ - e₂ - _).toNat % m₂) m₂) = _
    rw [ht, hk, Nat.shiftLeft_eq]

include hc in
theorem div_of_near (h : Near m e (m₁ * 2 ^ e₁ / (m₂ * 2 ^ e₂))) :
    UnpackedFloat.div Format.binary64 (.finite .positive m₁ e₁ h₁) (.finite .positive m₂ e₂ h₂) =
      .finite .positive m e hm := by
  obtain ⟨num, den, t, hden, hbits, hvalue, hdiv⟩ := exists_div_eq h₁ h₂ .positive .positive
  rw [hdiv]
  exact roundWithAccuracy_of_near .positive hden hbits hm hc (hvalue ▸ h)

end

end Backtest.Double
