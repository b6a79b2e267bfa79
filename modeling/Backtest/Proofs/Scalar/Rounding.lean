import Mathlib

/-!
# Rounding of doubles

Every double is a whole multiple of the least positive one, and so is every sum of two. What a sum
is rounded to is therefore a function of natural numbers, `nearest`, which leaves 53 significant
bits. It never passes a number that has no more.
-/

namespace Backtest.Double

open Float.Model
open Float.Model.UnpackedFloat

/-! ## Shifting out bits -/

theorem shift_add (em : ExtendedMantissa) (a b : ℕ) : em >>> (a + b) = em >>> a >>> b := by
  change (a + b).repeat ExtendedMantissa.shiftRightOne em =
    b.repeat ExtendedMantissa.shiftRightOne (a.repeat ExtendedMantissa.shiftRightOne em)
  induction b with
  | zero => rfl
  | succ b ih => rw [← Nat.add_assoc, Nat.repeat, Nat.repeat, ih]

theorem shift_succ (em : ExtendedMantissa) (k : ℕ) :
    em >>> (k + 1) = (em >>> k).shiftRightOne := rfl

theorem mantissa_shift (em : ExtendedMantissa) (k : ℕ) :
    (em >>> k).mantissa = em.mantissa / 2 ^ k := by
  induction k with
  | zero => exact (Nat.div_one _).symm
  | succ k ih =>
    rw [shift_succ, ExtendedMantissa.shiftRightOne, ih, Nat.div_div_eq_div_mul, pow_succ]

/-- Zeros are shifted out without a trace. -/
theorem shift_mul_two_pow (c k : ℕ) :
    (⟨c * 2 ^ k, false, false⟩ : ExtendedMantissa) >>> k = ⟨c, false, false⟩ := by
  induction k generalizing c with
  | zero => rw [pow_zero, mul_one]; rfl
  | succ k ih =>
    have hc : c * 2 ^ (k + 1) = c * 2 * 2 ^ k := by ring
    rw [shift_succ, hc, ih (c * 2)]
    simp [ExtendedMantissa.shiftRightOne]

theorem roundedMantissa_eq (em : ExtendedMantissa) :
    em.roundedMantissa = em.mantissa ∨ em.roundedMantissa = em.mantissa + 1 := by
  unfold ExtendedMantissa.roundedMantissa
  cases em.accuracy with
  | exact => exact .inl rfl
  | inexact half =>
    cases half with
    | lt => exact .inl rfl
    | eq =>
      rcases Nat.mod_two_eq_zero_or_one em.mantissa with h | h
      · exact .inl (by simp [Accuracy.roundToNearestEven, h])
      · exact .inr (by simp [Accuracy.roundToNearestEven, h])
    | gt => exact .inr rfl

/-! ## The nearest number of 53 bits -/

def excess (n : ℕ) : ℕ := n.log2 + 1 - 53

def significand (n : ℕ) : ℕ :=
  ((⟨n, false, false⟩ : ExtendedMantissa) >>> excess n).roundedMantissa

/-- The nearest number of 53 significant bits, even at a tie. -/
def nearest (n : ℕ) : ℕ := significand n * 2 ^ excess n

theorem significand_eq (n : ℕ) :
    significand n = n / 2 ^ excess n ∨ significand n = n / 2 ^ excess n + 1 := by
  have h := roundedMantissa_eq ((⟨n, false, false⟩ : ExtendedMantissa) >>> excess n)
  rwa [mantissa_shift] at h

theorem le_significand (n : ℕ) : n / 2 ^ excess n ≤ significand n := by
  rcases significand_eq n with h | h <;> omega

theorem significand_le (n : ℕ) : significand n ≤ n / 2 ^ excess n + 1 := by
  rcases significand_eq n with h | h <;> omega

theorem nearest_of_dvd {n : ℕ} (h : 2 ^ excess n ∣ n) : nearest n = n := by
  obtain ⟨c, hc⟩ := h
  have hshift := shift_mul_two_pow c (excess n)
  rw [mul_comm c, ← hc] at hshift
  rw [nearest, significand, hshift, mul_comm]
  exact hc.symm

theorem lt_two_pow_excess {n : ℕ} : n / 2 ^ excess n < 2 ^ 53 := by
  rw [Nat.div_lt_iff_lt_mul (by positivity), ← pow_add]
  calc n < 2 ^ (n.log2 + 1) := Nat.lt_log2_self
    _ ≤ 2 ^ (53 + excess n) := Nat.pow_le_pow_right two_pos (by unfold excess; omega)

/-- A number with bits beyond 53 keeps its leading bit. -/
theorem le_of_excess {n : ℕ} (h : excess n ≠ 0) : 2 ^ 52 ≤ n / 2 ^ excess n := by
  have hn : n ≠ 0 := by rintro rfl; exact h rfl
  rw [Nat.le_div_iff_mul_le (by positivity), ← pow_add]
  calc 2 ^ (52 + excess n) = 2 ^ n.log2 := by congr 1; unfold excess at h ⊢; omega
    _ ≤ n := Nat.log2_self_le hn

theorem significand_le_two_pow (n : ℕ) : significand n ≤ 2 ^ 53 :=
  (significand_le n).trans lt_two_pow_excess

def Short (c : ℕ) : Prop := ∃ m j, m < 2 ^ 53 ∧ c = m * 2 ^ j

theorem Short.eq_or_lt {c : ℕ} (hc : Short c) (n : ℕ) :
    (∃ b, c = b * 2 ^ excess n) ∨ c < 2 ^ 52 * 2 ^ excess n := by
  obtain ⟨m, j, hm, rfl⟩ := hc
  rcases le_or_gt (excess n) j with hj | hj
  · refine .inl ⟨m * 2 ^ (j - excess n), ?_⟩
    rw [mul_assoc, ← pow_add, Nat.sub_add_cancel hj]
  · refine .inr ?_
    calc m * 2 ^ j < 2 ^ 53 * 2 ^ j := Nat.mul_lt_mul_of_pos_right hm (by positivity)
      _ = 2 ^ 52 * 2 ^ (j + 1) := by ring
      _ ≤ 2 ^ 52 * 2 ^ excess n := by gcongr <;> omega

theorem le_nearest {c n : ℕ} (hc : Short c) (h : c ≤ n) : c ≤ nearest n := by
  by_cases hn : excess n = 0
  · rwa [nearest_of_dvd (by rw [hn]; exact one_dvd n)]
  · refine le_trans ?_ (Nat.mul_le_mul_right (2 ^ excess n) (le_significand n))
    rcases hc.eq_or_lt n with ⟨b, rfl⟩ | hlt
    · exact Nat.mul_le_mul_right _ ((Nat.le_div_iff_mul_le (by positivity)).2 h)
    · exact hlt.le.trans (Nat.mul_le_mul_right _ (le_of_excess hn))

theorem nearest_le {c n : ℕ} (hc : Short c) (h : n ≤ c) : nearest n ≤ c := by
  by_cases hdvd : 2 ^ excess n ∣ n
  · rwa [nearest_of_dvd hdvd]
  · have hn : excess n ≠ 0 := by
      intro h0
      rw [h0] at hdvd
      exact hdvd (one_dvd n)
    have hfloor : n / 2 ^ excess n * 2 ^ excess n < n :=
      lt_of_le_of_ne (Nat.div_mul_le_self n _) fun heq => hdvd ⟨_, by rw [mul_comm, heq]⟩
    rcases hc.eq_or_lt n with ⟨b, rfl⟩ | hlt
    · have hb : n / 2 ^ excess n < b := Nat.lt_of_mul_lt_mul_right (hfloor.trans_le h)
      exact Nat.mul_le_mul_right _ ((significand_le n).trans hb)
    · have hle := Nat.mul_le_mul_right (2 ^ excess n) (le_of_excess hn)
      omega

/-! ## Doubles in units of the least positive one -/

/-- A significand and an exponent as a double stores them. -/
structure Canonical (m : ℕ) (e : ℤ) : Prop where
  lt : m < 2 ^ 53
  least : -1074 ≤ e
  normal : 2 ^ 52 ≤ m ∨ e = -1074

/-- `m * 2 ^ e` in units of the least positive double, for exponents not below its. -/
def units (m : ℕ) (e : ℤ) : ℕ := m * 2 ^ (e + 1074).toNat

theorem Canonical.short {m : ℕ} {e : ℤ} (h : Canonical m e) : Short (units m e) :=
  ⟨m, _, h.lt, rfl⟩

theorem log2_mul_two_pow {m : ℕ} (hm : 0 < m) (k : ℕ) : (m * 2 ^ k).log2 = m.log2 + k := by
  rw [Nat.log2_eq_iff (by positivity)]
  constructor
  · rw [pow_add]
    exact Nat.mul_le_mul_right _ (Nat.log2_self_le hm.ne')
  · rw [add_right_comm, pow_add _ (m.log2 + 1)]
    exact Nat.mul_lt_mul_of_pos_right Nat.lt_log2_self (by positivity)

theorem targetExponent_eq {m : ℕ} {e : ℤ} (hm : 0 < m) (he : -1074 ≤ e) :
    Format.binary64.targetExponent (totalExponent m e) = excess (units m e) - 1074 := by
  rw [excess, units, log2_mul_two_pow hm]
  change max ((m.log2 : ℤ) + 1 + e - 53) (-1074) = _
  omega

/-- A shift to the target exponent drops the excess bits that the exponent does not drop yet. -/
theorem shiftToTargetExponent_eq {m : ℕ} {e : ℤ} (hm : 0 < m) (he : -1074 ≤ e) {k : ℕ}
    (hk : excess (units m e) - (e + 1074).toNat = k) :
    shiftToTargetExponent Format.binary64 m e .exact =
      ((⟨m, false, false⟩ : ExtendedMantissa) >>> k, e + k) := by
  change shiftToExponent m e .exact (Format.binary64.targetExponent (totalExponent m e)) = _
  have hamount : ((excess (units m e) : ℤ) - 1074 - e).toNat = k := by omega
  rw [targetExponent_eq hm he, shiftToExponent, hamount]
  rfl

/-- The second shift of a rounding, which undoes a carry into bit 54. -/
theorem carry {r : ℕ} {t : ℤ} (hr : 0 < r) (hle : r ≤ 2 ^ 53) (ht : -1074 ≤ t)
    (hnormal : 2 ^ 52 ≤ r ∨ t = -1074) :
    ∃ m e, shiftToTargetExponent Format.binary64 r t .exact = (⟨m, false, false⟩, e) ∧
      Canonical m e ∧ units m e = units r t := by
  have hexcess : excess (units r t) = r.log2 + (t + 1074).toNat + 1 - 53 := by
    rw [excess, units, log2_mul_two_pow hr]
  rcases hle.lt_or_eq with hlt | rfl
  · have hlog : r.log2 < 53 := (Nat.log2_lt hr.ne').2 hlt
    refine ⟨r, t + (0 : ℕ), ?_, ⟨hlt, by simpa using ht, by simpa using hnormal⟩, by simp⟩
    exact shiftToTargetExponent_eq hr ht (k := 0) (by omega)
  · rw [Nat.log2_two_pow] at hexcess
    refine ⟨2 ^ 52, t + (1 : ℕ), ?_, ⟨by norm_num, by omega, .inl le_rfl⟩, ?_⟩
    · rw [shiftToTargetExponent_eq hr ht (k := 1) (by omega)]
      rfl
    · have hexp : (t + (1 : ℕ) + 1074).toNat = (t + 1074).toNat + 1 := by omega
      rw [units, units, hexp, pow_succ 2 (t + 1074).toNat, pow_succ 2 52]
      ring

/-- The first shift of a rounding, and its significand. -/
theorem first_shift {m : ℕ} {e : ℤ} (hm : 0 < m) (he : -1074 ≤ e)
    (hle : (e + 1074).toNat ≤ excess (units m e)) :
    ∃ em, shiftToTargetExponent Format.binary64 m e .exact =
        (em, (excess (units m e) : ℤ) - 1074) ∧
      em.roundedMantissa = significand (units m e) := by
  obtain ⟨k, hk⟩ := Nat.exists_eq_add_of_le hle
  refine ⟨(⟨m, false, false⟩ : ExtendedMantissa) >>> k, ?_, ?_⟩
  · rw [shiftToTargetExponent_eq hm he (k := k) (by omega)]
    congr 1
    omega
  · rw [significand, hk, shift_add, units, shift_mul_two_pow]

theorem significand_pos {n : ℕ} (hn : 0 < n) : 0 < significand n := by
  refine lt_of_lt_of_le ?_ (le_significand n)
  by_cases h : excess n = 0
  · rwa [h, pow_zero, Nat.div_one]
  · exact lt_of_lt_of_le (by norm_num) (le_of_excess h)

theorem significand_normal (n : ℕ) :
    2 ^ 52 ≤ significand n ∨ (excess n : ℤ) - 1074 = -1074 := by
  by_cases h : excess n = 0
  · exact .inr (by omega)
  · exact .inl ((le_of_excess h).trans (le_significand n))

/-- Rounding a number of at least unit precision gives its nearest double. -/
theorem round_eq (s : Sign) {m : ℕ} {e : ℤ} (hm : 0 < m) (he : -1074 ≤ e) :
    ∃ m' e' h, round Format.binary64 s m e = .finite s m' e' h ∧ Canonical m' e' ∧
      units m' e' = nearest (units m e) := by
  -- the exponent is lowered to the target, never below that of the unit
  obtain ⟨d, hd⟩ : ∃ d : ℕ, (e - Format.binary64.targetExponent (totalExponent m e)).toNat = d :=
    ⟨_, rfl⟩
  have htarget := targetExponent_eq hm he
  have hlow : -1074 ≤ e - d := by omega
  have hpos : 0 < m * 2 ^ d := by positivity
  have hunits : units (m * 2 ^ d) (e - d) = units m e := by
    rw [units, units, mul_assoc, ← pow_add]
    congr 2
    omega
  have hupos : 0 < units m e := by unfold units; positivity
  obtain ⟨em, hfirst, hround⟩ := first_shift hpos hlow (by rw [hunits]; omega)
  rw [hunits] at hfirst hround
  obtain ⟨m', e', hsecond, hcanon, hsame⟩ :=
    carry (significand_pos hupos) (significand_le_two_pow _) (by omega) (significand_normal _)
  have hfinal : units m' e' = nearest (units m e) := by
    rw [hsame, nearest, units]
    congr 2
    omega
  have hm' : m' ≠ 0 := by
    rintro rfl
    have hle := le_nearest (n := units m e) (c := 1) ⟨1, 0, by norm_num, rfl⟩ hupos
    rw [← hfinal, units, zero_mul] at hle
    omega
  refine ⟨m', e', Nat.pos_of_ne_zero hm', ?_, hcanon, hfinal⟩
  change roundWithAccuracy Format.binary64 s (m <<< (e - _).toNat) (e - (e - _).toNat) .exact = _
  rw [hd, Nat.shiftLeft_eq]
  simp only [roundWithAccuracy, hfirst, hround, hsecond]
  rw [dif_neg hm']

end Backtest.Double
