import Backtest.Decimal.Reading
import Backtest.Proofs.Decimal.Binary
import Backtest.Proofs.Decimal.Digits
import Backtest.Proofs.Scalar.Fraction

/-!
# The double nearest to a decimal

A decimal in the interval of a double is read as that double, on the short way through two exact
doubles as well as on the long one.
-/

namespace Backtest.Decimal

open Float.Model
open Float.Model.UnpackedFloat
open Double

/-- A positive double that is the number `v`. -/
def Exact (x : Float) (v : ℚ) : Prop :=
  ∃ m e h, unpacked x = .finite .positive m e h ∧ Canonical m e ∧ (m : ℚ) * 2 ^ e = v

theorem unpacked_ofModel {u : UnpackedFloat} (h : Stored u) :
    unpacked (.ofModel (.pack u)) = u :=
  unpack_pack h

/-- In units of the least positive double. -/
theorem units_eq {m : ℕ} {e : ℤ} (he : -1074 ≤ e) :
    (units m e : ℚ) = m * 2 ^ e * 2 ^ 1074 := by
  obtain ⟨k, rfl⟩ : ∃ k : ℕ, e = k - 1074 := ⟨(e + 1074).toNat, by omega⟩
  rw [units, sub_add_cancel, Int.toNat_natCast, Nat.cast_mul, Nat.cast_pow, Nat.cast_two, mul_assoc,
    ← zpow_natCast, ← zpow_natCast, ← zpow_add₀ two_ne_zero]
  congr 2
  exact (sub_add_cancel _ _).symm

theorem exact_toFloat {n : ℕ} (hn : 0 < n) (hlt : n < 2 ^ 53) : Exact n.toUInt64.toFloat n := by
  obtain ⟨m, e, hm, hround, hc, hunits⟩ := round_eq .positive hn (show (-1074 : ℤ) ≤ 0 by decide)
  have hshort : Short (units n 0) := ⟨n, _, hlt, rfl⟩
  have hsame : units m e = units n 0 := by
    rw [hunits]
    exact le_antisymm (nearest_le hshort le_rfl) (le_nearest hshort le_rfl)
  have hvalue : (m : ℚ) * 2 ^ e = n := by
    have hcast : (units m e : ℚ) = units n 0 := by exact_mod_cast hsame
    rw [units_eq hc.least, units_eq (by decide), zpow_zero, mul_one] at hcast
    exact mul_right_cancel₀ (by positivity) hcast
  have hexp : e < 53 := by
    rw [← zpow_lt_zpow_iff_right₀ (one_lt_two (α := ℚ))]
    calc (2 : ℚ) ^ e ≤ m * 2 ^ e := le_mul_of_one_le_left (by positivity) (by exact_mod_cast hm)
      _ = n := hvalue
      _ < 2 ^ (53 : ℤ) := by exact_mod_cast hlt
  have hword : n.toUInt64.toNat = n := Nat.mod_eq_of_lt (hlt.trans (by decide))
  have hmodel : n.toUInt64.toFloat =
      .ofModel (.pack (UnpackedFloat.normalize .binary64 (n.toUInt64.toNat : ℤ) 0 .positive)) := rfl
  refine ⟨m, e, hm, ?_, hc, hvalue⟩
  rw [hmodel, hword, UnpackedFloat.normalize, Int.compare_eq_gt.2 (by exact_mod_cast hn)]
  change unpacked (.ofModel (.pack (round .binary64 .positive n 0))) = _
  rw [hround]
  exact unpacked_ofModel ⟨hc, by omega⟩

/-- The table of powers of ten holds their bits, the highest of which is the implicit one. -/
theorem ofFloat_powerOfTen : ∀ k : Fin 23,
    Binary.ofFloat Float.exactlyRepresentablePowersOfTen[k] =
        .finite false (10 ^ k.val * 2 ^ 52 / 2 ^ (10 ^ k.val).log2) ((10 ^ k.val).log2 - 52 : ℤ) ∧
      10 ^ k.val * 2 ^ 52 % 2 ^ (10 ^ k.val).log2 = 0 := by
  decide +kernel

theorem exact_powerOfTen {k : ℕ} (hk : k < Float.exactlyRepresentablePowersOfTen.size) :
    Exact Float.exactlyRepresentablePowersOfTen[k] (10 ^ k) := by
  obtain ⟨hbits, hexact⟩ := ofFloat_powerOfTen ⟨k, hk⟩
  have hlog : 2 ^ (10 ^ k).log2 ≤ 10 ^ k := Nat.log2_self_le (by positivity)
  have hm : 0 < 10 ^ k * 2 ^ 52 / 2 ^ (10 ^ k).log2 :=
    Nat.div_pos (hlog.trans (Nat.le_mul_of_pos_right _ (by decide))) (by positivity)
  have hunpacked := unpacked_of_ofFloat hm hbits
  have hstored : Stored (.finite .positive _ _ hm) := hunpacked ▸ stored_unpacked _
  have hvalue := Nat.div_mul_cancel (Nat.dvd_of_mod_eq_zero hexact)
  refine ⟨_, _, hm, hunpacked, hstored.1, ?_⟩
  have hcast : ((10 ^ k * 2 ^ 52 / 2 ^ (10 ^ k).log2 : ℕ) : ℚ) * 2 ^ (10 ^ k).log2 =
      10 ^ k * 2 ^ 52 := by exact_mod_cast hvalue
  rw [zpow_sub₀ two_ne_zero, zpow_natCast, mul_div_assoc', hcast, ← zpow_natCast]
  exact mul_div_cancel_right₀ _ (by positivity)

section

variable {m : ℕ} {e : ℤ} (hm : 0 < m) (hs : Stored (.finite .positive m e hm))

include hs

/-- Nothing in the interval of a double is as large as the numbers that are cut off. -/
theorem lt_of_near {v : ℚ} (h : Near m e v) : v < 2 ^ (1024 : ℤ) := by
  obtain ⟨hc, he⟩ := hs
  have hlt : (m + 1 : ℚ) ≤ 2 ^ 53 := by exact_mod_cast hc.lt
  calc v ≤ (4 * m + 2 : ℚ) * 2 ^ (e - 2) := h.high
    _ < 2 ^ (55 : ℤ) * 2 ^ (e - 2) := by
        refine mul_lt_mul_of_pos_right ?_ (by positivity)
        norm_num at hlt ⊢
        linarith
    _ = 2 ^ (55 + (e - 2)) := (zpow_add₀ two_ne_zero ..).symm
    _ ≤ 2 ^ (1024 : ℤ) := zpow_le_zpow_right₀ one_le_two (by omega)

theorem pos_of_near {v : ℚ} (h : Near m e v) : 2 ^ (-1075 : ℤ) ≤ v := by
  have hreach : (reach m e : ℚ) ≤ 2 := by exact_mod_cast reach_le m e
  have hone : (1 : ℚ) ≤ m := by exact_mod_cast hm
  have hleast := hs.1.least
  calc (2 : ℚ) ^ (-1075 : ℤ) ≤ 2 ^ (1 + (e - 2)) := zpow_le_zpow_right₀ one_le_two (by omega)
    _ = 2 * 2 ^ (e - 2) := by rw [zpow_add₀ two_ne_zero, zpow_one]
    _ ≤ (4 * m - reach m e) * 2 ^ (e - 2) := by
        refine mul_le_mul_of_nonneg_right ?_ (by positivity)
        linarith
    _ ≤ v := h.low

/-! ## The short way -/

theorem unpacked_mul {x y : Float} {a b : ℚ} (hx : Exact x a) (hy : Exact y b) (ha : 1 ≤ a)
    (h : Near m e (a * b)) : unpacked (x * y) = .finite .positive m e hm := by
  obtain ⟨m₁, e₁, h₁, hx, hc₁, rfl⟩ := hx
  obtain ⟨m₂, e₂, h₂, hy, -, rfl⟩ := hy
  have hnormal : 2 ^ 52 ≤ m₁ := by
    refine hc₁.normal.resolve_right ?_
    rintro rfl
    have hlt : (m₁ : ℚ) < 2 ^ (53 : ℤ) := by exact_mod_cast hc₁.lt
    have hsmall : (m₁ : ℚ) * 2 ^ (-1074 : ℤ) < 2 ^ (53 : ℤ) * 2 ^ (-1074 : ℤ) :=
      mul_lt_mul_of_pos_right hlt (by positivity)
    rw [← zpow_add₀ two_ne_zero] at hsmall
    have hone : (2 : ℚ) ^ (53 + -1074 : ℤ) ≤ 1 := zpow_le_one_of_nonpos₀ one_le_two (by decide)
    linarith
  have hbits : 2 ^ 52 ≤ m₁ * m₂ := hnormal.trans (Nat.le_mul_of_pos_right _ h₂)
  have hmul : unpacked (x * y) = store (.mul .binary64 (unpacked x) (unpacked y)) := rfl
  rw [hmul, hx, hy, mul_of_near hm h₁ h₂ hs.1 (.inl hbits) h]
  exact unpack_pack hs

theorem unpacked_div {x y : Float} {a b : ℚ} (hx : Exact x a) (hy : Exact y b)
    (h : Near m e (a / b)) : unpacked (x / y) = .finite .positive m e hm := by
  obtain ⟨m₁, e₁, h₁, hx, -, rfl⟩ := hx
  obtain ⟨m₂, e₂, h₂, hy, -, rfl⟩ := hy
  have hdiv : unpacked (x / y) = store (.div .binary64 (unpacked x) (unpacked y)) := rfl
  rw [hdiv, hx, hy, div_of_near hm h₁ h₂ hs.1 h]
  exact unpack_pack hs

/-! ## The long way -/

/-- The exponents that are cut off are beyond every interval. -/
theorem exponent_of_near {n : ℕ} {z : ℤ} (hn : 0 < n) (h : Near m e (n * 10 ^ z)) :
    z ≤ 2 ^ 11 ∧ -((2 ^ 11 : ℤ) + n.log2) ≤ z := by
  constructor
  · by_contra hgt
    have hle : (2 : ℚ) ^ (1024 : ℤ) ≤ n * 10 ^ z := by
      calc (2 : ℚ) ^ (1024 : ℤ) ≤ 2 ^ z := zpow_le_zpow_right₀ one_le_two (by omega)
        _ ≤ 10 ^ z := zpow_le_zpow_left₀ (by omega) (by norm_num) (by norm_num)
        _ ≤ n * 10 ^ z := le_mul_of_one_le_left (by positivity) (by exact_mod_cast hn)
    exact absurd (lt_of_near hm hs h) hle.not_gt
  · by_contra hlt
    obtain ⟨k, rfl⟩ : ∃ k : ℕ, z = -k := ⟨(-z).toNat, by omega⟩
    have hle : (n * 10 ^ (-k : ℤ) : ℚ) < 2 ^ (-1075 : ℤ) := by
      calc (n * 10 ^ (-k : ℤ) : ℚ) < 2 ^ (n.log2 + 1 : ℤ) * 10 ^ (-k : ℤ) := by
            refine mul_lt_mul_of_pos_right ?_ (by positivity)
            exact_mod_cast Nat.lt_log2_self
        _ ≤ 2 ^ (n.log2 + 1 : ℤ) * 2 ^ (-k : ℤ) := by
            refine mul_le_mul_of_nonneg_left ?_ (by positivity)
            rw [zpow_neg, zpow_neg, zpow_natCast, zpow_natCast]
            exact inv_anti₀ (by positivity) (pow_le_pow_left₀ (by norm_num) (by norm_num) k)
        _ = 2 ^ (n.log2 + 1 + -k : ℤ) := (zpow_add₀ two_ne_zero ..).symm
        _ ≤ 2 ^ (-1075 : ℤ) := zpow_le_zpow_right₀ one_le_two (by omega)
    exact absurd (pos_of_near hm hs h) hle.not_ge

theorem ofScientific_of_near {n : ℕ} {z : ℤ} (hn : 0 < n) (h : Near m e (n * 10 ^ z)) :
    UnpackedFloat.ofScientific Format.binary64 n z = .finite .positive m e hm := by
  obtain ⟨hlarge, hsmall⟩ := exponent_of_near hm hs hn h
  rw [UnpackedFloat.ofScientific, dif_neg hn.ne', if_neg hlarge.not_gt, if_neg hsmall.not_gt]
  split
  · rename_i hz
    obtain ⟨k, rfl⟩ := Int.eq_ofNat_of_zero_le hz
    simp only [Int.toNat_natCast]
    refine mul_of_near hm _ _ hs.1 (.inl ?_) ?_
    · rw [Nat.shiftLeft_eq]
      calc 2 ^ 52 ≤ 1 * 2 ^ 53 * 1 := by norm_num
        _ ≤ n * 2 ^ 53 * 10 ^ k :=
            Nat.mul_le_mul (Nat.mul_le_mul_right _ hn) (Nat.one_le_pow _ _ (by decide))
    · convert h using 1
      rw [Nat.shiftLeft_eq]
      push_cast
      rw [zpow_neg, zpow_natCast, zpow_natCast, mul_one]
      field_simp
  · rename_i hz
    obtain ⟨k, rfl⟩ : ∃ k : ℕ, z = -k := ⟨(-z).toNat, by omega⟩
    simp only [neg_neg, Int.toNat_natCast]
    refine div_of_near hm hn _ hs.1 ?_
    convert h using 1
    push_cast
    rw [zpow_neg, zpow_natCast, mul_one, mul_one, div_eq_mul_inv]

/-- A decimal with its exponent split into a sign and a size. -/
theorem unpacked_ofScientific {n k : ℕ} {down : Bool} (hn : 0 < n)
    (h : Near m e (n * 10 ^ (if down then -k else k : ℤ))) :
    unpacked (Float.ofScientific n down k) = .finite .positive m e hm := by
  unfold Float.ofScientific
  split
  · rename_i hshort
    have hpower := exact_powerOfTen (k := k) (Nat.lt_succ_of_le hshort.2)
    have hexact := exact_toFloat hn hshort.1
    cases down with
    | false =>
      refine unpacked_mul hm hs hexact hpower (by exact_mod_cast hn) ?_
      simpa using h
    | true =>
      refine unpacked_div hm hs hexact hpower ?_
      simpa [div_eq_mul_inv] using h
  · have hexponent : (if down then Int.negOfNat k else Int.ofNat k) =
        if down then -(k : ℤ) else k := by
      cases down with
      | false => rfl
      | true => exact Int.negOfNat_eq
    simp only [hexponent]
    have hlong := ofScientific_of_near hm hs hn h
    change unpacked (.ofModel (.pack (UnpackedFloat.ofScientific _ _ _))) = _
    rw [hlong]
    exact unpacked_ofModel hs

/-- The sizes that are cut off are beyond every interval. -/
theorem size_of_near {n : ℕ} {z : ℤ} (hn : 0 < n) (h : Near m e (n * 10 ^ z)) :
    (digitCount n : ℤ) + z ≤ 400 ∧ -400 ≤ (digitCount n : ℤ) + z := by
  constructor
  · by_contra hgt
    have hle : (2 : ℚ) ^ (1024 : ℤ) ≤ n * 10 ^ z := by
      calc (2 : ℚ) ^ (1024 : ℤ) ≤ 2 ^ (3 * 400 : ℤ) := zpow_le_zpow_right₀ one_le_two (by decide)
        _ ≤ 10 ^ (400 : ℤ) := two_zpow_le_ten_zpow 400
        _ ≤ 10 ^ ((digitCount n - 1 : ℤ) + z) := zpow_le_zpow_right₀ (by norm_num) (by omega)
        _ ≤ n * 10 ^ z := zpow_digitCount_le hn z
    exact absurd (lt_of_near hm hs h) hle.not_gt
  · by_contra hlt
    have hle : (n * 10 ^ z : ℚ) < 2 ^ (-1075 : ℤ) := by
      calc (n * 10 ^ z : ℚ) < 10 ^ ((digitCount n : ℤ) + z) := lt_zpow_digitCount n z
        _ ≤ 10 ^ (-400 : ℤ) := zpow_le_zpow_right₀ (by norm_num) (by omega)
        _ ≤ 2 ^ (-(3 * 400) : ℤ) := by
            rw [zpow_neg, zpow_neg]
            exact inv_anti₀ (by positivity) (two_zpow_le_ten_zpow 400)
        _ ≤ 2 ^ (-1075 : ℤ) := zpow_le_zpow_right₀ one_le_two (by decide)
    exact absurd (pos_of_near hm hs h) hle.not_ge

/-- A decimal in the interval of a positive double is read as it. -/
theorem unpacked_magnitude {w : Written} (h : Near m e (w.mantissa * 10 ^ w.exponent)) :
    unpacked w.magnitude = .finite .positive m e hm := by
  have hpos : 0 < w.mantissa := by
    rw [Nat.pos_iff_ne_zero]
    intro hzero
    have hle := pos_of_near hm hs h
    rw [hzero, Nat.cast_zero, zero_mul] at hle
    exact absurd hle (not_le.2 (by positivity))
  obtain ⟨hlarge, hsmall⟩ := size_of_near hm hs hpos h
  unfold digitCount at hlarge hsmall
  simp only [Written.magnitude]
  rw [if_neg hpos.ne', if_neg hlarge.not_gt, if_neg hsmall.not_gt]
  split
  · rename_i hexp
    obtain ⟨k, hk⟩ := Int.eq_ofNat_of_zero_le hexp
    refine unpacked_ofScientific hm hs (Nat.mul_pos hpos (Nat.pow_pos (by decide))) ?_
    rw [hk] at h ⊢
    simpa using h
  · rename_i hexp
    obtain ⟨k, hk⟩ : ∃ k : ℕ, w.exponent = -k := ⟨(-w.exponent).toNat, by omega⟩
    refine unpacked_ofScientific hm hs hpos ?_
    rw [hk] at h ⊢
    simpa using h

end

/-- A decimal in the interval of a double, with its sign, is read as that double. -/
theorem Written.toFloat_of_near {x : Float} {w : Written} {m : ℕ} {e : ℤ} (hm : 0 < m)
    (hx : Binary.ofFloat x = .finite w.negative m e)
    (h : Near m e (w.mantissa * 10 ^ w.exponent)) : w.toFloat = x := by
  have hstored := stored_unpacked x
  rw [unpacked_of_ofFloat hm hx] at hstored
  have hmagnitude := unpacked_magnitude hm hstored h
  refine eq_of_ofFloat ?_ hx
  rw [ofFloat_eq, Written.toFloat]
  cases w.negative with
  | true =>
    rw [if_pos rfl, unpacked_neg, hmagnitude]
    rfl
  | false =>
    rw [if_neg Bool.false_ne_true, hmagnitude]
    rfl

/-- A zero keeps its sign. -/
theorem Written.toFloat_zero {x : Float} {w : Written} {e : ℤ} (hw : w.mantissa = 0)
    (hx : Binary.ofFloat x = .finite w.negative 0 e) : w.toFloat = x := by
  obtain rfl := exponent_of_zero hx
  refine eq_of_ofFloat ?_ hx
  rw [Written.toFloat, Written.magnitude, if_pos hw]
  cases w.negative <;> decide +kernel

end Backtest.Decimal
