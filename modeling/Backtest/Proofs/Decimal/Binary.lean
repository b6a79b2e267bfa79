import Backtest.Decimal.Binary
import Backtest.Proofs.Scalar.Double

/-!
# Bits of a double

The sign, significand and exponent that the decimal texts are computed from are those that the
arithmetic works on, and a finite double is determined by them.
-/

namespace Backtest.Decimal

open Float.Model
open Float.Model.UnpackedFloat

def isNegative : Sign → Bool
  | .negative => true
  | .positive => false

def ofUnpacked : UnpackedFloat → Binary
  | .notANumber => .nan
  | .infinity s => .infinite (isNegative s)
  | .zero s => .finite (isNegative s) 0 leastExponent
  | .finite s m e _ => .finite (isNegative s) m e

section

variable (bits : BitVec Format.binary64.numBits)

theorem toNat_unpackMantissa : (unpackMantissa bits).toNat = bits.toNat % leastNormal := by
  unfold unpackMantissa
  simp [leastNormal]

theorem toNat_unpackExponent : (unpackExponent bits).toNat = bits.toNat / leastNormal % 2048 := by
  unfold unpackExponent
  simp [leastNormal, Nat.shiftRight_eq_div_pow]

theorem isNegative_unpackSign :
    isNegative (Sign.ofBitVec (unpackSign bits)) = decide (signBit ≤ bits.toNat) := by
  have hlt : bits.toNat < 2 * signBit := bits.isLt
  have hsign : (unpackSign bits).toNat = bits.toNat / signBit := by
    unfold unpackSign
    simp only [BitVec.toNat_cast, BitVec.extractLsb_toNat, Nat.shiftRight_eq_div_pow]
    exact Nat.mod_eq_of_lt ((Nat.div_lt_iff_lt_mul (by decide)).2 hlt)
  unfold Sign.ofBitVec
  split
  · rename_i hzero
    rw [hzero] at hsign
    exact (decide_eq_false (by
      rw [not_le]
      exact (Nat.div_eq_zero_iff_lt (by decide)).1 hsign.symm)).symm
  · rename_i hne
    have hpos : (unpackSign bits).toNat ≠ 0 := fun h => hne (BitVec.eq_of_toNat_eq h)
    exact (decide_eq_true (by
      rw [hsign] at hpos
      exact le_of_not_gt fun h => hpos (Nat.div_eq_of_lt h))).symm

/-- Both readings of the 64 bits agree. -/
theorem ofUnpacked_unpack :
    ofUnpacked (unpack Format.binary64 bits) = .ofBits (.ofBitVec bits) := by
  have hmantissa := toNat_unpackMantissa bits
  have hexponent := toNat_unpackExponent bits
  have hsign := isNegative_unpackSign bits
  have hbits : (UInt64.ofBitVec bits).toNat = bits.toNat := rfl
  have hzero : unpackMantissa bits = 0#52 ↔ (unpackMantissa bits).toNat = 0 := BitVec.toNat_eq
  have hmax : unpackExponent bits = -1#11 ↔ (unpackExponent bits).toNat = 2047 := BitVec.toNat_eq
  have hleast : unpackExponent bits = 0#11 ↔ (unpackExponent bits).toNat = 0 := BitVec.toNat_eq
  simp only [Binary.ofBits, hbits, ← hmantissa, ← hexponent, ← hsign]
  unfold UnpackedFloat.unpack
  simp only
  by_cases h : (unpackExponent bits).toNat = 2047
  · rw [if_pos (hmax.2 h), if_pos h]
    by_cases hm : (unpackMantissa bits).toNat = 0
    · rw [if_pos (hzero.2 hm), if_pos hm]
      rfl
    · rw [if_neg (mt hzero.1 hm), if_neg hm]
      rfl
  · rw [if_neg (mt hmax.1 h), if_neg h]
    by_cases h0 : (unpackExponent bits).toNat = 0
    · rw [if_pos (hleast.2 h0), if_pos h0]
      by_cases hm : (unpackMantissa bits).toNat = 0
      · rw [dif_pos (hzero.2 hm), hm]
        rfl
      · rw [dif_neg (mt hzero.1 hm), ofUnpacked, h0]
        rfl
    · rw [if_neg (mt hleast.1 h0), if_neg h0, ofUnpacked, Double.toNat_implicit, Nat.add_comm]
      rfl

end

theorem ofFloat_eq (x : Float) : Binary.ofFloat x = ofUnpacked (Double.unpacked x) :=
  (ofUnpacked_unpack x.toModel.toBits.toBitVec).symm

theorem unpacked_of_ofFloat {x : Float} {negative : Bool} {m : ℕ} {e : ℤ} (hm : 0 < m)
    (h : Binary.ofFloat x = .finite negative m e) :
    Double.unpacked x = .finite (if negative then .negative else .positive) m e hm := by
  rw [ofFloat_eq] at h
  cases hu : Double.unpacked x with
  | notANumber => rw [hu] at h; cases h
  | infinity s => rw [hu] at h; cases h
  | zero s =>
    rw [hu] at h
    injection h with _ hzero
    exact absurd hzero hm.ne
  | finite s m' e' h' =>
    rw [hu] at h
    injection h with hs hm' he
    subst hs hm' he
    cases s <;> rfl

theorem isFinite_iff {x : Float} :
    x.isFinite = true ↔ ∃ negative m e, Binary.ofFloat x = .finite negative m e := by
  change (Double.unpacked x).isFinite = true ↔ _
  rw [ofFloat_eq]
  cases Double.unpacked x with
  | notANumber => exact ⟨nofun, nofun⟩
  | infinity s => exact ⟨nofun, nofun⟩
  | zero s => exact ⟨fun _ => ⟨_, _, _, rfl⟩, fun _ => rfl⟩
  | finite s m e h => exact ⟨fun _ => ⟨_, _, _, rfl⟩, fun _ => rfl⟩

theorem significand_lt {x : Float} {negative : Bool} {m : ℕ} {e : ℤ}
    (h : Binary.ofFloat x = .finite negative m e) : m < 2 ^ 53 := by
  rcases Nat.eq_zero_or_pos m with rfl | hm
  · decide
  · have hstored := Double.stored_unpacked x
    rw [unpacked_of_ofFloat hm h] at hstored
    exact hstored.1.lt

/-! ## Bits from their meaning -/

def word (negative : Bool) (significand : ℕ) (exponent : ℤ) : ℕ :=
  (if negative then signBit else 0) +
    if significand < leastNormal then significand
    else (exponent + 1075).toNat * leastNormal + (significand - leastNormal)

theorem toNat_eq_word {bits : UInt64} {negative : Bool} {significand : ℕ} {exponent : ℤ}
    (h : Binary.ofBits bits = .finite negative significand exponent) :
    bits.toNat = word negative significand exponent := by
  have hlt : bits.toNat < 2 * signBit := bits.toNat_lt
  have hpositive : (if decide (signBit ≤ bits.toNat) = true then signBit else 0) =
      signBit * (bits.toNat / signBit) := by
    rcases lt_or_ge bits.toNat signBit with hsmall | hlarge
    · rw [decide_eq_false hsmall.not_ge, Nat.div_eq_of_lt hsmall]
      rfl
    · have hone : bits.toNat / signBit = 1 := Nat.div_eq_of_lt_le (by omega) (by omega)
      rw [decide_eq_true hlarge, hone]
      rfl
  unfold Binary.ofBits at h
  simp only at h
  split at h
  · split at h <;> cases h
  · split at h
    · cases h
      rw [word, hpositive, if_pos (Nat.mod_lt _ (by decide))]
      simp only [signBit, leastNormal] at *
      omega
    · cases h
      rw [word, hpositive, if_neg (by omega)]
      simp only [signBit, leastNormal] at *
      omega

theorem exponent_of_zero {bits : UInt64} {negative : Bool} {exponent : ℤ}
    (h : Binary.ofBits bits = .finite negative 0 exponent) : exponent = leastExponent := by
  unfold Binary.ofBits at h
  simp only at h
  split at h
  · split at h <;> cases h
  · split at h
    · injection h with _ _ hexponent
      exact hexponent.symm
    · injection h with _ hzero
      exact absurd hzero (Nat.add_pos_right _ (by decide)).ne'

/-- A finite double is determined by its sign, significand and exponent. -/
theorem eq_of_ofFloat {x y : Float} {negative : Bool} {significand : ℕ} {exponent : ℤ}
    (hx : Binary.ofFloat x = .finite negative significand exponent)
    (hy : Binary.ofFloat y = .finite negative significand exponent) : x = y := by
  have hbits : x.toModel.toBits = y.toModel.toBits :=
    UInt64.toNat_inj.1 ((toNat_eq_word hx).trans (toNat_eq_word hy).symm)
  obtain ⟨⟨_, _⟩⟩ := x
  obtain ⟨⟨_, _⟩⟩ := y
  cases hbits
  rfl

end Backtest.Decimal
