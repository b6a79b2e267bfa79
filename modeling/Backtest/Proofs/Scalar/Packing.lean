import Backtest.Proofs.Scalar.Rounding

/-!
# Packing of doubles

What a rounded result becomes when it is stored in 64 bits: itself, or an infinity where its
exponent exceeds the range. What is read back from 64 bits is always in the form that a rounding
leaves.
-/

namespace Backtest.Double

open Float.Model
open Float.Model.UnpackedFloat

/-- A stored double: a significand and an exponent, if it has any, in range. -/
def Stored : UnpackedFloat → Prop
  | .finite _ m e _ => Canonical m e ∧ e ≤ 971
  | _ => True

theorem finite_congr (s : Sign) {m m' : ℕ} {e e' : ℤ} {h : 0 < m} {h' : 0 < m'} (hm : m = m')
    (he : e = e') : UnpackedFloat.finite s m e h = .finite s m' e' h' := by
  subst hm he
  rfl

/-! ## Fields -/

theorem sign_packComponents (s : Sign) (e : BitVec 11) (m : BitVec 52) :
    Sign.ofBitVec (unpackSign (packComponents Format.binary64 s e m)) = s := by
  rw [unpackSign_packComponents, Sign.ofBitVec_toBitVec]

theorem toNat_implicit (m : BitVec 52) : (1#1 ++ m).toNat = 2 ^ 52 + m.toNat := by
  rw [BitVec.toNat_append, ← Nat.shiftLeft_add_eq_or_of_lt m.isLt]
  rfl

theorem unpack_normal (s : Sign) {e : BitVec 11} (m : BitVec 52) (hinf : e ≠ -1#11)
    (hzero : e ≠ 0#11) :
    unpack Format.binary64 (packComponents Format.binary64 s e m) =
      .finite s (2 ^ 52 + m.toNat) (e.toNat - 1075) (by omega) := by
  unfold UnpackedFloat.unpack
  simp only [unpackExponent_packComponents, unpackMantissa_packComponents, sign_packComponents]
  rw [if_neg hinf, if_neg hzero]
  exact finite_congr s (toNat_implicit m) rfl

theorem unpack_subnormal (s : Sign) {m : BitVec 52} (hm : 0 < m.toNat) :
    unpack Format.binary64 (packComponents Format.binary64 s 0#11 m) =
      .finite s m.toNat (-1074) hm := by
  have hne : m ≠ 0#52 := by rintro rfl; exact absurd hm (by decide)
  unfold UnpackedFloat.unpack
  simp only [unpackExponent_packComponents, unpackMantissa_packComponents, sign_packComponents]
  rw [if_neg (by decide), if_pos trivial, dif_neg hne]
  exact finite_congr s rfl rfl

theorem stored_unpack (b : BitVec Format.binary64.numBits) :
    Stored (unpack Format.binary64 b) := by
  unfold UnpackedFloat.unpack
  simp only
  split
  · split <;> exact trivial
  · rename_i hinf
    split
    · split
      · exact trivial
      · have hlt : (unpackMantissa b).toNat < 2 ^ 52 := (unpackMantissa b).isLt
        have hexp : (((unpackExponent b).toNat : ℤ) - (Format.binary64.exponentBias + 52) + 1) =
            -1074 := by
          rw [‹unpackExponent b = 0#11›]
          rfl
        refine ⟨⟨hlt.trans (by decide), hexp.ge, .inr hexp⟩, by omega⟩
    · rename_i hzero
      have hlt : (unpackMantissa b).toNat < 2 ^ 52 := (unpackMantissa b).isLt
      have hmax : (unpackExponent b).toNat < 2047 := by
        have hbits : (unpackExponent b).toNat < 2 ^ 11 := (unpackExponent b).isLt
        refine lt_of_le_of_ne (Nat.le_pred_of_lt hbits) fun heq => hinf ?_
        exact BitVec.eq_of_toNat_eq heq
      have hmin : 0 < (unpackExponent b).toNat :=
        Nat.pos_of_ne_zero fun heq => hzero (BitVec.eq_of_toNat_eq heq)
      have hbias : (Format.binary64.exponentBias : ℤ) + (52 : ℕ) = 1075 := rfl
      rw [Stored, toNat_implicit, hbias]
      exact ⟨⟨by omega, by omega, .inl (by omega)⟩, by omega⟩

theorem unpack_pack_of_gt (s : Sign) {m : ℕ} {e : ℤ} (hm : 0 < m) (he : 971 < e) :
    unpack Format.binary64 (pack Format.binary64 (.finite s m e hm)) = .infinity s := by
  have hpack : pack Format.binary64 (.finite s m e hm) = packedInfinity Format.binary64 s := by
    refine if_pos ?_
    change 2048 ≤ (e + 1023 + 52).toNat + 1
    omega
  rw [hpack]
  cases s <;> rfl

/-- The fields of a double in range, with or without the implicit bit. -/
theorem pack_finite (s : Sign) {m : ℕ} {e : ℤ} (hm : 0 < m) (he : e ≤ 971) :
    pack Format.binary64 (.finite s m e hm) =
      if m.log2 + 1 = 53 then
        packComponents Format.binary64 s (BitVec.ofNat 11 (e + 1023 + 52).toNat) (BitVec.ofNat 52 m)
      else packComponents Format.binary64 s 0#11 (BitVec.ofNat 52 m) := by
  have hrange : ¬2048 ≤ (e + 1023 + 52).toNat + 1 := by omega
  exact if_neg hrange

theorem unpack_pack_normal (s : Sign) {m : ℕ} {e : ℤ} (hm : 0 < m) (h : Canonical m e)
    (he : e ≤ 971) (hnormal : 2 ^ 52 ≤ m) :
    unpack Format.binary64 (pack Format.binary64 (.finite s m e hm)) = .finite s m e hm := by
  have hleast := h.least
  have hlog : m.log2 + 1 = 53 :=
    congrArg (· + 1) ((Nat.log2_eq_iff hm.ne').2 ⟨hnormal, h.lt⟩)
  have hexp : (BitVec.ofNat 11 (e + 1023 + 52).toNat).toNat = (e + 1075).toNat := by
    rw [BitVec.toNat_ofNat, Nat.mod_eq_of_lt (by omega)]
    omega
  rw [pack_finite s hm he, if_pos hlog, unpack_normal]
  · refine finite_congr s ?_ (by omega)
    have hlt := h.lt
    rw [BitVec.toNat_ofNat]
    omega
  · intro heq
    rw [heq] at hexp
    change 2047 = _ at hexp
    omega
  · intro heq
    rw [heq] at hexp
    change 0 = _ at hexp
    omega

theorem unpack_pack_subnormal (s : Sign) {m : ℕ} (hm : 0 < m) (hlt : m < 2 ^ 52) :
    unpack Format.binary64 (pack Format.binary64 (.finite s m (-1074) hm)) =
      .finite s m (-1074) hm := by
  have hlog : ¬m.log2 + 1 = 53 := by
    have hlt := (Nat.log2_lt hm.ne').2 hlt
    omega
  have hfull : (BitVec.ofNat 52 m).toNat = m := by
    rw [BitVec.toNat_ofNat, Nat.mod_eq_of_lt hlt]
  rw [pack_finite s hm (by omega), if_neg hlog]
  exact (unpack_subnormal s (m := BitVec.ofNat 52 m) (by rwa [hfull])).trans
    (finite_congr s hfull rfl)

theorem unpack_pack {u : UnpackedFloat} (h : Stored u) :
    unpack Format.binary64 (pack Format.binary64 u) = u := by
  cases u with
  | infinity s => cases s <;> rfl
  | notANumber => rfl
  | zero s => cases s <;> rfl
  | finite s m e hm =>
    obtain ⟨hc, he⟩ := h
    by_cases hnormal : 2 ^ 52 ≤ m
    · exact unpack_pack_normal s hm hc he hnormal
    · obtain rfl : e = -1074 := hc.normal.resolve_left hnormal
      exact unpack_pack_subnormal s hm (not_le.1 hnormal)

end Backtest.Double
