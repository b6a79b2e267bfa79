import Mathlib.Data.List.Nodup
import Mathlib.Data.Nat.ModEq
import Mathlib.Data.Int.ModEq
import Backtest.Proofs.Parameter.Resolution
import Backtest.Scalar.Double

/-!
# Values of a range

What a range gives out, on its grid or by a draw, is of its own kind. The grid of an integer range
whose bounds are less than `2 ^ 63` apart lies within them and gives no value twice; the steps of a
wider one may come round. That of a choice gives a value twice exactly where an option is listed
twice.
-/

namespace Backtest.Parameter

/-- Integers of 64 bits are told apart by their remainders. -/
theorem ofInt_eq_ofInt_iff {a b : Int} :
    Int64.ofInt a = Int64.ofInt b ↔ a ≡ b [ZMOD (2 ^ 64 : Nat)] := by
  rw [← Int64.toInt_inj, Int64.toInt_ofInt, Int64.toInt_ofInt]
  constructor
  · intro h
    have hrest := congrArg (· % (Int64.size : Int)) h
    simp only [Int.bmod_emod] at hrest
    exact hrest
  · intro h
    change a % (Int64.size : Int) = b % (Int64.size : Int) at h
    rw [← Int.emod_bmod, h, Int.emod_bmod]

variable {α : Type} [Scalar α]

namespace Domain

theorem kind_gridValue (d : Domain α) (i : Nat) : (d.gridValue i).kind = d.kind := by
  cases d <;> rfl

theorem kind_sample [Random.Uniform α] (d : Domain α) (g : Random.Generator) :
    (d.sample g).1.kind = d.kind := by
  cases d with
  | int low high step value => rfl
  | float low high step value =>
    simp only [sample]
    split <;> rfl
  | choice options value => rfl

/-- The distance of integer bounds is an integer of 64 bits. -/
def Spans : Domain α → Prop
  | .int low high _ _ => high.toInt - low.toInt ≤ Int64.maxValue.toInt
  | _ => True

instance : (d : Domain α) → Decidable d.Spans
  | .int low high _ _ =>
    inferInstanceAs (Decidable (high.toInt - low.toInt ≤ Int64.maxValue.toInt))
  | .float .. | .choice .. => isTrue trivial

variable {low high step value : Int64} {i j : Nat}

omit [Scalar α] in
theorem spans_int_iff :
    (int low high step value : Domain α).Spans ↔ high.toInt - low.toInt < 2 ^ 63 := by
  rw [Spans, Int64.toInt_maxValue]
  omega

theorem bounds_iff :
    ¬(high < low ∨ step ≤ 0) ↔ low.toInt ≤ high.toInt ∧ 0 < step.toInt := by
  rw [not_or, Int64.not_lt, Int64.le_iff_toInt_le, Int64.not_le, Int64.lt_iff_toInt_lt,
    Int64.toInt_zero]

theorem bounds_of_gridLength_pos (h : 0 < (int low high step value : Domain α).gridLength) :
    low.toInt ≤ high.toInt ∧ 0 < step.toInt := by
  rw [gridLength] at h
  split at h
  · exact absurd h (Nat.not_lt_zero 0)
  · exact bounds_iff.1 ‹_›

/-- Between bounds that are not too far apart no count starts over. -/
theorem gridLength_int (hordered : low.toInt ≤ high.toInt) (hstep : 0 < step.toInt)
    (hspans : (int low high step value : Domain α).Spans) :
    (int low high step value : Domain α).gridLength =
      ((high.toInt - low.toInt) / step.toInt).toNat + 1 := by
  rw [spans_int_iff] at hspans
  have hdistance : (high - low).toInt = high.toInt - low.toInt := by
    rw [Int64.toInt_sub]
    exact Int.bmod_eq_of_le (by omega) (by omega)
  have hnonneg := Int.ediv_nonneg (Int.sub_nonneg_of_le hordered) hstep.le
  have hle := Int.ediv_le_self step.toInt (Int.sub_nonneg_of_le hordered)
  have hcount : ((high - low) / step).toInt = (high.toInt - low.toInt) / step.toInt := by
    rw [Int64.toInt_div, hdistance, Int.tdiv_eq_ediv_of_nonneg (Int.sub_nonneg_of_le hordered)]
    exact Int.bmod_eq_of_le (by omega) (by omega)
  have hword : ((high - low) / step).toUInt64.toNat =
      ((high.toInt - low.toInt) / step.toInt).toNat := by
    rw [Int64.toNat_toUInt64_of_le, Int64.toNatClampNeg, hcount]
    rw [Int64.le_iff_toInt_le, hcount]
    exact hnonneg
  rw [gridLength, if_neg (bounds_iff.2 ⟨hordered, hstep⟩), UInt64.toNat_add, hword]
  exact Nat.mod_eq_of_lt (by simp only [UInt64.toNat_one]; omega)

/-- Of bounds that are not too far apart, no grid point passes the upper one. -/
theorem gridStep_le (hspans : (int low high step value : Domain α).Spans)
    (hi : i < (int low high step value : Domain α).gridLength) :
    0 < step.toInt ∧ low.toInt + step.toInt * i ≤ high.toInt := by
  obtain ⟨hordered, hstep⟩ := bounds_of_gridLength_pos (Nat.zero_lt_of_lt hi)
  rw [gridLength_int hordered hstep hspans] at hi
  have hcount := Int.ediv_nonneg (Int.sub_nonneg_of_le hordered) hstep.le
  have hsteps : (i : Int) ≤ (high.toInt - low.toInt) / step.toInt := by omega
  have hinside : step.toInt * i ≤ high.toInt - low.toInt :=
    (Int.mul_le_mul_of_nonneg_left hsteps hstep.le).trans (Int.mul_ediv_self_le hstep.ne')
  exact ⟨hstep, by omega⟩

/-- Grid points of such a range are exact. -/
theorem toInt_gridValue (hspans : (int low high step value : Domain α).Spans)
    (hi : i < (int low high step value : Domain α).gridLength) :
    (Int64.ofInt (low.toInt + step.toInt * i)).toInt = low.toInt + step.toInt * i := by
  obtain ⟨hstep, hinside⟩ := gridStep_le hspans hi
  have hgrows : 0 ≤ step.toInt * i := Int.mul_nonneg hstep.le (Int.natCast_nonneg i)
  have hlow := low.le_toInt
  have hhigh := high.toInt_lt
  exact Int64.toInt_ofInt_of_le (by omega) (by omega)

/-- Steps from an integer come round to it once their sum is a multiple of `2 ^ 64`. -/
theorem gridValue_int_eq_iff (hstep : 0 < step.toInt) :
    (int low high step value : Domain α).gridValue i =
        (int low high step value : Domain α).gridValue j ↔
      i ≡ j [MOD 2 ^ 64 / Nat.gcd (2 ^ 64) step.toInt.toNat] := by
  obtain ⟨s, hs⟩ := Int.eq_ofNat_of_zero_le hstep.le
  have hwords : (int low high step value : Domain α).gridValue i =
      (int low high step value : Domain α).gridValue j ↔ s * i ≡ s * j [MOD 2 ^ 64] := by
    simp only [gridValue, Value.int.injEq, ofInt_eq_ofInt_iff, hs]
    rw [← Int.natCast_modEq_iff, Int.natCast_mul, Int.natCast_mul]
    exact ⟨Int.ModEq.add_left_cancel' low.toInt, Int.ModEq.add_left low.toInt⟩
  rw [hwords, hs, Int.toNat_natCast]
  constructor
  · exact Nat.ModEq.cancel_left_div_gcd (by decide)
  · intro h
    refine (h.mul_left' s).of_dvd ?_
    rw [← Nat.mul_div_assoc s (Nat.gcd_dvd_left _ _), Nat.mul_comm s,
      Nat.mul_div_assoc _ (Nat.gcd_dvd_right _ _)]
    exact Nat.dvd_mul_right _ _

/-- An integer range repeats a value exactly if its steps come round within the grid. -/
theorem nodup_gridValues_int_iff :
    (int low high step value : Domain α).gridValues.Nodup ↔
      (int low high step value : Domain α).gridLength * Nat.gcd (2 ^ 64) step.toInt.toNat ≤
        2 ^ 64 := by
  rcases Nat.eq_zero_or_pos (int low high step value : Domain α).gridLength with hzero | hpos
  · simp [gridValues, hzero]
  obtain ⟨-, hstep⟩ := bounds_of_gridLength_pos hpos
  have hgcd : 0 < Nat.gcd (2 ^ 64) step.toInt.toNat := Nat.gcd_pos_of_pos_left _ (by decide)
  rw [gridValues, List.nodup_map_iff_inj_on List.nodup_range, ← Nat.le_div_iff_mul_le hgcd]
  simp only [List.mem_range, gridValue_int_eq_iff hstep]
  constructor
  · intro h
    by_contra hlong
    have hround := h _ (not_le.1 hlong) 0 hpos (Nat.modEq_zero_iff_dvd.2 dvd_rfl)
    have hperiod := Nat.div_pos (Nat.gcd_le_left step.toInt.toNat (by decide : 0 < 2 ^ 64)) hgcd
    omega
  · exact fun h i hi j hj hround => hround.eq_of_lt_of_lt (hi.trans_le h) (hj.trans_le h)

-- the distance of these bounds is taken for -16, so the steps of 8 are taken for `2 ^ 64 - 2`
example : ¬(int Int64.minValue (Int64.maxValue - 15) 8 0 : Domain Float).gridValues.Nodup := by
  rw [nodup_gridValues_int_iff]
  decide +kernel

theorem nodup_gridValues_int (hspans : (int low high step value : Domain α).Spans) :
    (int low high step value : Domain α).gridValues.Nodup := by
  refine List.Nodup.map_on (fun i hi j hj h => ?_) List.nodup_range
  rw [List.mem_range] at hi hj
  have hsame := congrArg Int64.toInt (Value.int.inj h)
  rw [toInt_gridValue hspans hi, toInt_gridValue hspans hj, Int.add_right_inj] at hsame
  exact Int.ofNat.inj (Int.eq_of_mul_eq_mul_left (gridStep_le hspans hi).1.ne' hsame)

theorem nodup_gridValues_choice_iff {options : List String} {value : String} :
    (choice options value : Domain α).gridValues.Nodup ↔ options.Nodup := by
  have hvalues : (choice options value : Domain α).gridValues = options.map .choice := by
    refine List.ext_getElem (by simp [gridValues, gridLength]) fun i hi hi' => ?_
    have hlt : i < options.length := by simpa using hi'
    simp [gridValues, gridValue, hlt]
  rw [hvalues]
  exact List.nodup_map_iff fun _ _ => Value.choice.inj

end Domain

theorem Declaration.check_eq_ok_iff {d : Declaration α} :
    d.check = .ok () ↔ d.domain.fault? = none := by
  unfold check
  cases d.domain.fault? <;> simp

end Backtest.Parameter
