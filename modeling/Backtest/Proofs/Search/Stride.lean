import Mathlib.Algebra.Order.Floor.Div
import Backtest.Proofs.Search.Grid
import Backtest.Scalar.Extended

/-!
# Even strides

A grid with more points than a search may take is thinned to an even stride. It starts at the first
point, its steps differ by at most one, and no longer stretch is left after the last point. The
product that gives an index may not fit one word, but it fits two.
-/

namespace Backtest

namespace Enumeration

/-! ## Steps -/

theorem ceilDiv_of_mod_pos {total cap : Nat} (hcap : 0 < cap) (hmod : 0 < total % cap) :
    total ⌈/⌉ cap = total / cap + 1 := by
  have hlt := Nat.mod_lt total hcap
  have hexact := Nat.div_add_mod total cap
  have hsum : total + cap - 1 = cap * (total / cap + 1) + (total % cap - 1) := by
    rw [Nat.mul_add_one]
    omega
  have hrest : (total % cap - 1) / cap = 0 := Nat.div_eq_of_lt (by omega)
  rw [Nat.ceilDiv_eq_add_pred_div, hsum, Nat.mul_add_div hcap, hrest, Nat.add_zero]

/-- One step is the quotient of points and cap, rounded down or up. -/
theorem stride_succ (total i : Nat) {cap : Nat} (hcap : 0 < cap) :
    stride total cap (i + 1) = stride total cap i + total / cap ∨
      stride total cap (i + 1) = stride total cap i + total ⌈/⌉ cap := by
  have hstep : stride total cap (i + 1) = (i * total + total) / cap := by
    rw [stride, Nat.succ_mul]
  rw [hstep, Nat.add_div hcap]
  split
  · -- the remainders make up one more, so the quotient is not exact
    rename_i hcarry
    have hrest := Nat.mod_lt (i * total) hcap
    rw [ceilDiv_of_mod_pos hcap (by omega)]
    exact .inr rfl
  · exact .inl rfl

/-- The step after the last index ends the grid. -/
theorem stride_cap (total : Nat) {cap : Nat} (hcap : 0 < cap) : stride total cap cap = total :=
  Nat.mul_div_cancel_left total hcap

theorem le_stride_add_ceilDiv (total : Nat) {cap : Nat} (hcap : 0 < cap) :
    total ≤ stride total cap (cap - 1) + total ⌈/⌉ cap := by
  have hend := stride_cap total hcap
  have hle : total ⌊/⌋ cap ≤ total ⌈/⌉ cap := floorDiv_le_ceilDiv
  rw [Nat.floorDiv_eq_div] at hle
  have hstep := stride_succ total (cap - 1) hcap
  rw [Nat.sub_add_cancel hcap, hend] at hstep
  omega

/-! ## Words -/

/-- An index in machine words: the product in two of them, the quotient cut to one. -/
def wordStride (total cap i : UInt64) : UInt64 :=
  let wide (n : UInt64) : BitVec 128 := n.toBitVec.setWidth 128
  ⟨(wide i * wide total / wide cap).setWidth 64⟩

theorem mul_lt_two_words {a b : Nat} (ha : a ≤ maxCount) (hb : b ≤ maxCount) :
    a * b < 2 ^ 128 :=
  calc a * b ≤ maxCount * maxCount := Nat.mul_le_mul ha hb
    _ < 2 ^ 128 := by decide

theorem toNat_wordStride {total cap i : UInt64} (hcap : cap < total) (hi : i < cap) :
    (wordStride total cap i).toNat = stride total.toNat cap.toNat i.toNat := by
  have hwide (n : UInt64) : (n.toBitVec.setWidth 128).toNat = n.toNat := by
    rw [BitVec.toNat_setWidth, UInt64.toNat_toBitVec, Nat.mod_eq_of_lt]
    exact n.toNat_lt.trans (by decide)
  have hproduct : i.toNat * total.toNat < 2 ^ 128 :=
    mul_lt_two_words (Nat.le_pred_of_lt i.toNat_lt_size) (Nat.le_pred_of_lt total.toNat_lt_size)
  have hindex : stride total.toNat cap.toNat i.toNat < 2 ^ 64 :=
    (stride_lt (UInt64.lt_iff_toNat_lt.1 hcap) (UInt64.lt_iff_toNat_lt.1 hi)).trans total.toNat_lt
  simp only [wordStride, ← UInt64.toNat_toBitVec, BitVec.toNat_setWidth, BitVec.toNat_udiv,
    BitVec.toNat_mul, hwide] at hindex hproduct ⊢
  rw [Nat.mod_eq_of_lt hproduct]
  exact Nat.mod_eq_of_lt hindex

/-! ## The thinned grid -/

/-- The indices that thin a grid of `total` points to `cap` are spread evenly, and machine words
hold what gives them. -/
structure EvenlyStrided (total cap : Nat) : Prop where
  first : stride total cap 0 = 0
  increasing : ∀ i j, i < j → j < cap → stride total cap i < stride total cap j
  below : ∀ i < cap, stride total cap i < total
  next : ∀ i, i + 1 < cap →
    stride total cap (i + 1) = stride total cap i + total / cap ∨
      stride total cap (i + 1) = stride total cap i + total ⌈/⌉ cap
  rest : total - 1 - stride total cap (cap - 1) ≤ total ⌈/⌉ cap - 1
  product : ∀ i < cap, i * total < 2 ^ 128
  words : ∀ i < cap,
    (wordStride (.ofNat total) (.ofNat cap) (.ofNat i)).toNat = stride total cap i

/-- A grid of more points than the cap, in a search that takes as many as the cap, is thinned to
indices that are spread evenly over it. -/
theorem grid_thinned_evenly {total cap : Nat} (hcap : 1 ≤ cap) (hthinned : cap < total)
    (htotal : total ≤ maxCount) :
    EvenlyStrided total cap ∧
      ∀ (α : Type) [Scalar α] (space : Space α), space.size = total →
        (ofGrid space cap).candidates =
          (List.range cap).map fun i => space.gridPoint (stride total cap i) := by
  have hword {n : Nat} (hn : n ≤ maxCount) : (UInt64.ofNat n).toNat = n :=
    UInt64.toNat_ofNat_of_lt (Nat.lt_of_le_pred (by decide) hn)
  refine ⟨?_, fun α _ space hsize => ?_⟩
  · exact
      { first := by rw [stride, Nat.zero_mul, Nat.zero_div]
        increasing := fun i j hij hj => stride_lt_stride hthinned (hij.trans hj) hij
        below := fun i hi => stride_lt hthinned hi
        next := fun i _ => stride_succ total i hcap
        rest := by
          have hle := le_stride_add_ceilDiv total hcap
          omega
        product := fun i hi => mul_lt_two_words (by omega) htotal
        words := fun i hi => by
          have hi' : (UInt64.ofNat i).toNat = i := hword (by omega)
          have hcap' : (UInt64.ofNat cap).toNat = cap := hword (by omega)
          have htotal' : (UInt64.ofNat total).toNat = total := hword htotal
          rw [toNat_wordStride, hi', hcap', htotal']
          · rw [UInt64.lt_iff_toNat_lt, hcap', htotal']
            exact hthinned
          · rw [UInt64.lt_iff_toNat_lt, hi', hcap']
            exact hi }
  · rw [ofGrid, if_neg (by omega), hsize]

def tenLevels : Space Extended := .ofSchema ⟨[.int "level" 0 9 1 0]⟩

/-- Ten levels thinned to four, and the largest grid to seven, where the products pass a word. -/
theorem grid_thinned_evenly_tenLevels :
    1 ≤ 4 ∧ 4 < 10 ∧ 10 ≤ maxCount ∧ tenLevels.size = 10 ∧
      (ofGrid tenLevels 4).candidates = [0, 2, 5, 7].map tenLevels.gridPoint ∧
      EvenlyStrided maxCount 7 := by
  have hsize : tenLevels.size = 10 := by decide
  obtain ⟨-, hcandidates⟩ := @grid_thinned_evenly 10 4 (by decide) (by decide) (by decide)
  obtain ⟨heven, -⟩ := @grid_thinned_evenly maxCount 7 (by decide) (by decide) le_rfl
  exact ⟨by decide, by decide, by decide, hsize, hcandidates _ tenLevels hsize, heven⟩

end Enumeration

end Backtest
