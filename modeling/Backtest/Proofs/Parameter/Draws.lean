import Backtest.Proofs.Parameter.Acceptance
import Backtest.Proofs.Scalar.Product

/-!
# Drawn values are admitted

Each point of a range's grid and each random draw from it is one of its values: an index that is
drawn stays below its bound, steps up from the lower bound never lead below it, and the last one is
cut off at the upper bound. Of draws between two doubles it is assumed that they stay between them.
-/

namespace Backtest

/-! ## Indices -/

namespace Random

theorem drawIndex_lt {bits : ℕ} {draw : Generator → ℕ × Generator}
    (hdraw : ∀ g, (draw g).1 < 2 ^ bits) {bound : ℕ} (hbound : 0 < bound) (fuel : ℕ)
    (g : Generator) : (drawIndex bits draw bound fuel g).1 < bound := by
  have hscaled : ∀ g, (draw g).1 * bound / 2 ^ bits < bound := fun g =>
    Nat.div_lt_of_lt_mul (Nat.mul_lt_mul_of_pos_right (hdraw g) hbound)
  induction fuel generalizing g with
  | zero => exact hscaled g
  | succ fuel ih =>
    simp only [drawIndex]
    split
    · exact hscaled g
    · exact ih _

theorem longWord_lt (g : Generator) : g.longWord.1 < 2 ^ 64 := by
  have hlow := g.word.1.toNat_lt
  have hhigh := g.word.2.word.1.toNat_lt
  simp only [Generator.longWord, UInt32.size]
  omega

theorem index_lt {bound : ℕ} (hbound : 0 < bound) (g : Generator) : (index bound g).1 < bound :=
  drawIndex_lt longWord_lt hbound _ g

theorem shortIndex_lt {bound : ℕ} (hbound : 0 < bound) (g : Generator) :
    (shortIndex bound g).1 < bound :=
  drawIndex_lt (fun g => g.word.1.toNat_lt) hbound _ g

theorem exists_choose_eq_some {β : Type} {xs : List β} (h : xs ≠ []) (g : Generator) :
    ∃ x ∈ xs, (choose xs g).1 = some x := by
  have hpos := List.length_pos_of_ne_nil h
  have hempty : xs.isEmpty = false := by simpa using h
  by_cases hshort : xs.length < UInt32.size
  · refine ⟨_, List.getElem_mem (shortIndex_lt hpos g), ?_⟩
    simp [choose, hempty, hshort, shortIndex_lt hpos g]
  · refine ⟨_, List.getElem_mem (index_lt hpos g), ?_⟩
    simp [choose, hempty, hshort, index_lt hpos g]

/-- What is drawn between two different numbers lies between them. -/
def Uniform.StaysInside (α : Type) [Scalar α] [Uniform α] : Prop :=
  ∀ (low high : α) (g : Generator), Scalar.isFinite low = true → Scalar.isFinite high = true →
    low < high → Scalar.isNaN (between low high g).1 = false ∧ ¬(between low high g).1 < low ∧
      ¬high < (between low high g).1

end Random

/-! ## Values -/

namespace Parameter.Domain

theorem admits_gridValue_int {α : Type} [Scalar α] {low high step value : Int64} {i : ℕ}
    (hspans : (int low high step value : Domain α).Spans)
    (hi : i < (int low high step value : Domain α).gridLength) :
    (int low high step value : Domain α).Admits
      ((int low high step value : Domain α).gridValue i) := by
  obtain ⟨hstep, hinside⟩ := gridStep_le hspans hi
  have hexact := toInt_gridValue hspans hi
  have hgrows : 0 ≤ step.toInt * i := Int.mul_nonneg hstep.le (Int.natCast_nonneg i)
  simp only [gridValue, Admits, Int64.not_lt, Int64.le_iff_toInt_le, hexact]
  omega

variable {low high step value : Float}

theorem isNaN_bounds (h : (float low high step value).fault? = none) :
    Scalar.isNaN low = false ∧ Scalar.isNaN high = false := by
  obtain ⟨⟨hlow, hhigh, -⟩, -⟩ := fault?_float_eq_none_iff.1 h
  exact ⟨Reading.isNaN_of_isFinite hlow, Reading.isNaN_of_isFinite hhigh⟩

/-- The last step is cut off at the upper bound, and none leads below the lower one. -/
theorem admits_gridValue_float (h : (float low high step value).fault? = none) {i : ℕ}
    (hi : i < 2 ^ 64) :
    (float low high step value).Admits ((float low high step value).gridValue i) := by
  obtain ⟨⟨hlow, -, hstep⟩, hordered, hpositive, -⟩ := fault?_float_eq_none_iff.1 h
  obtain ⟨hnlow, hnhigh⟩ := isNaN_bounds h
  have hnstep := Reading.isNaN_of_isFinite hstep
  rw [Reading.not_lt_iff hnhigh hnlow] at hordered
  have hpos : Scalar.nat 0 < step := by
    rw [Reading.lt_iff Reading.isNaN_zero hnstep]
    rw [Double.le_iff hnstep Reading.isNaN_zero, not_le] at hpositive
    exact hpositive
  obtain ⟨hncount, hcount⟩ := Double.nat_nonneg hi
  obtain ⟨hnsteps, hsteps⟩ := Double.mul_nonneg hstep hpos hncount hcount
  obtain ⟨hnsum, hsum⟩ := Double.le_add hlow hnsteps hsteps
  simp only [gridValue, Admits, Scalar.smaller, hnhigh, Bool.false_eq_true, if_false]
  split
  · rename_i hbelow
    refine ⟨hnsum, (Reading.not_lt_iff hnsum hnlow).2 hsum, ?_⟩
    rw [Reading.lt_iff hnsum hnhigh] at hbelow
    exact (Reading.not_lt_iff hnhigh hnsum).2 hbelow.le
  · exact ⟨hnhigh, (Reading.not_lt_iff hnhigh hnlow).2 hordered,
      (Reading.not_lt_iff hnhigh hnhigh).2 le_rfl⟩

variable {d : Domain Float}

/-- A digit of a grid index stands for a value of the range, also where the count of a number range
has started over. -/
theorem admits_gridValue (h : d.fault? = none) (hspans : d.Spans) {i : ℕ}
    (hi : i < max d.gridLength 1) : d.Admits (d.gridValue i) := by
  cases d with
  | int low high step value =>
    obtain ⟨hordered, hstep⟩ := bounds_of_fault?_int h
    have hlength := gridLength_int hordered hstep hspans
    exact admits_gridValue_int hspans (by omega)
  | float low high step value =>
    refine admits_gridValue_float h (hi.trans_le ?_)
    simp only [gridLength]
    split
    · decide
    · have := Nat.mod_lt (Scalar.floorUpTo maxCount
        ((high - low) / step + gridTolerance) + 1) (Nat.succ_pos maxCount)
      simp only [maxCount, UInt64.size] at this ⊢
      omega
  | choice options value =>
    obtain ⟨hoptions, -⟩ := fault?_choice_eq_none_iff.1 h
    have hpos := List.length_pos_of_ne_nil hoptions
    have hlt : i < options.length := by
      simp only [gridLength] at hi
      omega
    simp [gridValue, Admits, hlt]

theorem admits_sample [Random.Uniform Float] (hdraws : Random.Uniform.StaysInside Float)
    (h : d.fault? = none) (hspans : d.Spans) (g : Random.Generator) :
    d.Admits (d.sample g).1 := by
  cases d with
  | int low high step value =>
    exact admits_gridValue h hspans (Random.index_lt (by omega) g)
  | float low high step value =>
    obtain ⟨⟨hlow, hhigh, -⟩, hordered, -⟩ := fault?_float_eq_none_iff.1 h
    by_cases hlt : low < high
    · simpa [sample, hlt, Admits] using hdraws low high g hlow hhigh hlt
    · have hn := Reading.isNaN_of_isFinite hlow
      simpa [sample, hlt, Admits, hordered, hn] using (Reading.not_lt_iff hn hn).2 le_rfl
  | choice options value =>
    obtain ⟨hoptions, -⟩ := fault?_choice_eq_none_iff.1 h
    obtain ⟨c, hc, hchosen⟩ := Random.exists_choose_eq_some hoptions g
    simpa [sample, Admits, hchosen] using hc

end Parameter.Domain

end Backtest
