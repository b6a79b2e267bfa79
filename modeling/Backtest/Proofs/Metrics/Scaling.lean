import Backtest.Metrics.Basic
import Backtest.Proofs.Scalar.Scaling

/-!
# Figures in another unit

An equity curve enters its figures by its length, in comparisons with zero, and in quotients of two
of its values. So on exact numbers no figure depends on the unit of the curve, whatever roots and
powers are, and whatever the curve holds: it may touch zero, run below it, or miss values.
-/

namespace Backtest.Metrics

open Scalar
open Extended (finite)

section

variable {k : ℚ} (hk : 0 < k) (equity : List Extended)
include hk

theorem periodReturn_scale (before after : Extended) :
    periodReturn (finite k * before) (finite k * after) = periodReturn before after := by
  simp only [periodReturn, Extended.zero_lt_scale hk, Extended.scale_div_scale hk]

theorem periodReturns_scale :
    periodReturns (equity.map (finite k * ·)) = periodReturns equity := by
  simp only [periodReturns, ← List.map_drop, List.zipWith_map, periodReturn_scale hk]

theorem totalReturnOf_scale :
    totalReturnOf (equity.map (finite k * ·)) = totalReturnOf equity := by
  simp only [totalReturnOf, List.head?_map, List.getLast?_map, List.length_map]
  cases equity.head? with
  | none => rfl
  | some first =>
    cases equity.getLast? with
    | none => rfl
    | some last =>
      simp only [Option.map_some, Extended.zero_lt_scale hk, Extended.scale_div_scale hk]

def Fall.scale (k : ℚ) (f : Fall Extended) : Fall Extended := ⟨finite k * f.peak, f.worst⟩

theorem Fall.step_scale (f : Fall Extended) (x : Extended) :
    (f.scale k).step (finite k * x) = (f.step x).scale k := by
  simp only [Fall.step, Fall.scale, Extended.scale_lt_scale hk, ← apply_ite (finite k * ·),
    Extended.zero_lt_scale hk, Extended.scale_sub hk, Extended.scale_div_scale hk]

theorem Fall.foldl_scale (f : Fall Extended) :
    (equity.map (finite k * ·)).foldl Fall.step (f.scale k) =
      (equity.foldl Fall.step f).scale k := by
  rw [List.foldl_map]
  exact List.foldl_hom (Fall.scale k) fun f x => Fall.step_scale hk f x

theorem maxDrawdownOf_scale :
    maxDrawdownOf (equity.map (finite k * ·)) = maxDrawdownOf equity := by
  cases equity with
  | nil => rfl
  | cons first rest =>
    have hfold := Fall.foldl_scale hk (first :: rest) ⟨first, nat 0⟩
    simp only [maxDrawdownOf, List.map_cons, Fall.scale] at hfold ⊢
    rw [hfold]

variable [Powers Extended] (barsPerYear : Extended)

theorem annualGrowthOf_scale :
    annualGrowthOf (equity.map (finite k * ·)) barsPerYear =
      annualGrowthOf equity barsPerYear := by
  simp only [annualGrowthOf, List.head?_map, List.getLast?_map, List.length_map]
  cases equity.head? with
  | none => rfl
  | some first =>
    cases equity.getLast? with
    | none => rfl
    | some last =>
      simp only [Option.map_some, Extended.scale_le_zero hk, Extended.scale_div_scale hk]

theorem sharpeOf_scale :
    sharpeOf (equity.map (finite k * ·)) barsPerYear = sharpeOf equity barsPerYear := by
  rw [sharpeOf, periodReturns_scale hk, sharpeOf]

theorem sortinoOf_scale :
    sortinoOf (equity.map (finite k * ·)) barsPerYear = sortinoOf equity barsPerYear := by
  rw [sortinoOf, periodReturns_scale hk, sortinoOf]

end

/-- On exact numbers, with any square root and any power: the figures of an equity curve in another
unit are the figures of the curve. -/
theorem compute_in_any_unit [Powers Extended] (k : ℚ) (hk : 0 < k) (equity : List Extended)
    (trades : List (Trade Extended)) (barsPerYear : Extended) :
    compute (equity.map (finite k * ·)) trades barsPerYear = compute equity trades barsPerYear := by
  simp only [compute, totalReturnOf_scale hk, annualGrowthOf_scale hk, sharpeOf_scale hk,
    sortinoOf_scale hk, maxDrawdownOf_scale hk]

def ruinAndRecovery : List Extended :=
  [finite 100, finite 120, finite 90, finite (-30), nat 0, finite 60]

local instance : Powers Extended := Extended.coarsePowers

/-- In cents as in dollars, two fifths are lost in the end and all on the way. -/
theorem compute_in_any_unit_cents :
    (0 : ℚ) < 100 ∧
      compute (ruinAndRecovery.map (finite 100 * ·)) [] standardBarsPerYear =
        compute ruinAndRecovery [] standardBarsPerYear ∧
      (compute (ruinAndRecovery.map (finite 100 * ·)) [] standardBarsPerYear).totalReturn =
        finite (-2 / 5) ∧
      (compute (ruinAndRecovery.map (finite 100 * ·)) [] standardBarsPerYear).maxDrawdown =
        nat 1 := by
  have hsame := compute_in_any_unit 100 (by decide) ruinAndRecovery [] standardBarsPerYear
  refine ⟨by decide, hsame, ?_⟩
  rw [hsame]
  decide +kernel

end Backtest.Metrics
