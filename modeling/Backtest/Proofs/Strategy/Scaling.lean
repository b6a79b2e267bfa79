import Backtest.Proofs.Indicator.Scaling
import Backtest.Proofs.Strategy.Window

/-!
# Signals do not depend on the price unit

The registered strategies compare averages of closes with each other, and only what has no unit with
their parameters. So on exact numbers they decide the same when all closes change their unit.
-/

namespace Backtest

open Scalar (nat isNaN)
open Extended (finite)

variable {k : ℚ} {bars bars' : List (Bar Extended)} {indicators : List (Indicator Extended)}

theorem present_scale (hk : 0 < k) (x : Extended) :
    present (finite k * x) = (present x).map (finite k * ·) := by
  unfold present
  rw [Extended.isNaN_scale hk]
  split <;> rfl

namespace IndicatorTable

theorem compute_homogeneous (h : ∀ i ∈ indicators, i.Homogeneous) (hk : 0 < k)
    (hbars : Rescaled k bars bars') :
    compute bars' indicators =
      (compute bars indicators).map fun column => column.map (finite k * ·) := by
  unfold compute
  rw [NameMap.map_ofList, List.map_map]
  congr 1
  refine List.map_congr_left fun i hi => ?_
  simp [h i hi hk hbars]

theorem compute_unitless (h : ∀ i ∈ indicators, i.Unitless) (hk : 0 < k)
    (hbars : Rescaled k bars bars') : compute bars' indicators = compute bars indicators := by
  unfold compute
  congr 1
  refine List.map_congr_left fun i hi => ?_
  rw [h i hi hk hbars]

/-- What a view of homogeneous series shows is in the unit of the closes. -/
theorem latest?_homogeneous (h : ∀ i ∈ indicators, i.Homogeneous) (hk : 0 < k)
    (hbars : Rescaled k bars bars') (index : ℕ) (name : String) :
    ((compute bars' indicators).view index).latest? name =
      (((compute bars indicators).view index).latest? name).map (finite k * ·) := by
  rw [compute_homogeneous h hk hbars]
  simp only [IndicatorView.latest?, view, raw?, Nat.lt_irrefl, if_false, NameMap.get?_map]
  cases NameMap.get? (compute bars indicators) name with
  | none => rfl
  | some column =>
    simp only [Option.map_some, Option.bind_some, Array.getElem?_map]
    cases column[index]? with
    | none => rfl
    | some x => exact present_scale hk x

end IndicatorTable

namespace Strategy

def Unitless (strategy : Strategy Extended) : Prop :=
  ∀ {k : ℚ} {bars bars' : List (Bar Extended)}, 0 < k → Rescaled k bars bars' →
    ∀ parameters, strategy.decide (.ofSeries bars') parameters =
      strategy.decide (.ofSeries bars) parameters

/-- Series of one length are decided alike if their tables are evaluated alike. -/
theorem onHistory_congr {α : Type} [Scalar α] {bars bars' : List (Bar α)}
    {indicators : Except (Fault α) (List (Indicator α))}
    {evaluate evaluate' : IndicatorView α → Except (Fault α) (Signal α)}
    (hlength : bars'.length = bars.length)
    (heval : ∀ is, indicators = .ok is →
      evaluate' ((IndicatorTable.compute bars' is).view (bars.length - 1)) =
        evaluate ((IndicatorTable.compute bars is).view (bars.length - 1))) :
    onHistory (.ofSeries bars') indicators evaluate' =
      onHistory (.ofSeries bars) indicators evaluate := by
  rw [onHistory_ofSeries, onHistory_ofSeries, hlength]
  split
  · rfl
  · cases indicators with
    | error e => rfl
    | ok is => exact heval is rfl

end Strategy

theorem buyAndHold_unitless : (buyAndHold : Strategy Extended).Unitless := fun _ _ _ => rfl

theorem Crossover.unitless : (Crossover.strategy : Strategy Extended).Unitless := by
  intro k bars bars' hk hbars parameters
  simp only [strategy]
  refine Strategy.onHistory_congr hbars.length_eq fun is h => ?_
  obtain ⟨s, hsettings, hpure⟩ := bind_eq_ok_iff.1 h
  have hkind (period : ℕ) : (s.kind.indicator period : Indicator Extended).Homogeneous := by
    cases s.kind with
    | simple => exact SimpleAverage.homogeneous period
    | exponential => exact ExponentialAverage.homogeneous period
  have hhomogeneous : ∀ i ∈ is, i.Homogeneous := by
    rw [← pure_eq_ok_iff.1 hpure]
    simp [hkind]
  have hview := IndicatorTable.latest?_homogeneous hhomogeneous hk hbars (bars.length - 1)
  rw [evaluate_eq hsettings, evaluate_eq hsettings, History.length_ofSeries,
    History.length_ofSeries, hbars.length_eq, hview, hview]
  cases ((IndicatorTable.compute bars is).view (bars.length - 1)).latest?
      (s.kind.seriesName s.fast) with
  | none => rfl
  | some fast =>
    cases ((IndicatorTable.compute bars is).view (bars.length - 1)).latest?
        (s.kind.seriesName s.slow) with
    | none => rfl
    | some slow => simp only [Option.map_some, Extended.scale_lt_scale hk]

theorem Threshold.unitless : (Threshold.strategy : Strategy Extended).Unitless := by
  intro k bars bars' hk hbars parameters
  simp only [strategy]
  refine Strategy.onHistory_congr hbars.length_eq fun is h => ?_
  obtain ⟨period, -, hpure⟩ := bind_eq_ok_iff.1 h
  have hunitless : ∀ i ∈ is, i.Unitless := by
    rw [← pure_eq_ok_iff.1 hpure]
    simp [RelativeStrength.unitless]
  rw [IndicatorTable.compute_unitless hunitless hk hbars]
  rfl

theorem Momentum.unitless : (Momentum.strategy : Strategy Extended).Unitless := by
  intro k bars bars' hk hbars parameters
  simp only [strategy, decide, RateOfChange.latest_rescaled _ hk hbars]

namespace Strategy

/-- On exact numbers every registered strategy decides over any series the same as over a series
with the closes in another unit: the same signal or the same fault, whatever its parameters and
whatever closes are missing or infinite. -/
theorem decide_rescaled (strategy : Strategy Extended)
    (hregistered : strategy ∈ (Registry.builtins : Registry Extended).list)
    (parameters : Parameter.Assignment Extended) (k : ℚ) (hk : 0 < k)
    (bars bars' : List (Bar Extended)) (hbars : Rescaled k bars bars') :
    strategy.decide (.ofSeries bars') parameters = strategy.decide (.ofSeries bars) parameters := by
  rcases Registry.mem_builtins_iff.1 hregistered with rfl | rfl | rfl | rfl
  · exact buyAndHold_unitless hk hbars parameters
  · exact Crossover.unitless hk hbars parameters
  · exact Momentum.unitless hk hbars parameters
  · exact Threshold.unitless hk hbars parameters

def fallInDollars : List (Bar Extended) :=
  [.still 2 (finite 100), .still 3 (finite 96), .still 4 .nan, .still 5 (finite 90),
    .still 8 (finite 92)]

def fallInCents : List (Bar Extended) :=
  fallInDollars.map fun b => { b with close := finite 100 * b.close }

def thirtyToSeventy : Parameter.Assignment Extended :=
  .ofList [("period", .int 2), ("lower", .float (finite 30)), ("upper", .float (finite 70))]

/-- A relative strength of 200/7 is below the lower bound, in dollars as in cents. -/
theorem decide_rescaled_fall :
    (Threshold.strategy : Strategy Extended) ∈ Registry.builtins.list ∧ (0 : ℚ) < 100 ∧
      Rescaled 100 fallInDollars fallInCents ∧
      Threshold.strategy.decide (.ofSeries fallInCents) thirtyToSeventy =
        Threshold.strategy.decide (.ofSeries fallInDollars) thirtyToSeventy ∧
      (Threshold.strategy.decide (.ofSeries fallInCents) thirtyToSeventy).toOption.bind
        Signal.weight? = some (nat 1) := by
  have hmem : (Threshold.strategy : Strategy Extended) ∈ Registry.builtins.list :=
    Registry.mem_builtins_iff.2 (.inr (.inr (.inr rfl)))
  have hbars : Rescaled 100 fallInDollars fallInCents := rfl
  have hsame := decide_rescaled _ hmem thirtyToSeventy 100 (by decide) _ _ hbars
  refine ⟨hmem, by decide, hbars, hsame, ?_⟩
  rw [hsame]
  decide +kernel

end Strategy

end Backtest
