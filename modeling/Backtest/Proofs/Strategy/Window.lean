import Backtest.Proofs.Simulation.Foresight

/-!
# Series computed once

A strategy that reads indicator series may be given them computed once over a whole run, or anew
over each history. Either way it decides the same at every bar, faults included: what a view shows
up to a bar is what the series of that history show. No property of the arithmetic is used.
-/

namespace Backtest

variable {α : Type} [Scalar α]

namespace Strategy

/-- The decision from a history alone evaluates the series declared, computed over that history. -/
def Windowed (strategy : Strategy α) : Prop :=
  ∀ history parameters,
    strategy.decide history parameters =
      onHistory history (strategy.indicators parameters)
        fun view => strategy.evaluate history view parameters

/-- Causal series that are computed over a longer series of bars decide as those of the history. -/
theorem Windowed.evaluate_eq {strategy : Strategy α} (hwindowed : strategy.Windowed)
    (hcausal : strategy.Causal) {parameters : Parameter.Assignment α}
    {indicators : List (Indicator α)} (h : strategy.indicators parameters = .ok indicators)
    (bars : List (Bar α)) {t : Nat} (ht : t < bars.length) :
    strategy.evaluate (.ofSeries (bars.take (t + 1)))
        ((IndicatorTable.compute bars indicators).view t) parameters =
      strategy.decide (.ofSeries (bars.take (t + 1))) parameters := by
  have hlength : (bars.take (t + 1)).length = t + 1 := List.length_take_of_le ht
  have hsome : (History.ofSeries (bars.take (t + 1))).isEmpty = false := by
    rw [History.isEmpty_ofSeries, List.isEmpty_eq_false_iff, ← List.length_pos_iff, hlength]
    exact Nat.succ_pos t
  have hseries : (History.ofSeries (bars.take (t + 1))).series = bars.take (t + 1) :=
    List.reverse_reverse _
  have hview := IndicatorTable.view_compute_take (hcausal _ _ h) bars (Nat.lt_succ_self t)
  rw [hwindowed, onHistory, hsome, h, hseries, History.length_ofSeries, hlength,
    Nat.add_sub_cancel, ← hview]
  rfl

theorem onHistory_ofSeries (bars : List (Bar α))
    (indicators : Except (Fault α) (List (Indicator α)))
    (evaluate : IndicatorView α → Except (Fault α) (Signal α)) :
    onHistory (.ofSeries bars) indicators evaluate =
      if bars.length = 0 then .ok .flat
      else indicators.bind fun is =>
        evaluate ((IndicatorTable.compute bars is).view (bars.length - 1)) := by
  have hseries : (History.ofSeries bars).series = bars := List.reverse_reverse bars
  unfold onHistory
  simp only [History.isEmpty_ofSeries, List.isEmpty_iff_length_eq_zero, History.length_ofSeries,
    hseries]
  rfl

end Strategy

theorem Crossover.windowed : (Crossover.strategy : Strategy α).Windowed := fun _ _ => rfl

/-- With periods and a kind to be read, the newest averages are all that is compared. -/
theorem Crossover.evaluate_eq {a : Parameter.Assignment α} {s : Settings} (h : settings a = .ok s)
    (history : History α) (view : IndicatorView α) :
    evaluate history view a =
      .ok (if history.length < s.slow then .flat
        else match view.latest? (s.kind.seriesName s.fast),
            view.latest? (s.kind.seriesName s.slow) with
          | some fast, some slow => if slow < fast then .long else .flat
          | _, _ => .flat) := by
  unfold evaluate
  rw [h]
  change (if _ then _ else _) = _
  split
  · rfl
  · cases view.latest? (s.kind.seriesName s.fast) <;>
      cases view.latest? (s.kind.seriesName s.slow) <;> rfl

theorem Threshold.windowed : (Threshold.strategy : Strategy α).Windowed := fun _ _ => rfl

namespace Strategy

/-- Every registered strategy decides at a bar of a series the same from the series it declares,
computed once over the whole series of bars and read through the view at that bar, as from the bars
up to it alone: the same signal or the same fault, whatever its parameters and whatever the bars
hold. -/
theorem evaluate_view_eq_decide (strategy : Strategy α)
    (hregistered : strategy ∈ (Registry.builtins : Registry α).list)
    (parameters : Parameter.Assignment α) (indicators : List (Indicator α))
    (h : strategy.indicators parameters = .ok indicators) (bars : List (Bar α)) (t : Nat)
    (ht : t < bars.length) :
    strategy.evaluate (.ofSeries (bars.take (t + 1)))
        ((IndicatorTable.compute bars indicators).view t) parameters =
      strategy.decide (.ofSeries (bars.take (t + 1))) parameters := by
  have hcausal := Registry.causal_of_mem_builtins hregistered
  rw [Registry.list_builtins] at hregistered
  simp only [List.mem_cons, List.not_mem_nil, or_false] at hregistered
  rcases hregistered with rfl | rfl | rfl | rfl
  · rfl
  · exact Crossover.windowed.evaluate_eq hcausal h bars ht
  · rfl
  · exact Threshold.windowed.evaluate_eq hcausal h bars ht

def brokenRise : List (Bar Extended) :=
  [.still 2 (.finite 100), .still 3 (.finite 101),
    { Bar.still 4 (.finite 102) with close := .nan },
    .still 5 (.finite 103), .still 8 (.finite 104), .still 9 (.finite 106), .still 10 (.finite 90)]

def twoOverThree : Parameter.Assignment Extended :=
  .ofList [("fast", .int 2), ("slow", .int 3), ("ma_type", .choice "sma")]

/-- Long on the last rising day, before a fall that only the whole series contains. -/
theorem evaluate_view_eq_decide_brokenRise :
    (Crossover.strategy : Strategy Extended) ∈ Registry.builtins.list ∧
      Crossover.strategy.indicators twoOverThree =
        .ok [SimpleAverage.indicator 2, SimpleAverage.indicator 3] ∧
      5 < brokenRise.length ∧
      Crossover.strategy.decide (.ofSeries (brokenRise.take 6)) twoOverThree = .ok .long ∧
      Crossover.strategy.evaluate (.ofSeries (brokenRise.take 6))
          ((IndicatorTable.compute brokenRise
            [SimpleAverage.indicator 2, SimpleAverage.indicator 3]).view 5) twoOverThree =
        .ok .long := by
  have hmem : (Crossover.strategy : Strategy Extended) ∈ Registry.builtins.list := by
    simp [Registry.list_builtins]
  have hindicators : Crossover.strategy.indicators twoOverThree =
      .ok [SimpleAverage.indicator 2, SimpleAverage.indicator 3] := by rfl
  have hlong :
      Crossover.strategy.decide (.ofSeries (brokenRise.take 6)) twoOverThree = .ok .long := by
    have hwhole : (Crossover.strategy.decide (.ofSeries (brokenRise.take 6))
        twoOverThree).toOption.map (fun signal => (signal.isDiscrete, signal.weight?)) =
          some (true, some (Scalar.nat 1)) := by
      decide +kernel
    obtain ⟨signal, hsignal, hlong⟩ := Option.map_eq_some_iff.1 hwhole
    cases signal with
    | long => exact toOption_eq_some_iff.1 hsignal
    | flat | short | hold => exact absurd hlong (by decide)
    | target w => exact absurd (congrArg Prod.fst hlong) Bool.false_ne_true
  refine ⟨hmem, hindicators, by decide, hlong, ?_⟩
  rw [evaluate_view_eq_decide _ hmem twoOverThree _ hindicators brokenRise 5 (by decide), hlong]

end Strategy

end Backtest
