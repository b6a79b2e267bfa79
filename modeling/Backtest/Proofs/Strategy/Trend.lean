import Backtest.Proofs.Decimal.Digits
import Backtest.Proofs.Indicator.Trend
import Backtest.Proofs.Simulation.Entry
import Backtest.Proofs.Strategy.Answers
import Backtest.Proofs.Strategy.Window

/-!
# Crossovers in a trend

On exact numbers the crossover of averages is long on rising closes as soon as the slow average has
a full window, and flat on falling ones. So on rising closes a run enters the market at most once
and never leaves it.
-/

namespace Backtest

open Extended (finite)

/-- Every close is a number, and compares in one way with all closes after it. -/
structure Trending (r : Extended → Extended → Prop) (bars : List (Bar Extended)) : Prop where
  isFinite : ∀ b ∈ bars, Scalar.isFinite b.close = true
  pairwise : (closes bars).Pairwise r

abbrev Rising (bars : List (Bar Extended)) : Prop := Trending (· < ·) bars

abbrev Falling (bars : List (Bar Extended)) : Prop := Trending (· > ·) bars

section

variable {r : Extended → Extended → Prop} {bars window : List (Bar Extended)}

theorem Trending.of_infix (h : Trending r bars) (hwindow : window <:+: bars) :
    Trending r window where
  isFinite b hb := h.isFinite b (hwindow.subset hb)
  pairwise := h.pairwise.sublist (hwindow.sublist.map _)

theorem Trending.exists_rational (h : Trending r bars) :
    ∃ xs : List ℚ, closes bars = xs.map finite ∧
      xs.Pairwise fun x y => r (finite x) (finite y) := by
  obtain ⟨xs, hxs⟩ := Extended.exists_map_finite (List.forall_mem_map.2 h.isFinite)
  refine ⟨xs, hxs.symm, ?_⟩
  have hpairwise := h.pairwise
  rwa [closes, ← hxs, List.pairwise_map] at hpairwise

theorem length_of_closes {xs : List ℚ} (h : closes bars = xs.map finite) :
    xs.length = bars.length := by
  rw [← length_closes, h, List.length_map]

end

/-- Under names of their own, the newest numbers of all series can be read. -/
theorem IndicatorTable.latest?_compute {α : Type} [Scalar α] {bars : List (Bar α)}
    {indicators : List (Indicator α)} (hnames : (indicators.map (·.name)).Nodup) {i : Indicator α}
    (hi : i ∈ indicators) {index : ℕ} {x : α} (h : (i.series bars)[index]? = some x) :
    ((compute bars indicators).view index).latest? i.name = present x := by
  have hcolumn : NameMap.get? (compute bars indicators) i.name = some (i.series bars).toArray := by
    refine NameMap.get?_ofList_of_mem (e := (i.name, (i.series bars).toArray)) ?_
      (List.mem_map.2 ⟨i, hi, rfl⟩)
    simpa [Function.comp_def] using hnames
  simp [IndicatorView.latest?, view, raw?, hcolumn, h]

namespace Crossover

variable {a : Parameter.Assignment Extended} {s : Settings} {bars : List (Bar Extended)}
  {xs : List ℚ}

namespace AverageKind

theorem name_indicator {α : Type} [Scalar α] (kind : AverageKind) (period : ℕ) :
    (kind.indicator period : Indicator α).name = kind.seriesName period := by
  cases kind <;> rfl

/-- Averages over different periods have different names. -/
theorem seriesName_ne (kind : AverageKind) {m n : ℕ} (hm : 0 < m) (hmn : m < n) :
    kind.seriesName m ≠ kind.seriesName n := by
  have hne : toString (max m 1) ≠ toString (max n 1) :=
    fun h => absurd (Decimal.toString_injective h) (by omega)
  cases kind with
  | simple => simpa [seriesName, SimpleAverage.name] using hne
  | exponential => simpa [seriesName, ExponentialAverage.name] using hne

/-- With a full window for the longer period, both averages of rational closes can be read. -/
theorem latest?_average (kind : AverageKind) {fast slow period : ℕ} (hfast : 0 < fast)
    (h : fast < slow) (hperiod : period = fast ∨ period = slow)
    (hcloses : closes bars = xs.map finite) (hfull : slow ≤ bars.length) :
    ((IndicatorTable.compute bars [kind.indicator fast, kind.indicator slow]).view
      (bars.length - 1)).latest? (kind.seriesName period) =
        some (finite (kind.average period xs)) := by
  have hnames : ([kind.indicator (α := Extended) fast, kind.indicator slow].map (·.name)).Nodup := by
    simp [name_indicator, kind.seriesName_ne hfast h]
  have hmem : (kind.indicator period : Indicator Extended) ∈
      [kind.indicator fast, kind.indicator slow] := by
    rcases hperiod with rfl | rfl <;> simp
  have hbars : bars ≠ [] := List.length_pos_iff.1 (by omega)
  have hlength := length_of_closes hcloses
  have hlast := kind.getElem?_series_last (by omega : 0 < period) hcloses hbars
  rw [if_neg (by omega)] at hlast
  rw [← name_indicator (α := Extended), IndicatorTable.latest?_compute hnames hmem hlast]
  rfl

end AverageKind

/-- Over rational closes the two averages are compared once there are enough closes for both. -/
theorem decide_eq (h : settings a = .ok s) (hfast : 0 < s.fast) (hslow : s.fast < s.slow)
    (hcloses : closes bars = xs.map finite) :
    strategy.decide (.ofSeries bars) a =
      .ok (if bars.length < s.slow then .flat
        else if s.kind.average s.slow xs < s.kind.average s.fast xs then .long else .flat) := by
  have hindicators : indicators a =
      .ok [s.kind.indicator s.fast, s.kind.indicator s.slow] := by
    simp [indicators, h]
  simp only [strategy]
  rw [Strategy.onHistory_ofSeries, hindicators]
  by_cases hempty : bars.length = 0
  · rw [if_pos hempty, if_pos (by omega)]
  · rw [if_neg hempty, Except.bind, evaluate_eq h, History.length_ofSeries]
    by_cases hshort : bars.length < s.slow
    · rw [if_pos hshort, if_pos hshort]
    · have hfull := Nat.le_of_not_lt hshort
      rw [if_neg hshort, if_neg hshort,
        s.kind.latest?_average hfast hslow (.inl rfl) hcloses hfull,
        s.kind.latest?_average hfast hslow (.inr rfl) hcloses hfull]
      simp only [Extended.finite_lt]

/-- On rising closes the crossover is long as soon as both averages have a full window. -/
theorem decide_of_rising (h : settings a = .ok s) (hfast : 0 < s.fast) (hslow : s.fast < s.slow)
    (hrising : Rising bars) :
    strategy.decide (.ofSeries bars) a = .ok (if bars.length < s.slow then .flat else .long) := by
  obtain ⟨xs, hcloses, hpairwise⟩ := hrising.exists_rational
  rw [decide_eq h hfast hslow hcloses]
  by_cases hshort : bars.length < s.slow
  · rw [if_pos hshort, if_pos hshort]
  · have hfull : s.slow ≤ xs.length := length_of_closes hcloses ▸ Nat.le_of_not_lt hshort
    rw [if_neg hshort, if_neg hshort, if_pos]
    exact s.kind.average_lt_of_rising hfast hslow (hpairwise.imp Extended.finite_lt.1) hfull

theorem decide_of_falling (h : settings a = .ok s) (hfast : 0 < s.fast) (hslow : s.fast < s.slow)
    (hfalling : Falling bars) : strategy.decide (.ofSeries bars) a = .ok .flat := by
  obtain ⟨xs, hcloses, hpairwise⟩ := hfalling.exists_rational
  rw [decide_eq h hfast hslow hcloses]
  by_cases hshort : bars.length < s.slow
  · rw [if_pos hshort]
  · have hfull : s.slow ≤ xs.length := length_of_closes hcloses ▸ Nat.le_of_not_lt hshort
    have habove :=
      s.kind.average_lt_of_falling hfast hslow (hpairwise.imp Extended.finite_lt.1) hfull
    rw [if_neg hshort, if_neg habove.not_gt]

/-! ## Runs -/

open Simulation

variable {start : ℕ} {assigned : Parameter.Assignment Extended} {costs : Costs Extended}

/-- The signals of a run on rising closes are those of a single entry. -/
theorem enters_of_rising (hrising : Rising bars) {setup : Setup Extended}
    (hprepare : prepare bars start strategy assigned costs = .ok setup) :
    ∃ n, ∀ t < bars.length, Enters n setup (bars.take (t + 1)) := by
  obtain ⟨-, -, -, full, hresolve, is, hindicators, rfl⟩ := prepare_eq_ok_iff.1 hprepare
  obtain ⟨s, hsettings, hfast, hslow⟩ := exists_settings hresolve
  refine ⟨s.slow, fun t ht signal hsignal => ?_⟩
  have hevaluate := windowed.evaluate_eq causal hindicators bars ht
  have hdecide := decide_of_rising hsettings (by omega) hslow
    (hrising.of_infix (List.take_prefix (t + 1) bars).isInfix)
  have hlength : (bars.take (t + 1)).length - 1 = t := by
    rw [List.length_take_of_le ht]
    rfl
  rw [signalAt, History.length_ofSeries, hlength, mapError_eq_ok_iff] at hsignal
  exact Except.ok.inj (hsignal.symm.trans (hevaluate.trans hdecide))

theorem trades_of_rising (hrising : Rising bars) {sim : Simulation Extended}
    (h : runFrom bars start strategy assigned costs = .ok sim) : sim.trades = [] := by
  obtain ⟨setup, hprepare, -⟩ := runFrom_eq_ok_iff.1 h
  obtain ⟨n, hsignals⟩ := enters_of_rising hrising hprepare
  exact trades_of_enters hprepare hsignals h

theorem exists_runFrom (hvalid : costs.validate = .ok ())
    (hlength : start + leastBars ≤ bars.length) (hordered : Ordered bars)
    {full : Parameter.Assignment Extended} (hresolve : strategy.resolve assigned = .ok full) :
    ∃ sim, runFrom bars start strategy assigned costs = .ok sim :=
  exists_runFrom_of_answers hvalid (disorder?_eq_none_iff.2 hordered) hlength (answers hresolve)
    ((allOrNothing assigned).finiteWeights rfl rfl rfl)

/-- On exact numbers, for every two periods and either kind of average: on rising closes the
crossover is flat over every window that is shorter than the slow period, and long over every other
one; so no run of it closes a trade, under whatever costs, from whatever bar on and at whatever
openings, and there is a run wherever the costs can be used, the parameters resolve and the bars are
in order and enough. On falling closes the crossover is flat over every window. -/
theorem follows_trend (bars : List (Bar Extended)) :
    (Rising bars →
      (∀ a s, settings a = .ok s → 1 ≤ s.fast → s.fast < s.slow → ∀ window, window <:+: bars →
        strategy.decide (.ofSeries window) a =
          .ok (if window.length < s.slow then .flat else .long)) ∧
      ∀ start assigned costs,
        (∀ sim, runFrom bars start strategy assigned costs = .ok sim → sim.trades = []) ∧
        (costs.validate = .ok () → start + leastBars ≤ bars.length → Ordered bars →
          ∀ full, strategy.resolve assigned = .ok full →
            ∃ sim, runFrom bars start strategy assigned costs = .ok sim)) ∧
    (Falling bars →
      ∀ a s, settings a = .ok s → 1 ≤ s.fast → s.fast < s.slow → ∀ window, window <:+: bars →
        strategy.decide (.ofSeries window) a = .ok .flat) := by
  refine ⟨fun hrising => ⟨fun a s h hfast hslow window hwindow => ?_, fun start assigned costs =>
    ⟨fun sim => trades_of_rising hrising, fun hvalid hlength hordered full => ?_⟩⟩,
    fun hfalling a s h hfast hslow window hwindow => ?_⟩
  · exact decide_of_rising h hfast hslow (hrising.of_infix hwindow)
  · exact exists_runFrom hvalid hlength hordered
  · exact decide_of_falling h hfast hslow (hfalling.of_infix hwindow)

def climb : List (Bar Extended) :=
  (List.range 14).map fun i =>
    { Bar.still (i + 1) (finite (100 + i)) with openPrice := finite (200 - 5 * i) }

def descent : List (Bar Extended) := climb.map fun b => { b with close := finite 300 - b.close }

def twoOverTen : Parameter.Assignment Extended :=
  .ofList [("fast", .int 2), ("slow", .int 10), ("ma_type", .choice "ema")]

/-- The run is in the market at its end, and has closed no trade. -/
theorem follows_trend_climb :
    Rising climb ∧ Falling descent ∧ settings twoOverTen = .ok ⟨2, 10, .exponential⟩ ∧
      strategy.decide (.ofSeries (climb.take 9)) twoOverTen = .ok .flat ∧
      strategy.decide (.ofSeries (climb.take 10)) twoOverTen = .ok .long ∧
      strategy.decide (.ofSeries (descent.take 10)) twoOverTen = .ok .flat ∧
      ∃ sim, runFrom climb 0 strategy twoOverTen .standard = .ok sim ∧ sim.trades = [] ∧
        sim.final.isFlat = false := by
  have hrising : Rising climb := ⟨by decide +kernel, by decide +kernel⟩
  have hfalling : Falling descent := ⟨by decide +kernel, by decide +kernel⟩
  have hsettings : settings twoOverTen = .ok ⟨2, 10, .exponential⟩ := by rfl
  have hordered : Ordered climb := disorder?_eq_none_iff.1 (by decide +kernel)
  obtain ⟨hdecide, hruns⟩ := (follows_trend climb).1 hrising
  have hflat := (follows_trend descent).2 hfalling
  obtain ⟨full, hresolve⟩ : ∃ full, strategy.resolve twoOverTen = .ok full :=
    exists_eq_ok (by decide +kernel)
  obtain ⟨hnone, hexists⟩ := hruns 0 twoOverTen .standard
  obtain ⟨sim, hsim⟩ := hexists rfl (by decide) hordered full hresolve
  have hheld : (runFrom climb 0 strategy twoOverTen .standard).toOption.map
      (fun sim => sim.final.isFlat) = some false := by
    decide +kernel
  rw [hsim] at hheld
  refine ⟨hrising, hfalling, hsettings, ?_, ?_, ?_, sim, hsim, hnone sim hsim,
    Option.some.inj hheld⟩
  · exact hdecide _ _ hsettings (by decide) (by decide) _ (List.take_prefix 9 climb).isInfix
  · exact hdecide _ _ hsettings (by decide) (by decide) _ (List.take_prefix 10 climb).isInfix
  · exact hflat _ _ hsettings (by decide) (by decide) _ (List.take_prefix 10 descent).isInfix

end Crossover

end Backtest
