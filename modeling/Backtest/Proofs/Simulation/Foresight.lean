import Backtest.Proofs.Indicator.Causality
import Backtest.Proofs.Market.Order
import Backtest.Proofs.NameMap
import Backtest.Proofs.Simulation.Log
import Backtest.Scalar.Extended
import Backtest.Strategy.Registry

/-!
# Runs do not see the future

A run on the first bars of a series is the beginning of the run on the whole of it. Strategies see
a series through views that end at the bar being decided, and causal indicators give a view the
same numbers whatever bars follow; so both runs take the same steps until the shorter one ends.
-/

namespace Backtest

variable {α : Type}

namespace IndicatorTable

/-- The table of a cut series is the table of the whole series with every column cut. -/
theorem compute_take {indicators : List (Indicator α)} (hcausal : ∀ i ∈ indicators, i.Causal)
    (bars : List (Bar α)) (k : Nat) :
    compute (bars.take k) indicators =
      (compute bars indicators).map fun column => (column.toList.take k).toArray := by
  unfold compute
  rw [NameMap.map_ofList, List.map_map]
  congr 1
  apply List.map_congr_left
  intro i hi
  simp [hcausal i hi bars k]

theorem raw?_compute_take {indicators : List (Indicator α)} (hcausal : ∀ i ∈ indicators, i.Causal)
    (bars : List (Bar α)) {k t : Nat} (ht : t < k) (name : String) :
    raw? (compute (bars.take k) indicators) name t = raw? (compute bars indicators) name t := by
  rw [compute_take hcausal]
  unfold raw?
  rw [NameMap.get?_map]
  cases NameMap.get? (compute bars indicators) name with
  | none => rfl
  | some column => simp [ht]

/-- A view that ends inside a cut does not tell the cut series from the whole one. -/
theorem view_compute_take [Scalar α] {indicators : List (Indicator α)}
    (hcausal : ∀ i ∈ indicators, i.Causal) (bars : List (Bar α)) {k t : Nat} (ht : t < k) :
    view (compute (bars.take k) indicators) t = view (compute bars indicators) t := by
  unfold view
  congr 1
  funext name i
  split
  · rfl
  · rw [raw?_compute_take hcausal bars (by omega)]

end IndicatorTable

/-- No indicator that the strategy declares, for any parameters, depends on a later bar. -/
def Strategy.Causal (strategy : Strategy α) : Prop :=
  ∀ a indicators, strategy.indicators a = .ok indicators → ∀ i ∈ indicators, i.Causal

/-- A strategy that declares no series reads no number of a later bar. -/
theorem Strategy.causal_of_no_indicators {strategy : Strategy α}
    (h : ∀ a, strategy.indicators a = .ok []) : strategy.Causal := by
  intro a indicators ha
  rw [h a] at ha
  cases ha
  simp

variable [Scalar α]

theorem Crossover.causal : (Crossover.strategy : Strategy α).Causal := by
  intro a indicators h
  obtain ⟨s, -, h⟩ := bind_eq_ok_iff.1 h
  rw [pure_eq_ok_iff] at h
  subst h
  have hkind (period : Nat) : (s.kind.indicator period : Indicator α).Causal := by
    cases s.kind with
    | simple => exact SimpleAverage.causal period
    | exponential => exact ExponentialAverage.causal period
  simp [hkind]

theorem Threshold.causal : (Threshold.strategy : Strategy α).Causal := by
  intro a indicators h
  obtain ⟨period, -, h⟩ := bind_eq_ok_iff.1 h
  rw [pure_eq_ok_iff] at h
  subst h
  simp [RelativeStrength.causal]

theorem Registry.list_builtins :
    (builtins : Registry α).list =
      [buyAndHold, Crossover.strategy, Momentum.strategy, Threshold.strategy] := by
  have hcrossover : ¬"ma_crossover" < "buy_and_hold" ∧ "buy_and_hold" < "ma_crossover" := by decide
  have hthreshold : ¬"rsi_threshold" < "buy_and_hold" ∧ "buy_and_hold" < "rsi_threshold" ∧
      ¬"rsi_threshold" < "ma_crossover" ∧ "ma_crossover" < "rsi_threshold" := by decide
  have hmomentum : ¬"momentum" < "buy_and_hold" ∧ "buy_and_hold" < "momentum" ∧
      ¬"momentum" < "ma_crossover" ∧ "ma_crossover" < "momentum" ∧
      "momentum" < "rsi_threshold" := by decide
  simp only [builtins, register, list, List.foldl_cons, List.foldl_nil, List.map_cons, List.map_nil,
    NameMap.insert, NameMap.insertEntry, NameMap.empty, buyAndHold, Crossover.strategy,
    Crossover.name, Threshold.strategy, Threshold.name, Momentum.strategy, Momentum.name,
    hcrossover, hthreshold, hmomentum, if_true, if_false]

theorem Registry.mem_builtins_iff {strategy : Strategy α} :
    strategy ∈ (builtins : Registry α).list ↔
      strategy = buyAndHold ∨ strategy = Crossover.strategy ∨ strategy = Momentum.strategy ∨
        strategy = Threshold.strategy := by
  simp [list_builtins]

theorem Registry.causal_of_mem_builtins {strategy : Strategy α}
    (h : strategy ∈ (builtins : Registry α).list) : strategy.Causal := by
  rcases mem_builtins_iff.1 h with rfl | rfl | rfl | rfl
  · exact Strategy.causal_of_no_indicators fun _ => rfl
  · exact Crossover.causal
  · exact Strategy.causal_of_no_indicators fun _ => rfl
  · exact Threshold.causal

namespace Simulation

variable {s : Setup α} {bars past rest : List (Bar α)} {bar : Bar α} {start k : Nat}
  {strategy : Strategy α} {assigned : Parameter.Assignment α} {costs : Costs α}
  {a a' : Account α}

/-- A step reads the table through the view at the newest bar before it, and nowhere else. -/
theorem step_congr (t : IndicatorTable α)
    (hview : s.table.view (past.length - 1) = t.view (past.length - 1)) :
    step { s with table := t } (.ofSeries past) bar a = step s (.ofSeries past) bar a := by
  simp only [step, signalAt, History.length_ofSeries, hview]
  rfl

theorem play_congr {n : Nat} (t : IndicatorTable α)
    (hview : ∀ i < n, s.table.view i = t.view i) (hn : past.length + rest.length ≤ n) :
    play { s with table := t } (.ofSeries past) rest a = play s (.ofSeries past) rest a := by
  induction rest generalizing past a with
  | nil => rfl
  | cons bar rest ih =>
    rw [List.length_cons] at hn
    rw [play, play, step_congr t (hview _ (by omega))]
    cases step s (.ofSeries past) bar a with
    | error e => rfl
    | ok mid =>
      simp only [History.ofSeries_push]
      exact ih (by rw [List.length_append, List.length_singleton]; omega)

/-- The preparation for the first bars differs from that for the whole series in its table only. -/
theorem prepare_take {setup : Setup α} (hk : start + leastBars ≤ k) (hlength : k ≤ bars.length)
    (hcausal : strategy.Causal)
    (h : prepare bars start strategy assigned costs = .ok setup) :
    ∃ t, prepare (bars.take k) start strategy assigned costs = .ok { setup with table := t } ∧
      ∀ i < k, setup.table.view i = t.view i := by
  obtain ⟨hvalid, -, hordered, parameters, hparameters, indicators, hindicators, rfl⟩ :=
    prepare_eq_ok_iff.1 h
  refine ⟨.compute (bars.take k) indicators, prepare_eq_ok_iff.2 ⟨hvalid, ?_, ?_, parameters,
    hparameters, indicators, hindicators, rfl⟩, fun i hi => ?_⟩
  · rw [List.length_take]
    omega
  · exact disorder?_eq_none_iff.2 ((disorder?_eq_none_iff.1 hordered).take k)
  · exact (IndicatorTable.view_compute_take (hcausal _ _ hindicators) bars hi).symm

/-- At the end of the shorter run both runs have the same account. -/
theorem play_take {setup : Setup α} {t : IndicatorTable α}
    (hview : ∀ i < k, setup.table.view i = t.view i) (hk : start ≤ k) (hlength : k ≤ bars.length)
    (h : play setup (.ofSeries (bars.take start)) (bars.drop start) a = .ok a') :
    ∃ mid,
      play { setup with table := t } (.ofSeries ((bars.take k).take start))
        ((bars.take k).drop start) a = .ok mid ∧
      play setup (.ofSeries (bars.take k)) (bars.drop k) mid = .ok a' := by
  have hcut : (bars.take k).take start = bars.take start := by
    rw [List.take_take, Nat.min_eq_left hk]
  have hrest : bars.drop start = (bars.take k).drop start ++ bars.drop k := by
    rw [← List.drop_append_of_le_length (by rw [List.length_take]; omega),
      List.take_append_drop]
  rw [hrest, ← hcut, play_append, List.take_append_drop] at h
  obtain ⟨mid, hmid, hlater⟩ := h
  refine ⟨mid, ?_, hlater⟩
  rw [play_congr t hview, hmid]
  rw [← List.length_append, List.take_append_drop, List.length_take]
  omega

/-- Of what a run records, the first points and the trades ended by then are those at the cut. -/
theorem ofAccount_take {mid : Account α} {parameters : Parameter.Assignment α} {n : Nat}
    (hpoints : mid.points.length = n) (hclosed : ∀ t ∈ mid.ledger.closedTrades, t.exitBar < k)
    (h : play s (.ofSeries (bars.take k)) (bars.drop k) mid = .ok a') (hk : k ≤ bars.length) :
    (ofAccount parameters start mid).equity = (ofAccount parameters start a').equity.take n ∧
      (ofAccount parameters start mid).trades =
        (ofAccount parameters start a').trades.filter (·.exitBar < k) := by
  obtain ⟨⟨points, hadded, -⟩, closed, hbooked, hlater⟩ := play_grows h
  constructor
  · simp only [ofAccount, hadded, List.reverse_append]
    rw [List.take_left' (by simpa using hpoints)]
  · simp only [ofAccount, Ledger.trades, hbooked, List.reverse_append, List.filter_append]
    rw [List.filter_eq_self.2 (by simpa using hclosed), List.filter_eq_nil_iff.2, List.append_nil]
    intro t ht
    have := hlater t (List.mem_reverse.1 ht)
    rw [List.length_take] at this
    simp only [decide_eq_true_eq]
    omega

/-- No look-ahead. Every registered strategy reads causal series only; and for every strategy that
does, a run cut off after `k` bars succeeds if the whole run does, its equity curve is the start of
the whole one, and its trades are those of the whole run that ended before the cut. -/
theorem runFrom_take :
    (∀ strategy ∈ (Registry.builtins : Registry α).list, strategy.Causal) ∧
      ∀ (strategy : Strategy α) (bars : List (Bar α)) (start k : Nat)
        (assigned : Parameter.Assignment α) (costs : Costs α) (full : Simulation α),
        strategy.Causal → start + leastBars ≤ k → k ≤ bars.length →
        runFrom bars start strategy assigned costs = .ok full →
        ∃ cut, runFrom (bars.take k) start strategy assigned costs = .ok cut ∧
          cut.equity = full.equity.take (k - start + 1) ∧
          cut.trades = full.trades.filter (·.exitBar < k) := by
  refine ⟨fun _ => Registry.causal_of_mem_builtins, ?_⟩
  intro strategy bars start k assigned costs full hcausal hk hlength h
  obtain ⟨setup, hprepare, account, hplay, rfl⟩ := runFrom_eq_ok_iff.1 h
  obtain ⟨t, hcut, hview⟩ := prepare_take hk hlength hcausal hprepare
  have hstart : start < k := by
    unfold leastBars at hk
    omega
  obtain ⟨mid, hmid, hlater⟩ := play_take hview (by omega) hlength hplay
  refine ⟨_, runFrom_eq_ok_iff.2 ⟨_, hcut, mid, ?_, rfl⟩, ?_⟩
  · rwa [List.getElem?_take_of_lt hstart]
  · obtain ⟨⟨points, hadded, hcount⟩, closed, hbooked, hbefore⟩ := play_grows hmid
    refine ofAccount_take ?_ ?_ hlater hlength
    · simp [hadded, hcount, Account.start]
      omega
    · simp only [hbooked, Account.start, Ledger.ofCash, List.append_nil]
      intro t ht
      have := (hbefore t ht).2
      simp only [List.length_take, List.length_drop] at this
      omega

def recovery : List (Bar Extended) :=
  [.still 2 (.finite 100), .still 3 (.finite 90), .still 4 (.finite 80), .still 5 (.finite 95),
    .still 8 (.finite 120), .still 9 (.finite 130), .still 10 (.finite 125)]

def twoDays : Parameter.Assignment Extended := .ofList [("period", .int 2)]

theorem runFrom_take_recovery :
    (Threshold.strategy : Strategy Extended) ∈ Registry.builtins.list ∧
      (Threshold.strategy : Strategy Extended).Causal ∧ 0 + leastBars ≤ 6 ∧ 6 ≤ recovery.length ∧
      ∃ full, runFrom recovery 0 Threshold.strategy twoDays .standard = .ok full ∧
        ∃ cut, runFrom (recovery.take 6) 0 Threshold.strategy twoDays .standard = .ok cut ∧
          cut.equity = full.equity.take (6 - 0 + 1) ∧
          cut.trades = full.trades.filter (·.exitBar < 6) := by
  have hmem : (Threshold.strategy : Strategy Extended) ∈ Registry.builtins.list := by
    simp [Registry.list_builtins]
  have hcausal := runFrom_take.1 _ hmem
  obtain ⟨full, hfull⟩ :=
    exists_eq_ok (x := runFrom recovery 0 Threshold.strategy twoDays .standard)
    (by decide +kernel)
  exact ⟨hmem, hcausal, by decide, by decide, full, hfull,
    runFrom_take.2 _ recovery 0 6 twoDays .standard full hcausal (by decide) (by decide) hfull⟩

end Simulation

end Backtest
