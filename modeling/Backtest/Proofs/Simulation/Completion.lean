import Backtest.Proofs.Simulation.Compounding

/-!
# Runs that come to an end

Past its checks a run can only fail through its strategy: through a fault, or through a weight that
is no finite number. So a strategy that always answers and asks for finite weights only runs over
every series of bars that is long enough and in order.
-/

namespace Backtest

open Scalar

variable {α : Type} [Scalar α] {strategy : Strategy α} {assigned : Parameter.Assignment α}

/-- The strategy accepts these parameters and never fails to answer. -/
def Strategy.Answers (strategy : Strategy α) (assigned : Parameter.Assignment α) : Prop :=
  ∃ parameters, strategy.resolve assigned = .ok parameters ∧
    (∃ indicators, strategy.indicators parameters = .ok indicators) ∧
      ∀ history view, ∃ signal, strategy.evaluate history view parameters = .ok signal

/-- With these parameters the strategy only asks for finite weights. -/
def Strategy.FiniteWeights (strategy : Strategy α) (assigned : Parameter.Assignment α) : Prop :=
  ∀ parameters, strategy.resolve assigned = .ok parameters → ∀ history view signal weight,
    strategy.evaluate history view parameters = .ok signal → signal.weight? = some weight →
      isFinite weight = true

/-- Signals that name no weight ask for a unit, on either side, or for nothing. -/
theorem Strategy.AllOrNothing.finiteWeights (h : strategy.AllOrNothing assigned)
    (hzero : isFinite (nat 0 : α) = true) (hone : isFinite (nat 1 : α) = true)
    (hshort : isFinite (-nat 1 : α) = true) : strategy.FiniteWeights assigned := by
  intro parameters hresolve history view signal weight hevaluate hweight
  cases signal with
  | long =>
    cases hweight
    exact hone
  | flat =>
    cases hweight
    exact hzero
  | short =>
    cases hweight
    exact hshort
  | target w => exact absurd hevaluate (h parameters hresolve history view w)
  | hold => cases hweight

namespace Simulation

variable {s : Setup α} {bars past rest : List (Bar α)} {bar : Bar α} {start : ℕ}
  {costs : Costs α} {a : Account α} {signal : Signal α}

theorem exists_execute (hpast : past ≠ [])
    (hsignal : ∀ weight, signal.weight? = some weight → isFinite weight = true) :
    ∃ a', execute s (.ofSeries past) signal bar a = .ok a' := by
  obtain ⟨signalBar, hlast⟩ := Option.ne_none_iff_exists'.1 (mt List.getLast?_eq_none_iff.1 hpast)
  cases hweight : signal.weight? with
  | none => exact ⟨a, execute_of_no_weight hweight⟩
  | some requested =>
    exact ⟨_, (execute_eq hweight hlast).trans (if_pos (hsignal requested hweight))⟩

theorem exists_step
    (hsignal : ∃ signal, signalAt s (.ofSeries past) = .ok signal ∧
      ∀ weight, signal.weight? = some weight → isFinite weight = true) :
    ∃ a', step s (.ofSeries past) bar a = .ok a' := by
  by_cases hpast : past = []
  · exact ⟨_, step_eq_ok_iff.2 (.inl ⟨hpast, rfl⟩)⟩
  · obtain ⟨signal, hgiven, hfinite⟩ := hsignal
    obtain ⟨mid, hmid⟩ := exists_execute hpast hfinite
    exact ⟨_, step_eq_ok_iff.2 (.inr ⟨hpast, signal, hgiven, mid, hmid, rfl⟩)⟩

theorem exists_play
    (hsignal : ∀ past, ∃ signal, signalAt s (.ofSeries past) = .ok signal ∧
      ∀ weight, signal.weight? = some weight → isFinite weight = true) :
    ∃ a', play s (.ofSeries past) rest a = .ok a' := by
  induction rest generalizing past a with
  | nil => exact ⟨a, rfl⟩
  | cons bar rest ih =>
    obtain ⟨mid, hmid⟩ := exists_step (hsignal past)
    obtain ⟨a', ha'⟩ := ih
    exact ⟨a', play_cons.2 ⟨mid, hmid, ha'⟩⟩

theorem exists_runFrom_of_answers (hvalid : costs.validate = .ok ())
    (hordered : disorder? bars = none) (hlength : start + leastBars ≤ bars.length)
    (hanswers : strategy.Answers assigned) (hweights : strategy.FiniteWeights assigned) :
    ∃ sim, runFrom bars start strategy assigned costs = .ok sim := by
  obtain ⟨parameters, hresolve, ⟨indicators, hindicators⟩, hevaluate⟩ := hanswers
  have hprepare := prepare_eq_ok_iff.2
    ⟨hvalid, hlength, hordered, parameters, hresolve, indicators, hindicators, rfl⟩
  have hsignal : ∀ past, ∃ signal,
      signalAt ⟨strategy, parameters, .compute bars indicators, costs⟩ (.ofSeries past) =
        .ok signal ∧ ∀ weight, signal.weight? = some weight → isFinite weight = true := by
    intro past
    obtain ⟨signal, hgiven⟩ := hevaluate (.ofSeries past)
      (IndicatorTable.view (.compute bars indicators) ((History.ofSeries past).length - 1))
    exact ⟨signal, mapError_eq_ok_iff.2 hgiven, fun weight =>
      hweights parameters hresolve _ _ signal weight hgiven⟩
  obtain ⟨account, hplay⟩ := exists_play hsignal
  exact ⟨_, runFrom_eq_ok_iff.2 ⟨_, hprepare, account, hplay, rfl⟩⟩

end Simulation

end Backtest
