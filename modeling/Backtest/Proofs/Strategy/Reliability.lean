import Backtest.Proofs.Search.Candidates
import Backtest.Proofs.Strategy.Answers

/-!
# Registered strategies never fail

A run of a registered strategy gives a result as soon as its settings can be used, its bars suffice
and its parameters resolve; where one of these is missing, that is what it reports. A search only
runs what was resolved, under settings that it has checked, so it records no failure.
-/

namespace Backtest

namespace Simulation

/-- Before its first bar a run can only fail through the series that the strategy declares. -/
theorem indicators_of_prepare_failed {α : Type} [Scalar α] {bars : List (Bar α)} {start : ℕ}
    {strategy : Strategy α} {assigned : Parameter.Assignment α} {costs : Costs α} {bar : ℕ}
    {fault : Fault α}
    (h : prepare bars start strategy assigned costs = .error (.failed bar fault)) :
    ∃ parameters, strategy.resolve assigned = .ok parameters ∧
      strategy.indicators parameters = .error fault := by
  unfold prepare at h
  rw [bind_eq_error_iff] at h
  rcases h with hcosts | ⟨_, -, h⟩
  · obtain ⟨_, -, hrejected⟩ := mapError_eq_error_iff.1 hcosts
    cases hrejected
  simp only at h
  split at h
  · cases h
  split at h
  · cases h
  simp only [bind_eq_error_iff, mapError_eq_error_iff, mapError_eq_ok_iff] at h
  obtain ⟨_, -, hrejected⟩ | ⟨parameters, hresolve, ⟨_, hindicators, hfailed⟩ | ⟨_, -, hdone⟩⟩ := h
  · cases hrejected
  · cases hfailed
    exact ⟨parameters, hresolve, hindicators⟩
  · cases hdone

variable {bars : List (Bar Float)} {start : ℕ} {strategy : Strategy Float}
  {assigned : Parameter.Assignment Float} {costs : Costs Float}

theorem exists_runFrom_builtin_iff
    (hstrategy : strategy ∈ (Registry.builtins : Registry Float).list) :
    (∃ sim, runFrom bars start strategy assigned costs = .ok sim) ↔
      costs.validate = .ok () ∧ start + leastBars ≤ bars.length ∧ Ordered bars ∧
        ∃ parameters, strategy.resolve assigned = .ok parameters := by
  constructor
  · rintro ⟨sim, h⟩
    obtain ⟨setup, hprepare, -⟩ := runFrom_eq_ok_iff.1 h
    obtain ⟨hvalid, hlength, hordered, parameters, hresolve, -⟩ := prepare_eq_ok_iff.1 hprepare
    exact ⟨hvalid, hlength, disorder?_eq_none_iff.1 hordered, parameters, hresolve⟩
  · rintro ⟨hvalid, hlength, hordered, parameters, hresolve⟩
    exact exists_runFrom_of_answers hvalid (disorder?_eq_none_iff.2 hordered) hlength
      (Registry.answers_of_mem_builtins hstrategy hresolve)
      ((Registry.allOrNothing_of_mem_builtins hstrategy).finiteWeights rfl rfl rfl)

theorem runFrom_builtin_ne_failed
    (hstrategy : strategy ∈ (Registry.builtins : Registry Float).list) (bar : ℕ)
    (fault : Fault Float) :
    runFrom bars start strategy assigned costs ≠ .error (.failed bar fault) := by
  intro h
  cases hprepare : prepare bars start strategy assigned costs with
  | error e =>
    have herror : e = .failed bar fault := by simpa [runFrom, hprepare, bind, Except.bind] using h
    rw [herror] at hprepare
    obtain ⟨parameters, hresolve, hindicators⟩ := indicators_of_prepare_failed hprepare
    obtain ⟨_, hresolve', ⟨_, hanswers⟩, -⟩ :=
      Registry.answers_of_mem_builtins hstrategy hresolve
    cases hresolve.symm.trans hresolve'
    cases hindicators.symm.trans hanswers
  | ok setup =>
    obtain ⟨hvalid, hlength, hordered, parameters, hresolve, -⟩ := prepare_eq_ok_iff.1 hprepare
    obtain ⟨sim, hsim⟩ := (exists_runFrom_builtin_iff hstrategy).2
      ⟨hvalid, hlength, disorder?_eq_none_iff.1 hordered, parameters, hresolve⟩
    cases h.symm.trans hsim

end Simulation

/-- Where all else can be used, a run reports why its parameters do not resolve. -/
theorem Evaluation.runFrom_of_rejected {α : Type} [Scalar α] [Powers α] {bars : List (Bar α)}
    {start : ℕ} {strategy : Strategy α} {assigned : Parameter.Assignment α} {costs : Costs α}
    {barsPerYear : α} {rejection : Rejection α} (hscale : checkBarsPerYear barsPerYear = .ok ())
    (hvalid : costs.validate = .ok ()) (hlength : start + Simulation.leastBars ≤ bars.length)
    (hordered : Ordered bars) (hresolve : strategy.resolve assigned = .error rejection) :
    runFrom bars start strategy assigned costs barsPerYear = .error (.rejected rejection) := by
  have hprepare : Simulation.prepare bars start strategy assigned costs =
      .error (.rejected rejection) := by
    simp [Simulation.prepare, hvalid, Nat.not_lt.2 hlength, disorder?_eq_none_iff.2 hordered,
      hresolve, mapError_ok, mapError_error, bind, Except.bind]
  simp [runFrom, Simulation.runFrom, hscale, hprepare, mapError_ok, bind, Except.bind]

namespace Search

variable {bars : List (Bar Float)} {strategy : Strategy Float} {space : Space Float}
  {costs : Costs Float} {config : SearchConfig Float} {stopped : ℕ → Bool}
  {outcome : SearchOutcome Float}

/-- What resolves once resolves again, so an admitted candidate runs under checked settings. -/
theorem exists_run_admitted (hstrategy : strategy ∈ (Registry.builtins : Registry Float).list)
    (hpreflight : preflight bars costs config = .ok ()) {c : Candidate Float}
    (hresolve : strategy.resolve c.parameters = .ok c.resolved) :
    ∃ e, Evaluation.run bars strategy c.resolved costs config.barsPerYear = .ok e := by
  obtain ⟨hvalid, hconfig, hlength, hordered⟩ := preflight_eq_ok_iff.1 hpreflight
  have hscale := (SearchConfig.validate_eq_ok_iff.1 hconfig).1
  obtain ⟨sim, hsim⟩ := (Simulation.exists_runFrom_builtin_iff hstrategy).2
    ⟨hvalid, (Nat.zero_add _).le.trans hlength, hordered, c.resolved,
      Strategy.resolve_resolved (Registry.sound_of_mem_builtins hstrategy) hresolve⟩
  exact ⟨_, Evaluation.runFrom_eq_ok_iff.2 ⟨hscale, sim, hsim, rfl⟩⟩

theorem failures_of_run_builtin
    (hstrategy : strategy ∈ (Registry.builtins : Registry Float).list)
    (h : run bars strategy space costs config stopped = .ok outcome) : outcome.failures = [] := by
  have hfinishes := run_eq_ok_iff.1 h
  rw [hfinishes.report]
  refine List.eq_nil_iff_forall_not_mem.2 fun f hf => ?_
  obtain ⟨c, hc, hjudge⟩ := mem_filterMap_failed?.1 hf
  obtain ⟨-, e, he, -⟩ := judge_eq_failed_iff.1 hjudge
  obtain ⟨e', he'⟩ := exists_run_admitted hstrategy hfinishes.preflight
    (Enumeration.mem_admitted_iff.1 hc).2
  cases he.symm.trans he'

end Search

namespace Registry

/-- A registered strategy runs exactly if its settings can be used, its bars suffice and its
parameters resolve, and no run of it fails, from the first bar or a later one; so no search of it,
over any space and stopped or not, records a failure. -/
theorem builtins_never_fail {strategy : Strategy Float}
    (hstrategy : strategy ∈ (builtins : Registry Float).list) :
    (∀ bars start assigned costs,
      ((∃ sim, Simulation.runFrom bars start strategy assigned costs = .ok sim) ↔
        costs.validate = .ok () ∧ start + Simulation.leastBars ≤ bars.length ∧ Ordered bars ∧
          ∃ parameters, strategy.resolve assigned = .ok parameters) ∧
      ∀ bar fault,
        Simulation.runFrom bars start strategy assigned costs ≠ .error (.failed bar fault)) ∧
    ∀ bars space costs config stopped outcome,
      Search.run bars strategy space costs config stopped = .ok outcome → outcome.failures = [] :=
  ⟨fun _ _ _ _ => ⟨Simulation.exists_runFrom_builtin_iff hstrategy,
      Simulation.runFrom_builtin_ne_failed hstrategy⟩,
    fun _ _ _ _ _ _ => Search.failures_of_run_builtin hstrategy⟩

def threePeriods : Space Float where
  schema := Crossover.schema
  dimensions := [.int "fast" 2 4 1 2]
  pins := .ofList [("slow", .int 10), ("ma_type", .choice "ema")]

theorem builtins_never_fail_crossover :
    (Crossover.strategy : Strategy Float) ∈ (builtins : Registry Float).list ∧
      (∃ sim, Simulation.runFrom [.still 2 100, .still 3 101] 0 Crossover.strategy
        (.ofList [("fast", .float 3)]) (.standard : Costs Float) = .ok sim) ∧
      ∃ outcome, Search.run [.still 2 100, .still 3 101] Crossover.strategy threePeriods .standard
          .standard Search.never = .ok outcome ∧ outcome.failures = [] := by
  have hmem : (Crossover.strategy : Strategy Float) ∈ (builtins : Registry Float).list :=
    mem_builtins_iff.2 (.inr (.inl rfl))
  obtain ⟨hruns, hsearches⟩ := builtins_never_fail hmem
  have hordered : Ordered [Bar.still 2 (100 : Float), .still 3 101] :=
    disorder?_eq_none_iff.1 (by decide)
  have hsearch : ∃ outcome, Search.run [.still 2 100, .still 3 101] Crossover.strategy threePeriods
      .standard .standard Search.never = .ok outcome :=
    Search.exists_run_eq_ok_iff.2
      ⟨Search.preflight_eq_ok_iff.2 ⟨rfl, rfl, by decide, hordered⟩, by decide,
        by decide, by decide +kernel⟩
  obtain ⟨outcome, houtcome⟩ := hsearch
  refine ⟨hmem, (hruns _ _ _ _).1.2 ⟨rfl, by decide, hordered, ?_⟩, outcome, houtcome,
    hsearches _ _ _ _ _ _ houtcome⟩
  exact exists_eq_ok (by decide +kernel)

end Registry

end Backtest
