import Backtest.Proofs.Market.Order
import Backtest.Proofs.Outcome
import Backtest.Search.Outcome

/-!
# What a finished search went through

A search that gives a result has passed every check made before its candidates, has judged each
admitted one, and has run the first of the ranked ones once more.
-/

namespace Backtest

theorem SearchConfig.validate_eq_ok_iff {α : Type} [Scalar α] {c : SearchConfig α} :
    c.validate = .ok () ↔
      checkBarsPerYear c.barsPerYear = .ok () ∧ ¬(c.method = .grid ∧ c.maxCombinations = 0) ∧
        ¬(c.method = .random ∧ c.trials = 0) ∧ c.threads ≠ some 0 := by
  unfold validate
  by_cases hgrid : c.method = .grid ∧ c.maxCombinations = 0
  · simp [hgrid]
  · by_cases hrandom : c.method = .random ∧ c.trials = 0
    · simp [hrandom]
    · by_cases hthreads : c.threads = some 0 <;> simp [hgrid, hrandom, hthreads]

namespace Search

variable {α : Type} [Scalar α] {bars : List (Bar α)} {strategy : Strategy α} {space : Space α}
  {costs : Costs α} {config : SearchConfig α} {stopped : Nat → Bool}

theorem preflight_eq_ok_iff :
    preflight bars costs config = .ok () ↔
      costs.validate = .ok () ∧ config.validate = .ok () ∧
        Simulation.leastBars ≤ bars.length ∧ Ordered bars := by
  rw [← disorder?_eq_none_iff]
  unfold preflight
  by_cases hlength : bars.length < Simulation.leastBars
  · simp [hlength, Nat.not_le.2 hlength]
  · cases hdisorder : disorder? bars with
    | some d => simp [hlength]
    | none => simp [hlength, Nat.not_lt.1 hlength]

theorem preflight_ne_crashed {text : String} :
    preflight bars costs config ≠ .error (.crashed text) := by
  unfold preflight
  by_cases hlength : bars.length < Simulation.leastBars
  · simp [bind_eq_error_iff, mapError_eq_error_iff, hlength]
  · cases disorder? bars with
    | some d => simp [bind_eq_error_iff, mapError_eq_error_iff, hlength]
    | none => simp [bind_eq_error_iff, mapError_eq_error_iff, hlength]

variable [Powers α]

def verdicts [Random.Uniform α] (bars : List (Bar α)) (strategy : Strategy α) (space : Space α)
    (costs : Costs α) (config : SearchConfig α) (stopped : Nat → Bool) : List (Verdict α) :=
  ((Enumeration.ofConfig space config).admitted strategy).map
    (judge bars strategy costs config stopped)

def replay (bars : List (Bar α)) (strategy : Strategy α) (costs : Costs α)
    (config : SearchConfig α) :
    List (RankedCandidate α) → Except (RunError α) (Option (Evaluation α))
  | [] => .ok none
  | top :: _ =>
    (Evaluation.run bars strategy top.resolved costs config.barsPerYear).map some

/-- What is reported of the admitted candidates' verdicts and the run of the first one. -/
def report [Random.Uniform α] (strategy : Strategy α) (space : Space α) (config : SearchConfig α)
    (verdicts : List (Verdict α)) (best : Option (Evaluation α)) : SearchOutcome α where
  strategy := strategy.name
  target := config.target
  best
  ranked := rank (verdicts.filterMap Verdict.ranked?)
  failures := verdicts.filterMap Verdict.failed?
  warnings := (Enumeration.ofConfig space config).warnings
  totalCandidates := (Enumeration.ofConfig space config).candidates.length
  skippedInvalid := (Enumeration.ofConfig space config).candidates.length -
    ((Enumeration.ofConfig space config).admitted strategy).length
  duplicatesDropped := (Enumeration.ofConfig space config).duplicates
  cancelled := verdicts.any Verdict.isStopped

theorem run_eq [Random.Uniform α] :
    run bars strategy space costs config stopped = (do
      preflight bars costs config
      if space.size = 0 then throw .emptySpace
      if let some text := Enumeration.crash? space config then throw (.crashed text)
      if ((Enumeration.ofConfig space config).admitted strategy).isEmpty then
        throw (.noValidCandidates (Enumeration.ofConfig space config).candidates.length)
      let judged := verdicts bars strategy space costs config stopped
      let best ← (replay bars strategy costs config
        (rank (judged.filterMap Verdict.ranked?))).mapError SearchError.run
      return report strategy space config judged best) := by
  unfold run verdicts
  cases hranked : rank ((((Enumeration.ofConfig space config).admitted strategy).map
    (judge bars strategy costs config stopped)).filterMap Verdict.ranked?) with
  | nil => simp only [hranked, report]; rfl
  | cons top rest => simp only [hranked, report]; rfl

/-- What has to hold for a search to come to its candidates. -/
structure Begins [Random.Uniform α] (bars : List (Bar α)) (strategy : Strategy α) (space : Space α)
    (costs : Costs α) (config : SearchConfig α) : Prop where
  preflight : preflight bars costs config = .ok ()
  size : space.size ≠ 0
  room : Enumeration.crash? space config = none
  admitted : (Enumeration.ofConfig space config).admitted strategy ≠ []

/-- What a search went through that gives an outcome. -/
structure Finishes [Random.Uniform α] (bars : List (Bar α)) (strategy : Strategy α)
    (space : Space α) (costs : Costs α) (config : SearchConfig α) (stopped : Nat → Bool)
    (o : SearchOutcome α) : Prop extends Begins bars strategy space costs config where
  report : o = report strategy space config
    (verdicts bars strategy space costs config stopped) o.best
  replay : replay bars strategy costs config o.ranked = .ok o.best

theorem run_eq_ok_iff [Random.Uniform α] {o : SearchOutcome α} :
    run bars strategy space costs config stopped = .ok o ↔
      Finishes bars strategy space costs config stopped o := by
  rw [run_eq]
  constructor
  · intro h
    obtain ⟨_, hpreflight, h⟩ := bind_eq_ok_iff.1 h
    by_cases hsize : space.size = 0
    · simp [hsize] at h
    · cases hroom : Enumeration.crash? space config with
      | some text => simp [hsize, hroom] at h
      | none =>
        by_cases hadmitted : (Enumeration.ofConfig space config).admitted strategy = []
        · simp [hsize, hroom, hadmitted] at h
        · simp only [hsize, hroom, hadmitted, List.isEmpty_iff, if_false, bind_eq_ok_iff,
            pure_eq_ok_iff, mapError_eq_ok_iff] at h
          obtain ⟨best, hbest, rfl⟩ := h
          exact ⟨⟨hpreflight, hsize, hroom, hadmitted⟩, rfl, hbest⟩
  · rintro ⟨⟨hpreflight, hsize, hroom, hadmitted⟩, hreport, hreplay⟩
    rw [hreport] at hreplay
    simp only [hsize, hroom, hadmitted, List.isEmpty_iff, if_false, bind_eq_ok_iff,
      pure_eq_ok_iff, mapError_eq_ok_iff]
    exact ⟨(), hpreflight, o.best, hreplay, hreport.symm⟩

/-- A search that passes its checks crashes exactly if it cannot make room for its candidates. -/
theorem run_eq_crashed_iff [Random.Uniform α] {text : String} :
    run bars strategy space costs config stopped = .error (.crashed text) ↔
      preflight bars costs config = .ok () ∧ space.size ≠ 0 ∧
        Enumeration.crash? space config = some text := by
  rw [run_eq]
  constructor
  · intro h
    rcases bind_eq_error_iff.1 h with h | ⟨_, hpreflight, h⟩
    · exact absurd h preflight_ne_crashed
    · by_cases hsize : space.size = 0
      · simp [hsize, bind_eq_error_iff] at h
      · cases hroom : Enumeration.crash? space config with
        | some text' =>
          simp only [hsize, hroom, if_false] at h
          cases h
          exact ⟨hpreflight, hsize, rfl⟩
        | none =>
          by_cases hadmitted : (Enumeration.ofConfig space config).admitted strategy = []
          · simp [hsize, hroom, hadmitted, bind_eq_error_iff] at h
          · simp [hsize, hroom, hadmitted, mapError_eq_error_iff] at h
  · rintro ⟨hpreflight, hsize, hroom⟩
    simp only [hpreflight, hsize, hroom, if_false]
    rfl

end Search

end Backtest
