import Backtest.Experiment.Basic
import Backtest.Proofs.Parameter.Acceptance
import Backtest.Proofs.Search.Grid
import Backtest.Proofs.Search.Sparse
import Backtest.Proofs.Strategy.Reliability
import Backtest.Proofs.WalkForward.Inversion

/-!
# Experiments that resolve

Everything that a run, a search and a walk-forward run check of their settings has been checked when
an experiment resolves, so over enough bars in order little is left that can stop them: a run whose
parameters break the strategy's own condition, and a search of which every candidate does. Two more
things can: a number range of so many steps that their count starts over leaves a search without a
point, and a search told to try more candidates than there can be room for crashes before the first.
-/

namespace Backtest

open Parameter

/-! ## Ranges without a point -/

theorem floorCount_le (bound : ℕ) (x : Float) : floorCount bound x ≤ bound := by
  unfold floorCount
  split
  · exact Nat.zero_le _
  · split <;> omega
  · split
    · exact Nat.zero_le _
    · exact Nat.min_le_left _ _

/-- The steps of a number range are more than can be counted. -/
def Parameter.Domain.Overflows (d : Domain Float) : Prop :=
  ∃ low high step value, d = .float low high step value ∧
    Scalar.floorUpTo maxCount ((high - low) / step + Domain.gridTolerance) = maxCount

theorem Parameter.Domain.gridLength_eq_zero_iff {d : Domain Float} (h : d.fault? = none)
    (hspans : d.Spans) : d.gridLength = 0 ↔ d.Overflows := by
  cases d with
  | int low high step value =>
    obtain ⟨hordered, hstep⟩ := bounds_of_fault?_int h
    simp [gridLength_int hordered hstep hspans, Overflows]
  | float low high step value =>
    obtain ⟨-, hordered, hstep, -⟩ := fault?_float_eq_none_iff.1 h
    have hle : Scalar.floorUpTo maxCount ((high - low) / step + gridTolerance) ≤ maxCount :=
      floorCount_le maxCount _
    simp only [gridLength, hordered, hstep, or_self, if_false]
    constructor
    · intro hzero
      refine ⟨low, high, step, value, rfl, ?_⟩
      by_contra hne
      rw [Nat.mod_eq_of_lt (by omega)] at hzero
      omega
    · rintro ⟨_, _, _, _, hdomain, hsteps⟩
      cases hdomain
      rw [hsteps, Nat.mod_self]
  | choice options value =>
    obtain ⟨hoptions, -⟩ := fault?_choice_eq_none_iff.1 h
    simp [gridLength, hoptions, Overflows]

/-! ## What resolving checks -/

theorem Registry.mem_list_of_get {α : Type} {r : Registry α} {name : String} {s : Strategy α}
    (h : r.get name = .ok s) : s ∈ r.list := by
  unfold get at h
  cases hget : r.strategies.get? name with
  | none => simp [hget] at h
  | some found =>
    rw [hget] at h
    cases h
    exact List.mem_map.2 ⟨(name, s), NameMap.mem_entries_iff.2 hget, rfl⟩

namespace Experiment

section

variable {α : Type} [Scalar α] {e : Experiment α} {registry : Registry α} {strategy : Strategy α}
  {space : Space α}

theorem resolve_eq_ok_iff :
    e.resolve registry = .ok strategy ↔
      registry.get e.strategy = .ok strategy ∧ strategy.schema.validate e.parameters = .ok () ∧
        e.costs.validate = .ok () ∧ e.search.validate = .ok () ∧ e.walkForward.validate = .ok () ∧
        ∃ space, e.space strategy = .ok space := by
  simp only [resolve, bind_eq_ok_iff, pure_eq_ok_iff]
  constructor
  · rintro ⟨_, hget, _, hvalid, _, hcosts, _, hsearch, _, hwalk, space, hspace, rfl⟩
    exact ⟨hget, hvalid, hcosts, hsearch, hwalk, space, hspace⟩
  · rintro ⟨hget, hvalid, hcosts, hsearch, hwalk, space, hspace⟩
    exact ⟨strategy, hget, (), hvalid, (), hcosts, (), hsearch, (), hwalk, space, hspace, rfl⟩

/-- The space of an experiment is reached by its ranges and then its pins. -/
theorem reached_of_space (h : e.space strategy = .ok space) :
    Space.Reached strategy.schema space := by
  unfold Experiment.space at h
  split at h
  · cases h
  · rw [bind_eq_ok_iff] at h
    obtain ⟨ranged, hranged, hpinned⟩ := h
    have hreached : Space.Reached strategy.schema ranged :=
      foldlM_invariant (fun _ _ _ hs ho => .override hs ho) .start hranged
    exact foldlM_invariant (fun _ _ _ hs hp => .pin hs hp) hreached hpinned

end

/-! ## What is left to fail -/

variable {e : Experiment Float} {strategy : Strategy Float} {space : Space Float}
  {bars : List (Bar Float)}

theorem run_cases (h : e.resolve Registry.builtins = .ok strategy) (hordered : Ordered bars)
    (hlength : Simulation.leastBars ≤ bars.length) :
    (∃ r, Evaluation.run bars strategy e.parameters e.costs e.search.barsPerYear = .ok r) ∨
      ∃ small smallValue large largeValue,
        Evaluation.run bars strategy e.parameters e.costs e.search.barsPerYear =
          .error (.rejected (.notLess small smallValue large largeValue)) := by
  obtain ⟨hget, hvalid, hcosts, hsearch, -⟩ := resolve_eq_ok_iff.1 h
  have hstrategy := Registry.mem_list_of_get hget
  have hscale := (SearchConfig.validate_eq_ok_iff.1 hsearch).1
  obtain ⟨full, hfull⟩ :=
    (Schema.exists_resolve_iff (Registry.sound_of_mem_builtins hstrategy).distinct).2 hvalid
  rcases Registry.constrain_of_mem_builtins hstrategy hfull with
    hholds | ⟨small, smallValue, large, largeValue, hbroken⟩
  · left
    have hresolve : strategy.resolve e.parameters = .ok full := by
      simp only [Strategy.resolve, bind_eq_ok_iff, pure_eq_ok_iff]
      exact ⟨full, hfull, (), hholds, rfl⟩
    obtain ⟨sim, hsim⟩ := (Simulation.exists_runFrom_builtin_iff hstrategy).2
      ⟨hcosts, (Nat.zero_add _).le.trans hlength, hordered, full, hresolve⟩
    exact ⟨_, Evaluation.runFrom_eq_ok_iff.2 ⟨hscale, sim, hsim, rfl⟩⟩
  · right
    have hresolve : strategy.resolve e.parameters =
        .error (.notLess small smallValue large largeValue) := by
      simp [Strategy.resolve, hfull, hbroken, bind, Except.bind]
    exact ⟨small, smallValue, large, largeValue, Evaluation.runFrom_of_rejected hscale hcosts
      ((Nat.zero_add _).le.trans hlength) hordered hresolve⟩

theorem search_cases (h : e.resolve Registry.builtins = .ok strategy) (hordered : Ordered bars)
    (hlength : Simulation.leastBars ≤ bars.length) (stopped : ℕ → Bool) :
    (space.size = 0 ∧
        Search.run bars strategy space e.costs e.search stopped = .error .emptySpace) ∨
      (space.size ≠ 0 ∧ ∃ text, Enumeration.crash? space e.search = some text ∧
        Search.run bars strategy space e.costs e.search stopped = .error (.crashed text)) ∨
      (space.size ≠ 0 ∧ Enumeration.crash? space e.search = none ∧
        ((∃ o, Search.run bars strategy space e.costs e.search stopped = .ok o) ∨
          ∃ n, Search.run bars strategy space e.costs e.search stopped =
            .error (.noValidCandidates n))) := by
  obtain ⟨-, -, hcosts, hsearch, -⟩ := resolve_eq_ok_iff.1 h
  have hpreflight := Search.preflight_eq_ok_iff.2 ⟨hcosts, hsearch, hlength, hordered⟩
  by_cases hsize : space.size = 0
  · left
    refine ⟨hsize, ?_⟩
    rw [Search.run_eq, hpreflight, if_pos hsize]
    rfl
  · right
    cases hroom : Enumeration.crash? space e.search with
    | some text =>
      exact .inl ⟨hsize, text, rfl, Search.run_eq_crashed_iff.2 ⟨hpreflight, hsize, hroom⟩⟩
    | none =>
      refine .inr ⟨hsize, rfl, ?_⟩
      by_cases hadmitted : (Enumeration.ofConfig space e.search).admitted strategy = []
      · right
        rw [Search.run_eq, hpreflight, if_neg hsize, hroom, hadmitted]
        exact ⟨_, rfl⟩
      · exact .inl (Search.exists_run_eq_ok_iff.2 ⟨hpreflight, hsize, hroom, hadmitted⟩)

def setup (e : Experiment Float) (bars : List (Bar Float)) (strategy : Strategy Float)
    (space : Space Float) : WalkForward.Setup Float :=
  ⟨bars, strategy, space, e.costs, e.search, e.walkForward⟩

theorem setup_ready (h : e.resolve Registry.builtins = .ok strategy) (hordered : Ordered bars)
    (hlength : max Simulation.leastBars (e.walkForward.trainLength + e.walkForward.testLength) ≤
      bars.length) : (e.setup bars strategy space).Ready where
  config := (resolve_eq_ok_iff.1 h).2.2.2.2.1
  preflight :=
    Search.preflight_eq_ok_iff.2 ⟨(resolve_eq_ok_iff.1 h).2.2.1, (resolve_eq_ok_iff.1 h).2.2.2.1,
      (le_max_left _ _).trans hlength, hordered⟩
  length := (Nat.min_le_left _ _).trans ((le_max_right _ _).trans hlength)

theorem exists_overflows (h : e.resolve Registry.builtins = .ok strategy)
    (hspace : e.space strategy = .ok space) (hsize : space.size = 0) :
    ∃ d ∈ space.dimensions, d.domain.Overflows := by
  have hstrategy := Registry.mem_list_of_get (resolve_eq_ok_iff.1 h).1
  have hcomplete := (reached_of_space hspace).complete
    (Registry.sound_of_mem_builtins hstrategy).distinct (Registry.check_of_mem_builtins hstrategy)
    (Registry.spans_of_mem_builtins hstrategy)
  obtain ⟨d, hd, hzero⟩ := Space.exists_gridLength_eq_zero hsize
  exact ⟨d, hd, (Domain.gridLength_eq_zero_iff (hcomplete.fault?_eq_none hd)
    (hcomplete.spans hd)).1 hzero⟩

def tinySteps : Experiment Float :=
  { Experiment.ofStrategy "momentum" with
    parameters := .ofList [("lookback", .int 5), ("allow_short", .choice "no")]
    ranges := [⟨"threshold", .float 0 0.1 1e-300⟩]
    search := { SearchConfig.standard with method := .random, trials := 1 }
    walkForward := { WalkForwardConfig.standard with trainLength := 3, testLength := 2 } }

def sixDays : List (Bar Float) :=
  [.still 2 100, .still 3 101, .still 4 102, .still 5 103, .still 8 104, .still 9 105]

end Experiment

end Backtest
