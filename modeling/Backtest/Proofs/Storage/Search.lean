import Backtest.Proofs.Scalar.Double
import Backtest.Proofs.Search.Ranking
import Backtest.Proofs.Simulation.Extent
import Backtest.Proofs.Storage.JsonText
import Backtest.Strategy.Threshold

/-!
# Stored searches read back

The text of a search is read back exactly if it holds no `null` in place of a number. A profit
factor may be infinite, for it is stored as a number or `null`; but the score of a candidate is
stored as a number only, so a search for the best profit factor is lost as soon as one candidate
has winners and no losers.
-/

namespace Backtest

open Document Storage

variable {bars : List (Bar Float)} {strategy : Strategy Float} {space : Space Float}
  {costs : Costs Float} {config : SearchConfig Float} {stopped : Nat → Bool}
  {o : SearchOutcome Float} {assigned : Parameter.Assignment Float} {barsPerYear : Float}
  {e : Evaluation Float}

/-! ## What runs and searches report is storable -/

theorem Simulation.Trade.Within.storable {t : Trade Float} (h : Simulation.Trade.Within bars t)
    (hbars : bars.length < UInt64.size) : StorableTrade t :=
  ⟨h.entryBar.trans hbars, h.exitBar.trans hbars⟩

theorem Evaluation.storable [Powers Float]
    (h : run bars strategy assigned costs barsPerYear = .ok e) (hbars : bars.length < UInt64.size) :
    StorableRun e := by
  obtain ⟨-, sim, hsim, rfl⟩ := runFrom_eq_ok_iff.1 h
  have hwithin := Simulation.runFrom_within hsim
  exact ⟨show 1 < UInt32.size by decide, fun t ht => (hwithin.trades t ht).storable hbars,
    hwithin.tradeCount.trans_lt hbars, hwithin.rejectedSignals.trans_lt hbars,
    hwithin.unfilledSignals.trans_lt hbars⟩

namespace Search

theorem candidates_length_lt (space : Space Float)
    (hcombinations : config.maxCombinations < UInt64.size) (htrials : config.trials < UInt64.size) :
    (Enumeration.ofConfig space config).candidates.length < UInt64.size ∧
      (Enumeration.ofConfig space config).duplicates < UInt64.size := by
  unfold Enumeration.ofConfig
  cases config.method with
  | grid =>
    rw [Enumeration.length_ofGrid, Enumeration.duplicates_ofGrid]
    exact ⟨(min_le_right _ _).trans_lt hcombinations, by decide⟩
  | random =>
    have hdraws := Enumeration.length_ofDraws space config.trials config.seed
    dsimp only
    omega

/-- What is ranked was run, and has its position in the enumeration. -/
theorem exists_run_of_mem_ranked (h : run bars strategy space costs config stopped = .ok o)
    {r : RankedCandidate Float} (hr : r ∈ o.ranked) :
    r.index < (Enumeration.ofConfig space config).candidates.length ∧
      ∃ e, Evaluation.run bars strategy r.resolved costs config.barsPerYear = .ok e ∧
        r.metrics = e.metrics ∧ r.score = config.target.score e.metrics := by
  rw [ranked_of_run_eq_ok h, (rank_perm _).mem_iff, mem_filterMap_ranked?] at hr
  obtain ⟨c, hc, hjudge⟩ := hr
  obtain ⟨-, e, he, rfl⟩ := judge_eq_ranked_iff.1 hjudge
  exact ⟨(List.getElem?_eq_some_iff.1 (Enumeration.mem_admitted_iff.1 hc).1).1, e, he, rfl, rfl⟩

theorem index_lt_of_mem_failures (h : run bars strategy space costs config stopped = .ok o)
    {f : FailedCandidate Float} (hf : f ∈ o.failures) :
    f.index < (Enumeration.ofConfig space config).candidates.length := by
  rw [(run_eq_ok_iff.1 h).report] at hf
  obtain ⟨c, hc, hjudge⟩ := mem_filterMap_failed?.1 hf
  obtain ⟨-, e, he, rfl⟩ := judge_eq_failed_iff.1 hjudge
  exact (List.getElem?_eq_some_iff.1 (Enumeration.mem_admitted_iff.1 hc).1).1

/-- The best run is the run of the first ranked candidate. -/
theorem exists_top_of_best (h : run bars strategy space costs config stopped = .ok o)
    (hbest : o.best = some e) :
    ∃ top ∈ o.ranked, Evaluation.run bars strategy top.resolved costs config.barsPerYear = .ok e ∧
      e.metrics = top.metrics := by
  have hreplay := (run_eq_ok_iff.1 h).replay
  cases hranked : o.ranked with
  | nil =>
    rw [hranked, hbest] at hreplay
    cases hreplay
  | cons top rest =>
    have htop : o.ranked.head? = some top := by rw [hranked, List.head?_cons]
    rw [hranked, hbest] at hreplay
    obtain ⟨e', he, hsome⟩ := map_eq_ok_iff.1 hreplay
    obtain rfl := Option.some.inj hsome
    exact ⟨top, List.mem_cons_self, he, (best_eq_top h hbest htop).2⟩

theorem storable (h : run bars strategy space costs config stopped = .ok o)
    (hbars : bars.length < UInt64.size)
    (hcombinations : config.maxCombinations < UInt64.size)
    (htrials : config.trials < UInt64.size) : StorableSearch o := by
  obtain ⟨hcandidates, hduplicates⟩ := candidates_length_lt space hcombinations htrials
  have ho := (run_eq_ok_iff.1 h).report
  refine
    { best := fun e he => ?_
      rankedIndex := fun c hc => (exists_run_of_mem_ranked h hc).1.trans hcandidates
      tradeCount := fun c hc => ?_
      failedIndex := fun c hc => (index_lt_of_mem_failures h hc).trans hcandidates
      totalCandidates := ?_
      skippedInvalid := ?_
      duplicatesDropped := ?_ }
  · obtain ⟨top, -, hrun, -⟩ := exists_top_of_best h he
    exact Evaluation.storable hrun hbars
  · obtain ⟨-, e, he, hmetrics, -⟩ := exists_run_of_mem_ranked h hc
    rw [hmetrics]
    exact (Evaluation.storable he hbars).tradeCount
  · rw [ho]
    exact hcandidates
  · rw [ho]
    exact (Nat.sub_le _ _).trans_lt hcandidates
  · rw [ho]
    exact hduplicates

/-! ## What comes back -/

theorem restoredMetrics_eq_iff {m : Metrics Float} :
    restoredMetrics m = m ↔
      m.profitFactor.isFinite = true ∨ m.profitFactor = Scalar.infinity := by
  obtain ⟨_, _, _, _, _, _, _, factor, _⟩ := m
  simp only [restoredMetrics, Metrics.mk.injEq, true_and, and_true]
  cases factor.isFinite <;> simp [eq_comm]

theorem map_restoredRanked_eq_iff {cs : List (RankedCandidate Float)} :
    cs.map restoredRanked = cs ↔ ∀ c ∈ cs, restoredMetrics c.metrics = c.metrics := by
  induction cs with
  | nil => simp
  | cons c cs ih =>
    obtain ⟨index, parameters, resolved, metrics, score⟩ := c
    simp [ih, restoredRanked]

/-- A search comes back as it was exactly if every profit factor that is not finite is infinity. -/
theorem restoredSearch_eq_iff (h : run bars strategy space costs config stopped = .ok o) :
    restoredSearch o = o ↔
      ∀ c ∈ o.ranked, c.metrics.profitFactor.isFinite = true ∨
        c.metrics.profitFactor = Scalar.infinity := by
  simp only [← restoredMetrics_eq_iff, ← map_restoredRanked_eq_iff]
  constructor
  · intro hsame
    exact congrArg SearchOutcome.ranked hsame
  · intro hranked
    have hbest : o.best.map restoredRun = o.best := by
      cases hb : o.best with
      | none => rfl
      | some e =>
        obtain ⟨top, htop, -, hmetrics⟩ := exists_top_of_best h hb
        have hsame := map_restoredRanked_eq_iff.1 hranked top htop
        rw [Option.map_some, restoredRun, hmetrics, hsame, ← hmetrics]
    rw [restoredSearch, hbest, hranked]

/-- A score that is not finite is written as `null`. -/
theorem isFinite_score (h : (ofOutcome o).AllFinite) {c : RankedCandidate Float}
    (hc : c ∈ o.ranked) : c.score.isFinite = true := by
  simp only [ofOutcome, allFinite_object, List.forall_mem_cons, allFinite_list,
    List.forall_mem_map] at h
  have hranked := h.2.2.2.1 c hc
  simp only [ofRanked, allFinite_object, List.forall_mem_cons, allFinite_float] at hranked
  exact hranked.2.2.2.2.1

/-- Of all targets only the profit factor can have a score that is not finite while the figures
that are stored as numbers are. -/
theorem isFinite_score_of_ne {t : Target} (ht : t ≠ .profitFactor) {m : Metrics Float}
    (h : (ofMetrics m).AllFinite) : (t.score m).isFinite = true := by
  simp only [ofMetrics, allFinite_object, List.forall_mem_cons, allFinite_float] at h
  obtain ⟨htotal, hgrowth, hsharpe, hsortino, hfall, hcalmar, hwins, -⟩ := h
  cases t with
  | profitFactor => exact absurd rfl ht
  | maxDrawdown => exact Reading.isFinite_neg (x := m.maxDrawdown) hfall
  | sharpe => exact hsharpe
  | sortino => exact hsortino
  | calmar => exact hcalmar
  | annualGrowth => exact hgrowth
  | totalReturn => exact htotal
  | winRate => exact hwins

end Search

/-- A search is read back from its text exactly if every number that the text should show is finite
and no profit factor but a finite one or infinity was stored as `null`. In a search for the best
profit factor the scores are such numbers, so its text cannot be read at all as soon as a candidate
has a profit factor that is not finite. Other scores are finite whenever the candidate's figures
are. -/
theorem Search.reads_back_iff (bars : List (Bar Float)) (strategy : Strategy Float)
    (space : Space Float) (costs : Costs Float) (config : SearchConfig Float)
    (stopped : Nat → Bool) (o : SearchOutcome Float)
    (h : run bars strategy space costs config stopped = .ok o)
    (hbars : bars.length < UInt64.size)
    (hcombinations : config.maxCombinations < UInt64.size)
    (htrials : config.trials < UInt64.size) :
    ((Json.read? (Json.pretty (ofOutcome o))).bind outcome? = some o ↔
      (ofOutcome o).AllFinite ∧ ∀ c ∈ o.ranked, c.metrics.profitFactor.isFinite = true ∨
        c.metrics.profitFactor = Scalar.infinity) ∧
    (config.target = .profitFactor →
      (∃ c ∈ o.ranked, c.metrics.profitFactor.isFinite = false) →
        (Json.read? (Json.pretty (ofOutcome o))).bind outcome? = none) ∧
    (config.target ≠ .profitFactor →
      ∀ c ∈ o.ranked, (ofMetrics c.metrics).AllFinite → c.score.isFinite = true) := by
  have hstorable := storable h hbars hcombinations htrials
  have hread : Json.read? (Json.pretty (ofOutcome o)) = some (ofOutcome o).written :=
    Json.read?_pretty ((readable_search (k := 0) hstorable).mono (by decide))
  have hrestores := restores_search hstorable
  rw [hread, Option.bind_some]
  refine ⟨(hrestores o).trans (and_congr_right fun _ => restoredSearch_eq_iff h), ?_, ?_⟩
  · rintro htarget ⟨c, hc, hfactor⟩
    refine Option.eq_none_iff_forall_ne_some.2 fun r hr => ?_
    have hscore := isFinite_score ((hrestores r).1 hr).1 hc
    obtain ⟨-, e, -, hmetrics, hscored⟩ := exists_run_of_mem_ranked h hc
    rw [hscored, htarget, ← hmetrics] at hscore
    exact Bool.false_ne_true (hfactor.symm.trans hscore)
  · intro htarget c hc hfinite
    obtain ⟨-, e, -, hmetrics, hscored⟩ := exists_run_of_mem_ranked h hc
    rw [hscored, ← hmetrics]
    exact isFinite_score_of_ne htarget hfinite

namespace Search

def rebound : List (Bar Float) :=
  [.still 2 100, .still 3 90, .still 4 80, .still 5 70,
    { Bar.still 8 (100 : Float) with openPrice := 80 }, .still 9 120]

def oversold : Space Float where
  schema := Threshold.schema
  dimensions := []
  pins := .ofList [("period", .int 2), ("lower", .float 30), ("upper", .float 70)]

def mostProfitable : SearchConfig Float := { SearchConfig.standard with target := .profitFactor }

/-- One winner and no loser: the search ends well, and its text cannot be read. -/
theorem reads_back_iff_rebound :
    ∃ o, run rebound Threshold.strategy oversold .standard mostProfitable never = .ok o ∧
      (∃ c ∈ o.ranked, c.metrics.profitFactor.isFinite = false) ∧
      (Json.read? (Json.pretty (ofOutcome o))).bind outcome? = none := by
  have hfactors : (run rebound Threshold.strategy oversold .standard mostProfitable
      never).toOption.map (fun o => o.ranked.map fun c => c.metrics.profitFactor.isFinite) =
        some [false] := by decide +kernel
  obtain ⟨o, ho, hfactors⟩ := Option.map_eq_some_iff.1 hfactors
  have h := toOption_eq_some_iff.1 ho
  have hinfinite : ∃ c ∈ o.ranked, c.metrics.profitFactor.isFinite = false :=
    List.mem_map.1 (hfactors ▸ List.mem_cons_self)
  obtain ⟨-, hlost, -⟩ := reads_back_iff rebound Threshold.strategy oversold .standard
    mostProfitable never o h (by decide) (by decide) (by decide)
  exact ⟨o, h, hinfinite, hlost rfl hinfinite⟩

end Search

end Backtest
