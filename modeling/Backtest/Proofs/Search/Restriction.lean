import Backtest.Proofs.Search.Accounting
import Backtest.Proofs.Search.Ranking

/-!
# Stopping a search

A search that is told to stop leaves out the candidates that it comes to afterwards and does nothing
else: what it ranks and what it records as failed is what a search that is never stopped would, less
the candidates left out. Which ones they are does not matter, so this holds in whatever order the
candidates are run and at whatever moment the request is raised.
-/

namespace Backtest.Search

section

variable {α : Type} [Scalar α] [Powers α] {bars : List (Bar α)} {strategy : Strategy α}
  {space : Space α} {costs : Costs α} {config : SearchConfig α} {stopped : Nat → Bool}

theorem judge_eq_ite (bars : List (Bar α)) (strategy : Strategy α) (costs : Costs α)
    (config : SearchConfig α) (stopped : Nat → Bool) (c : Candidate α) :
    judge bars strategy costs config stopped c =
      if stopped c.index then .stopped else judge bars strategy costs config never c := by
  cases hstopped : stopped c.index with
  | true => simp [judge, hstopped]
  | false => simp [judge, hstopped, never]

variable [Random.Uniform α]

/-- What is picked from the verdicts of a stopped search is what is picked from those of a full one,
less the candidates left out. -/
theorem filterMap_verdicts_eq_filter {β : Type} {pick : Verdict α → Option β} {position : β → Nat}
    (bars : List (Bar α)) (strategy : Strategy α) (space : Space α) (costs : Costs α)
    (config : SearchConfig α) (stopped : Nat → Bool) (hnone : pick .stopped = none)
    (hposition : ∀ c b, pick (judge bars strategy costs config never c) = some b →
      position b = c.index) :
    (verdicts bars strategy space costs config stopped).filterMap pick =
      ((verdicts bars strategy space costs config never).filterMap pick).filter
        fun b => !stopped (position b) := by
  rw [verdicts, verdicts, List.filterMap_map, List.filterMap_map, List.filter_filterMap]
  refine List.filterMap_congr fun c _ => ?_
  rw [Function.comp_apply, Function.comp_apply, judge_eq_ite]
  cases hpick : pick (judge bars strategy costs config never c) with
  | none => cases stopped c.index <;> simp [hpick, hnone]
  | some b =>
    have hindex := hposition c b hpick
    cases hstopped : stopped c.index <;> simp [hpick, hnone, hindex, hstopped, Option.filter]

theorem filterMap_ranked?_eq_filter (bars : List (Bar α)) (strategy : Strategy α)
    (space : Space α) (costs : Costs α) (config : SearchConfig α) (stopped : Nat → Bool) :
    (verdicts bars strategy space costs config stopped).filterMap Verdict.ranked? =
      ((verdicts bars strategy space costs config never).filterMap Verdict.ranked?).filter
        fun c => !stopped c.index := by
  refine filterMap_verdicts_eq_filter _ _ _ _ _ _ rfl fun c r hr => ?_
  obtain ⟨-, _, -, rfl⟩ := judge_eq_ranked_iff.1 (ranked?_eq_some_iff.1 hr)
  rfl

theorem filterMap_failed?_eq_filter (bars : List (Bar α)) (strategy : Strategy α)
    (space : Space α) (costs : Costs α) (config : SearchConfig α) (stopped : Nat → Bool) :
    (verdicts bars strategy space costs config stopped).filterMap Verdict.failed? =
      ((verdicts bars strategy space costs config never).filterMap Verdict.failed?).filter
        fun c => !stopped c.index := by
  refine filterMap_verdicts_eq_filter _ _ _ _ _ _ rfl fun c f hf => ?_
  obtain ⟨-, _, -, rfl⟩ := judge_eq_failed_iff.1 (failed?_eq_some_iff.1 hf)
  rfl

/-- An admitted candidate is left out exactly if it is neither ranked nor failed. -/
theorem stopped_iff_of_mem_admitted {c : Candidate α}
    (hc : c ∈ (Enumeration.ofConfig space config).admitted strategy) :
    stopped c.index = true ↔
      ¬Stands bars strategy space costs config stopped c.index .ranked ∧
        ¬Stands bars strategy space costs config stopped c.index .failed := by
  obtain ⟨hget, hresolve⟩ := Enumeration.mem_admitted_iff.1 hc
  constructor
  · intro hstopped
    have hleft : Stands bars strategy space costs config stopped c.index .unevaluated :=
      .unevaluated hget hresolve hstopped
    constructor <;> intro h <;> cases hleft.unique h
  · rintro ⟨hranked, hfailed⟩
    refine Bool.of_not_eq_false fun hgoes => ?_
    cases hrun : Evaluation.run bars strategy c.resolved costs config.barsPerYear with
    | ok e => exact hranked (.ranked hget hresolve hgoes hrun)
    | error e => exact hfailed (.failed hget hresolve hgoes hrun)

variable {o : SearchOutcome α}

theorem mem_ranked_iff_stands (h : run bars strategy space costs config stopped = .ok o)
    {i : Nat} : i ∈ o.ranked.map (·.index) ↔
      Stands bars strategy space costs config stopped i .ranked := by
  rw [ranked_of_run_eq_ok h, ← mem_ranked_map_index_iff]
  exact ((rank_perm _).map _).mem_iff

theorem mem_failures_iff_stands (h : run bars strategy space costs config stopped = .ok o)
    {i : Nat} : i ∈ o.failures.map (·.index) ↔
      Stands bars strategy space costs config stopped i .failed := by
  rw [(run_eq_ok_iff.1 h).report]
  exact mem_failures_map_index_iff

/-- A search is cancelled exactly if an admitted candidate is missing from its report. -/
theorem cancelled_iff (h : run bars strategy space costs config stopped = .ok o) :
    o.cancelled = true ↔ ∃ c ∈ (Enumeration.ofConfig space config).admitted strategy,
      c.index ∉ o.ranked.map (·.index) ∧ c.index ∉ o.failures.map (·.index) := by
  have hcancelled : o.cancelled =
      (verdicts bars strategy space costs config stopped).any Verdict.isStopped := by
    rw [(run_eq_ok_iff.1 h).report]
    rfl
  simp only [hcancelled, verdicts, List.any_map, List.any_eq_true, Function.comp_apply,
    judge_isStopped, mem_ranked_iff_stands h, mem_failures_iff_stands h]
  exact exists_congr fun c => and_congr_right fun hc => stopped_iff_of_mem_admitted hc

/-- The best run is the run of the first ranked candidate, if there is one. -/
theorem best_eq_bind (h : run bars strategy space costs config stopped = .ok o) :
    o.best = o.ranked.head?.bind fun top =>
      (Evaluation.run bars strategy top.resolved costs config.barsPerYear).toOption := by
  have hreplay := (run_eq_ok_iff.1 h).replay
  cases hranked : o.ranked with
  | nil =>
    rw [hranked] at hreplay
    exact (Except.ok.inj hreplay).symm
  | cons top rest =>
    rw [hranked] at hreplay
    obtain ⟨e, he, hbest⟩ := map_eq_ok_iff.1 hreplay
    rw [List.head?_cons, Option.bind_some, he, ← hbest]
    rfl

/-- Whether a search begins, and why it does not, has nothing to do with stopping. -/
theorem run_eq_error {stopped' : Nat → Bool} {error : SearchError α}
    (h : run bars strategy space costs config stopped = .error error) :
    run bars strategy space costs config stopped' = .error error := by
  cases hpreflight : preflight bars costs config with
  | error e =>
    rw [run_eq, hpreflight] at h ⊢
    exact h
  | ok _ =>
    by_cases hsize : space.size = 0
    · simp only [run_eq, hpreflight, if_pos hsize] at h ⊢
      exact h
    · cases hroom : Enumeration.crash? space config with
      | some text =>
        simp only [run_eq, hpreflight, if_neg hsize, hroom] at h ⊢
        exact h
      | none =>
        by_cases hadmitted : (Enumeration.ofConfig space config).admitted strategy = []
        · simp only [run_eq, hpreflight, if_neg hsize, hroom, hadmitted, List.isEmpty_nil] at h ⊢
          exact h
        · -- the search begins, so it gives a result
          obtain ⟨o, ho⟩ := exists_run_eq_ok_iff.2 ⟨hpreflight, hsize, hroom, hadmitted⟩
          cases h.symm.trans ho

end

/-- Ranking some of the candidates is leaving the others out of the ranking. -/
theorem rank_filter {α : Type} [Scalar α] [Reading α] {cs : List (RankedCandidate α)}
    (h : cs.Pairwise fun a b => a.index ≠ b.index) (p : RankedCandidate α → Bool) :
    rank (cs.filter p) = (rank cs).filter p :=
  eq_of_perm_of_pairwise ((rank_perm _).trans ((rank_perm cs).filter p).symm)
    (rank_pairwise (h.filter p)) ((rank_pairwise h).filter p)

/-- On doubles, whichever candidates a search is told to stop at: it fails as the full search does,
and otherwise it reports the full search's ranking and failures in their order, less the candidates
left out, repeats the run of the first candidate that remains, counts the same candidates, and is
cancelled exactly if an admitted candidate was left out. -/
theorem run_restricts (bars : List (Bar Float)) (strategy : Strategy Float) (space : Space Float)
    (costs : Costs Float) (config : SearchConfig Float) (stopped : Nat → Bool) :
    (∀ error, run bars strategy space costs config never = .error error →
      run bars strategy space costs config stopped = .error error) ∧
    ∀ full, run bars strategy space costs config never = .ok full →
      ∃ o, run bars strategy space costs config stopped = .ok o ∧
        o.ranked = full.ranked.filter (fun c => !stopped c.index) ∧
        o.failures = full.failures.filter (fun c => !stopped c.index) ∧
        (o.best = o.ranked.head?.bind fun top =>
            (Evaluation.run bars strategy top.resolved costs config.barsPerYear).toOption) ∧
        (o.best.isSome ↔ o.ranked ≠ []) ∧
        o.totalCandidates = full.totalCandidates ∧ o.skippedInvalid = full.skippedInvalid ∧
        o.duplicatesDropped = full.duplicatesDropped ∧ o.warnings = full.warnings ∧
        full.cancelled = false ∧
        (o.cancelled = true ↔ ∃ c ∈ (Enumeration.ofConfig space config).admitted strategy,
          c.index ∉ o.ranked.map (·.index) ∧ c.index ∉ o.failures.map (·.index)) := by
  refine ⟨fun error h => run_eq_error h, fun full hfull => ?_⟩
  obtain ⟨o, h⟩ : ∃ o, run bars strategy space costs config stopped = .ok o :=
    exists_run_eq_ok_iff.2 (exists_run_eq_ok_iff.1 ⟨full, hfull⟩)
  have ho := (run_eq_ok_iff.1 h).report
  have hfull' := (run_eq_ok_iff.1 hfull).report
  have hdistinct := (filterMap_ranked?_ordered bars strategy space costs config never).imp
    Nat.ne_of_lt
  have hnever : ¬full.cancelled = true := by
    rw [cancelled_iff hfull]
    rintro ⟨c, hc, hmissing⟩
    rw [mem_ranked_iff_stands hfull, mem_failures_iff_stands hfull,
      ← stopped_iff_of_mem_admitted hc] at hmissing
    exact Bool.false_ne_true hmissing
  refine ⟨o, h, ?_, ?_, best_eq_bind h, best_isSome_iff h, ?_, ?_, ?_, ?_,
    Bool.eq_false_iff.2 hnever, cancelled_iff h⟩
  · rw [ranked_of_run_eq_ok h, ranked_of_run_eq_ok hfull, filterMap_ranked?_eq_filter,
      rank_filter hdistinct]
  · rw [ho, hfull']
    exact filterMap_failed?_eq_filter bars strategy space costs config stopped
  all_goals
    rw [ho, hfull']
    rfl

/-- Two candidates, told to stop at the first: the second one is ranked alone. -/
theorem run_restricts_steady :
    ∃ full o, run fallingDays steady (.ofSchema steady.schema) .standard .standard never =
        .ok full ∧
      run fallingDays steady (.ofSchema steady.schema) .standard .standard (· == 0) = .ok o ∧
      o.ranked = full.ranked.filter (fun c => !c.index == 0) ∧ 0 ∉ o.ranked.map (·.index) ∧
      1 ∈ o.ranked.map (·.index) ∧ o.best.isSome ∧ o.cancelled = true ∧
      full.cancelled = false := by
  obtain ⟨full, hfull⟩ := exists_run_eq_ok_iff.2 steady_begins
  obtain ⟨o, h, hranked, hfailures, -, hbest, -, -, -, -, hnever, hcancelled⟩ :=
    (run_restricts fallingDays steady (.ofSchema steady.schema) .standard .standard (· == 0)).2
      full hfull
  obtain ⟨e, he⟩ : ∃ e, Evaluation.run fallingDays steady (.ofList [("n", .int 2)]) .standard
      (SearchConfig.standard : SearchConfig Float).barsPerYear = .ok e :=
    exists_eq_ok (by decide +kernel)
  have hfirst : 0 ∉ o.ranked.map (·.index) := by simp [hranked]
  have hsecond : 1 ∈ o.ranked.map (·.index) :=
    (mem_ranked_iff_stands h).2 (.ranked rfl rfl rfl he)
  exact ⟨full, o, hfull, h, hranked, hfirst, hsecond,
    hbest.2 fun hnil => by simp [hnil] at hsecond,
    hcancelled.2 ⟨⟨0, _, _⟩, Enumeration.mem_admitted_iff.2 ⟨rfl, rfl⟩, hfirst,
      by simp [hfailures]⟩, hnever⟩

end Backtest.Search
