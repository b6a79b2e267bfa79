import Mathlib.Data.Set.Card
import Backtest.Proofs.Scalar.Rational
import Backtest.Proofs.Search.Candidates

/-!
# No candidate is lost

Every position of the enumeration has exactly one standing, and the counts that a search reports
are the numbers of positions of each standing, in whatever pattern candidates are excluded, fail,
succeed or are stopped.
-/

namespace Backtest.Search

/-- What a search has made of a candidate. -/
inductive Standing where
  /-- Excluded by the strategy's conditions. -/
  | skipped
  /-- Run without a result. -/
  | failed
  | ranked
  /-- Not run, as the search had been stopped. -/
  | unevaluated

variable {α : Type} [Scalar α] [Powers α] [Random.Uniform α] {bars : List (Bar α)}
  {strategy : Strategy α} {space : Space α} {costs : Costs α} {config : SearchConfig α}
  {stopped : Nat → Bool} {o : SearchOutcome α} {i : Nat} {standing standing' : Standing}

/-- The standing of a position of the enumeration, by what its candidate comes to when it is
resolved and run. -/
inductive Stands (bars : List (Bar α)) (strategy : Strategy α) (space : Space α) (costs : Costs α)
    (config : SearchConfig α) (stopped : Nat → Bool) (i : Nat) : Standing → Prop
  | skipped {parameters rejection}
      (hget : (Enumeration.ofConfig space config).candidates[i]? = some parameters)
      (hresolve : strategy.resolve parameters = .error rejection) :
      Stands bars strategy space costs config stopped i .skipped
  | failed {parameters resolved error}
      (hget : (Enumeration.ofConfig space config).candidates[i]? = some parameters)
      (hresolve : strategy.resolve parameters = .ok resolved) (hgoes : stopped i = false)
      (hrun : Evaluation.run bars strategy resolved costs config.barsPerYear = .error error) :
      Stands bars strategy space costs config stopped i .failed
  | ranked {parameters resolved evaluation}
      (hget : (Enumeration.ofConfig space config).candidates[i]? = some parameters)
      (hresolve : strategy.resolve parameters = .ok resolved) (hgoes : stopped i = false)
      (hrun : Evaluation.run bars strategy resolved costs config.barsPerYear = .ok evaluation) :
      Stands bars strategy space costs config stopped i .ranked
  | unevaluated {parameters resolved}
      (hget : (Enumeration.ofConfig space config).candidates[i]? = some parameters)
      (hresolve : strategy.resolve parameters = .ok resolved) (hstopped : stopped i = true) :
      Stands bars strategy space costs config stopped i .unevaluated

theorem Stands.unique (h : Stands bars strategy space costs config stopped i standing)
    (h' : Stands bars strategy space costs config stopped i standing') : standing = standing' := by
  cases h <;> cases h' <;> simp_all

theorem Stands.lt_length (h : Stands bars strategy space costs config stopped i standing) :
    i < (Enumeration.ofConfig space config).candidates.length := by
  cases h <;> exact (List.getElem?_eq_some_iff.1 ‹_›).1

theorem exists_stands (bars : List (Bar α)) (strategy : Strategy α) (costs : Costs α)
    (stopped : Nat → Bool) (hi : i < (Enumeration.ofConfig space config).candidates.length) :
    ∃ standing, Stands bars strategy space costs config stopped i standing := by
  have hget := List.getElem?_eq_getElem hi
  cases hresolve : strategy.resolve (Enumeration.ofConfig space config).candidates[i] with
  | error rejection => exact ⟨_, .skipped hget hresolve⟩
  | ok resolved =>
    cases hstopped : stopped i with
    | true => exact ⟨_, .unevaluated hget hresolve hstopped⟩
    | false =>
      cases hrun : Evaluation.run bars strategy resolved costs config.barsPerYear with
      | error error => exact ⟨_, .failed hget hresolve hstopped hrun⟩
      | ok evaluation => exact ⟨_, .ranked hget hresolve hstopped hrun⟩

/-! ## Where each standing is listed -/

omit [Powers α] in
theorem mem_admitted_map_index_iff :
    i ∈ ((Enumeration.ofConfig space config).admitted strategy).map (·.index) ↔
      ∃ parameters resolved,
        (Enumeration.ofConfig space config).candidates[i]? = some parameters ∧
          strategy.resolve parameters = .ok resolved := by
  simp only [List.mem_map, Enumeration.mem_admitted_iff]
  constructor
  · rintro ⟨c, ⟨hget, hresolve⟩, rfl⟩
    exact ⟨c.parameters, c.resolved, hget, hresolve⟩
  · rintro ⟨parameters, resolved, hget, hresolve⟩
    exact ⟨⟨i, parameters, resolved⟩, ⟨hget, hresolve⟩, rfl⟩

theorem mem_ranked_map_index_iff :
    i ∈ ((verdicts bars strategy space costs config stopped).filterMap Verdict.ranked?).map
        (·.index) ↔
      Stands bars strategy space costs config stopped i .ranked := by
  simp only [List.mem_map, mem_filterMap_ranked?, judge_eq_ranked_iff, Enumeration.mem_admitted_iff]
  constructor
  · rintro ⟨r, ⟨c, ⟨hget, hresolve⟩, hgoes, e, hrun, rfl⟩, rfl⟩
    exact .ranked hget hresolve hgoes hrun
  · intro h
    cases h with
    | ranked hget hresolve hgoes hrun =>
      exact ⟨_, ⟨⟨i, _, _⟩, ⟨hget, hresolve⟩, hgoes, _, hrun, rfl⟩, rfl⟩

theorem mem_failures_map_index_iff :
    i ∈ ((verdicts bars strategy space costs config stopped).filterMap Verdict.failed?).map
        (·.index) ↔
      Stands bars strategy space costs config stopped i .failed := by
  simp only [List.mem_map, mem_filterMap_failed?, judge_eq_failed_iff, Enumeration.mem_admitted_iff]
  constructor
  · rintro ⟨f, ⟨c, ⟨hget, hresolve⟩, hgoes, e, hrun, rfl⟩, rfl⟩
    exact .failed hget hresolve hgoes hrun
  · intro h
    cases h with
    | failed hget hresolve hgoes hrun =>
      exact ⟨_, ⟨⟨i, _, _⟩, ⟨hget, hresolve⟩, hgoes, _, hrun, rfl⟩, rfl⟩

theorem any_isStopped_iff :
    (verdicts bars strategy space costs config stopped).any Verdict.isStopped = true ↔
      ∃ i, Stands bars strategy space costs config stopped i .unevaluated := by
  simp only [verdicts, List.any_map, List.any_eq_true, Function.comp_apply, judge_isStopped,
    Enumeration.mem_admitted_iff]
  constructor
  · rintro ⟨c, ⟨hget, hresolve⟩, hstopped⟩
    exact ⟨c.index, .unevaluated hget hresolve hstopped⟩
  · rintro ⟨i, h⟩
    cases h with
    | unevaluated hget hresolve hstopped => exact ⟨⟨i, _, _⟩, ⟨hget, hresolve⟩, hstopped⟩

/-! ## Counts -/

def positions (bars : List (Bar α)) (strategy : Strategy α) (space : Space α) (costs : Costs α)
    (config : SearchConfig α) (stopped : Nat → Bool) (standing : Standing) : Set Nat :=
  {i | Stands bars strategy space costs config stopped i standing}

/-- The positions that a list of ordered positions names are as many as its entries. -/
theorem ncard_of_ordered {β : Type} {l : List β} (position : β → Nat) {s : Set Nat}
    (h : l.Pairwise fun a b => position a < position b)
    (hs : ∀ i, i ∈ l.map position ↔ i ∈ s) : s.ncard = l.length := by
  have hnodup : (l.map position).Nodup := (List.pairwise_map.2 h).imp Nat.ne_of_lt
  have hset : s = ((l.map position).toFinset : Set Nat) := by
    ext i
    simp [← hs]
  rw [hset, Set.ncard_coe_finset, List.toFinset_card_of_nodup hnodup, List.length_map]

theorem ncard_ranked :
    (positions bars strategy space costs config stopped .ranked).ncard =
      ((verdicts bars strategy space costs config stopped).filterMap Verdict.ranked?).length :=
  ncard_of_ordered _ (filterMap_ranked?_ordered ..) fun _ => mem_ranked_map_index_iff

theorem ncard_failed :
    (positions bars strategy space costs config stopped .failed).ncard =
      ((verdicts bars strategy space costs config stopped).filterMap Verdict.failed?).length :=
  ncard_of_ordered _ (filterMap_failed?_ordered ..) fun _ => mem_failures_map_index_iff

def admittedPositions (strategy : Strategy α) (space : Space α) (config : SearchConfig α) :
    Set Nat :=
  {i | i ∈ ((Enumeration.ofConfig space config).admitted strategy).map (·.index)}

def allPositions (space : Space α) (config : SearchConfig α) : Set Nat :=
  {i | i < (Enumeration.ofConfig space config).candidates.length}

omit [Powers α] in
theorem admittedPositions_subset :
    admittedPositions strategy space config ⊆ allPositions space config := by
  intro i hi
  obtain ⟨parameters, -, hget, -⟩ := mem_admitted_map_index_iff.1 hi
  exact (List.getElem?_eq_some_iff.1 hget).1

/-- What is not admitted is skipped. -/
theorem positions_skipped :
    positions bars strategy space costs config stopped .skipped =
      allPositions space config \ admittedPositions strategy space config := by
  ext i
  constructor
  · intro h
    refine ⟨h.lt_length, fun hi => ?_⟩
    obtain ⟨parameters, resolved, hget, hresolve⟩ := mem_admitted_map_index_iff.1 hi
    cases h with
    | skipped hget' hresolve' => simp_all
  · rintro ⟨hi, hnot⟩
    have hget := List.getElem?_eq_getElem hi
    cases hresolve : strategy.resolve (Enumeration.ofConfig space config).candidates[i] with
    | error rejection => exact .skipped hget hresolve
    | ok resolved => exact absurd (mem_admitted_map_index_iff.2 ⟨_, _, hget, hresolve⟩) hnot

theorem ncard_skipped :
    (positions bars strategy space costs config stopped .skipped).ncard =
      (Enumeration.ofConfig space config).candidates.length -
        ((Enumeration.ofConfig space config).admitted strategy).length := by
  have hall : (allPositions space config).ncard =
      (Enumeration.ofConfig space config).candidates.length := by
    rw [ncard_of_ordered id List.pairwise_lt_range fun i => ?_, List.length_range]
    simp [allPositions]
  have hadmitted : (admittedPositions strategy space config).ncard =
      ((Enumeration.ofConfig space config).admitted strategy).length :=
    ncard_of_ordered _ Enumeration.admitted_ordered fun _ => Iff.rfl
  rw [positions_skipped, Set.ncard_sdiff admittedPositions_subset (List.finite_toSet _), hall,
    hadmitted]

/-- Every position has exactly one standing, the lists and counts of a search's report are those of
the standings, and the enumeration has as many positions as the method asks for. -/
theorem run_accounts (h : run bars strategy space costs config stopped = .ok o) :
    ((∀ i < o.totalCandidates, ∃! standing,
        Stands bars strategy space costs config stopped i standing) ∧
      ∀ i standing, Stands bars strategy space costs config stopped i standing →
        i < o.totalCandidates) ∧
    ((∀ i, i ∈ o.ranked.map (·.index) ↔
        Stands bars strategy space costs config stopped i .ranked) ∧
      ∀ i, i ∈ o.failures.map (·.index) ↔
        Stands bars strategy space costs config stopped i .failed) ∧
    (o.skippedInvalid = (positions bars strategy space costs config stopped .skipped).ncard ∧
      o.failures.length = (positions bars strategy space costs config stopped .failed).ncard ∧
      o.ranked.length = (positions bars strategy space costs config stopped .ranked).ncard) ∧
    (o.cancelled = true ↔
      (positions bars strategy space costs config stopped .unevaluated).Nonempty) ∧
    (config.method = .grid →
      o.totalCandidates = min space.size config.maxCombinations ∧ o.duplicatesDropped = 0) ∧
    (config.method = .random →
      o.totalCandidates + o.duplicatesDropped = config.trials) := by
  have ho := (run_eq_ok_iff.1 h).report
  rw [ho]
  refine ⟨⟨?_, ?_⟩, ⟨?_, ?_⟩, ⟨?_, ?_, ?_⟩, ?_, ?_, ?_⟩
  · intro i hi
    obtain ⟨standing, hstands⟩ := exists_stands bars strategy costs stopped hi
    exact ⟨standing, hstands, fun _ h => h.unique hstands⟩
  · intro i standing hstands
    exact hstands.lt_length
  · intro i
    rw [← mem_ranked_map_index_iff]
    exact ((rank_perm _).map _).mem_iff
  · intro i
    exact mem_failures_map_index_iff
  · exact ncard_skipped.symm
  · exact ncard_failed.symm
  · rw [ncard_ranked]
    exact (rank_perm _).length_eq
  · exact any_isStopped_iff
  · intro hgrid
    simp [report, Enumeration.ofConfig, hgrid, Enumeration.length_ofGrid,
      Enumeration.duplicates_ofGrid]
  · intro hrandom
    simpa [report, Enumeration.ofConfig, hrandom] using
      Enumeration.length_ofDraws space config.trials config.seed

local instance : Powers Extended := Extended.coarsePowers

local instance : Random.Uniform Extended := Extended.wordDraws

def moody : Strategy Extended where
  name := "moody"
  schema := ⟨[.int "n" 1 4 1 1]⟩
  constrain a := do
    if (← a.int "n") = 1 then .error (.unknownParameter "n")
  decide _ a := do
    if (← orFault "moody" (a.int "n")) = 2 then .error ⟨"moody", .crashed "two"⟩
    return .long

def stillDays : List (Bar Extended) := [.still 2 (.finite 100), .still 3 (.finite 100)]

/-- The four settings in order, told to stop at the last. -/
theorem run_accounts_moody :
    ∃ o, run stillDays moody (.ofSchema moody.schema) .standard .standard (· == 3) = .ok o ∧
      o.totalCandidates = 4 ∧ 1 ∈ o.failures.map (·.index) ∧ 2 ∈ o.ranked.map (·.index) ∧
      o.cancelled = true ∧
      Stands stillDays moody (.ofSchema moody.schema) .standard .standard (· == 3) 0 .skipped := by
  have hbegins : Begins stillDays moody (.ofSchema moody.schema) .standard .standard :=
    ⟨rfl, by decide, by decide, by decide⟩
  obtain ⟨o, h⟩ := exists_run_eq_ok_iff.2 hbegins
  obtain ⟨-, ⟨hranked, hfailures⟩, -, hcancelled, hgrid, -⟩ := run_accounts h
  obtain ⟨e, he⟩ : ∃ e, Evaluation.run stillDays moody (.ofList [("n", .int 3)]) .standard
      (SearchConfig.standard : SearchConfig Extended).barsPerYear = .ok e :=
    exists_eq_ok (by decide +kernel)
  exact ⟨o, h, (hgrid rfl).1, (hfailures 1).2 (.failed rfl rfl rfl rfl),
    (hranked 2).2 (.ranked rfl rfl rfl he), hcancelled.2 ⟨3, .unevaluated rfl rfl rfl⟩,
    .skipped rfl rfl⟩

end Backtest.Search
