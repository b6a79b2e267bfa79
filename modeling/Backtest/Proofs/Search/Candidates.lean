import Backtest.Proofs.Search.Inversion

/-!
# The candidates of a search

A grid gives as many candidates as it has points, up to the allowed number; of random draws each is
kept or counted as a duplicate. The admitted candidates are the enumerated ones that resolve, each
under its own position.
-/

namespace Backtest

variable {α : Type} [Scalar α]

namespace Enumeration

theorem length_ofGrid (space : Space α) (cap : Nat) :
    (ofGrid space cap).candidates.length = min space.size cap := by
  unfold ofGrid
  by_cases h : space.size ≤ cap
  · simp [h]
  · simp [h, Nat.le_of_not_le h]

theorem duplicates_ofGrid (space : Space α) (cap : Nat) : (ofGrid space cap).duplicates = 0 := by
  unfold ofGrid
  by_cases h : space.size ≤ cap <;> simp [h]

theorem length_draw [Random.Uniform α] (space : Space α) (trials : Nat)
    (kept : List (Parameter.Assignment α)) (duplicates : Nat) (g : Random.Generator) :
    (draw space trials kept duplicates g).1.length + (draw space trials kept duplicates g).2 =
      kept.length + duplicates + trials := by
  induction trials generalizing kept duplicates g with
  | zero => simp [draw]
  | succ trials ih =>
    simp only [draw]
    split
    · rw [ih]
      omega
    · rw [ih, List.length_cons]
      omega

theorem length_ofDraws [Random.Uniform α] (space : Space α) (trials : Nat) (seed : UInt64) :
    (ofDraws space trials seed).candidates.length + (ofDraws space trials seed).duplicates =
      trials := by
  simpa [ofDraws] using length_draw space trials [] 0 (.ofSeed seed)

variable {e : Enumeration α} {strategy : Strategy α} {c : Candidate α}

theorem mem_admitted_iff :
    c ∈ e.admitted strategy ↔
      e.candidates[c.index]? = some c.parameters ∧
        strategy.resolve c.parameters = .ok c.resolved := by
  simp only [admitted, List.mem_filterMap, Prod.exists, List.mem_zipIdx_iff_getElem?]
  constructor
  · rintro ⟨parameters, index, hget, hc⟩
    cases hresolve : strategy.resolve parameters with
    | error e => simp [hresolve] at hc
    | ok resolved =>
      simp only [hresolve, Option.some.injEq] at hc
      subst hc
      exact ⟨hget, hresolve⟩
  · rintro ⟨hget, hresolve⟩
    exact ⟨c.parameters, c.index, hget, by simp [hresolve]⟩

/-- Admitted candidates come in the order of their positions. -/
theorem admitted_ordered :
    (e.admitted strategy).Pairwise fun c d => c.index < d.index := by
  have hpositions : e.candidates.zipIdx.Pairwise fun x y => x.2 < y.2 := by
    rw [← List.pairwise_map (f := Prod.snd), List.zipIdx_map_snd]
    exact List.pairwise_lt_range'
  apply hpositions.filterMap
  rintro ⟨p, i⟩ ⟨q, j⟩ hlt c hc d hd
  dsimp only at hc hd hlt
  split at hc <;> simp only [Option.some.injEq, reduceCtorEq] at hc
  split at hd <;> simp only [Option.some.injEq, reduceCtorEq] at hd
  subst hc hd
  exact hlt

end Enumeration

namespace Search

variable [Powers α] {bars : List (Bar α)} {strategy : Strategy α} {costs : Costs α}
  {config : SearchConfig α} {stopped : Nat → Bool} {c : Candidate α}

/-- All that can become of a candidate. -/
theorem judge_cases (bars : List (Bar α)) (strategy : Strategy α) (costs : Costs α)
    (config : SearchConfig α) (stopped : Nat → Bool) (c : Candidate α) :
    (stopped c.index = true ∧ judge bars strategy costs config stopped c = .stopped) ∨
      (stopped c.index = false ∧ ∃ e,
        Evaluation.run bars strategy c.resolved costs config.barsPerYear = .ok e ∧
          judge bars strategy costs config stopped c =
            .ranked
              ⟨c.index, c.parameters, c.resolved, e.metrics, config.target.score e.metrics⟩) ∨
      (stopped c.index = false ∧ ∃ e,
        Evaluation.run bars strategy c.resolved costs config.barsPerYear = .error e ∧
          judge bars strategy costs config stopped c =
            .failed ⟨c.index, c.parameters, failureText e⟩) := by
  cases hstopped : stopped c.index with
  | true => simp [judge, hstopped]
  | false =>
    cases he : Evaluation.run bars strategy c.resolved costs config.barsPerYear with
    | ok e => simp [judge, hstopped, he]
    | error e => simp [judge, hstopped, he]

theorem judge_eq_ranked_iff {r : RankedCandidate α} :
    judge bars strategy costs config stopped c = .ranked r ↔
      stopped c.index = false ∧ ∃ e,
        Evaluation.run bars strategy c.resolved costs config.barsPerYear = .ok e ∧
          r = ⟨c.index, c.parameters, c.resolved, e.metrics, config.target.score e.metrics⟩ := by
  rcases judge_cases bars strategy costs config stopped c with
    ⟨hs, hc⟩ | ⟨hs, e, he, hc⟩ | ⟨hs, e, he, hc⟩
  · simp [hs, hc]
  · simp [hs, he, hc, eq_comm (a := r)]
  · simp [hs, he, hc]

theorem judge_eq_failed_iff {f : FailedCandidate α} :
    judge bars strategy costs config stopped c = .failed f ↔
      stopped c.index = false ∧ ∃ e,
        Evaluation.run bars strategy c.resolved costs config.barsPerYear = .error e ∧
          f = ⟨c.index, c.parameters, failureText e⟩ := by
  rcases judge_cases bars strategy costs config stopped c with
    ⟨hs, hc⟩ | ⟨hs, e, he, hc⟩ | ⟨hs, e, he, hc⟩
  · simp [hs, hc]
  · simp [hs, he, hc]
  · simp [hs, he, hc, eq_comm (a := f)]

theorem judge_isStopped :
    (judge bars strategy costs config stopped c).isStopped = stopped c.index := by
  rcases judge_cases bars strategy costs config stopped c with
    ⟨hs, hc⟩ | ⟨hs, e, he, hc⟩ | ⟨hs, e, he, hc⟩ <;>
    simp [hs, hc, Verdict.isStopped]

omit [Scalar α] [Powers α] in
@[simp] theorem ranked?_eq_some_iff {v : Verdict α} {r : RankedCandidate α} :
    v.ranked? = some r ↔ v = .ranked r := by
  cases v <;> simp [Verdict.ranked?]

omit [Scalar α] [Powers α] in
@[simp] theorem failed?_eq_some_iff {v : Verdict α} {f : FailedCandidate α} :
    v.failed? = some f ↔ v = .failed f := by
  cases v <;> simp [Verdict.failed?]

variable [Random.Uniform α] {space : Space α}

theorem mem_filterMap_ranked? {r : RankedCandidate α} :
    r ∈ (verdicts bars strategy space costs config stopped).filterMap Verdict.ranked? ↔
      ∃ c ∈ (Enumeration.ofConfig space config).admitted strategy,
        judge bars strategy costs config stopped c = .ranked r := by
  simp [verdicts]

theorem mem_filterMap_failed? {f : FailedCandidate α} :
    f ∈ (verdicts bars strategy space costs config stopped).filterMap Verdict.failed? ↔
      ∃ c ∈ (Enumeration.ofConfig space config).admitted strategy,
        judge bars strategy costs config stopped c = .failed f := by
  simp [verdicts]

/-- What is picked from the verdicts comes in the order of the candidates' positions. -/
theorem filterMap_verdicts_ordered {β : Type} {pick : Verdict α → Option β} {position : β → Nat}
    (bars : List (Bar α)) (strategy : Strategy α) (space : Space α) (costs : Costs α)
    (config : SearchConfig α) (stopped : Nat → Bool)
    (h : ∀ c b, pick (judge bars strategy costs config stopped c) = some b →
      position b = c.index) :
    ((verdicts bars strategy space costs config stopped).filterMap pick).Pairwise
      fun a b => position a < position b := by
  rw [verdicts, List.filterMap_map]
  refine Enumeration.admitted_ordered.filterMap _ fun c d hlt a ha b hb => ?_
  rwa [h c a ha, h d b hb]

theorem filterMap_ranked?_ordered (bars : List (Bar α)) (strategy : Strategy α) (space : Space α)
    (costs : Costs α) (config : SearchConfig α) (stopped : Nat → Bool) :
    ((verdicts bars strategy space costs config stopped).filterMap Verdict.ranked?).Pairwise
      fun a b => a.index < b.index := by
  refine filterMap_verdicts_ordered bars strategy space costs config stopped fun c r hr => ?_
  obtain ⟨-, _, -, rfl⟩ := judge_eq_ranked_iff.1 (ranked?_eq_some_iff.1 hr)
  rfl

theorem filterMap_failed?_ordered (bars : List (Bar α)) (strategy : Strategy α) (space : Space α)
    (costs : Costs α) (config : SearchConfig α) (stopped : Nat → Bool) :
    ((verdicts bars strategy space costs config stopped).filterMap Verdict.failed?).Pairwise
      fun a b => a.index < b.index := by
  refine filterMap_verdicts_ordered bars strategy space costs config stopped fun c f hf => ?_
  obtain ⟨-, _, -, rfl⟩ := judge_eq_failed_iff.1 (failed?_eq_some_iff.1 hf)
  rfl

omit [Powers α] [Random.Uniform α] in
theorem rank_perm (cs : List (RankedCandidate α)) : (rank cs).Perm cs :=
  List.mergeSort_perm cs _

/-- The run of the first ranked candidate was made before, so it gives a result again. -/
theorem exists_replay_eq_ok (bars : List (Bar α)) (strategy : Strategy α) (space : Space α)
    (costs : Costs α) (config : SearchConfig α) (stopped : Nat → Bool) :
    ∃ best, replay bars strategy costs config
      (rank ((verdicts bars strategy space costs config stopped).filterMap Verdict.ranked?)) =
        .ok best := by
  cases hranked : rank
    ((verdicts bars strategy space costs config stopped).filterMap Verdict.ranked?) with
  | nil => exact ⟨none, rfl⟩
  | cons top rest =>
    have htop : top ∈ rank
        ((verdicts bars strategy space costs config stopped).filterMap Verdict.ranked?) := by
      simp [hranked]
    obtain ⟨c, -, hc⟩ := mem_filterMap_ranked?.1 ((rank_perm _).mem_iff.1 htop)
    obtain ⟨-, e, he, rfl⟩ := judge_eq_ranked_iff.1 hc
    exact ⟨some e, by simp [replay, he, Except.map]⟩

/-- A search gives a result exactly when it can begin. -/
theorem exists_run_eq_ok_iff :
    (∃ o, run bars strategy space costs config stopped = .ok o) ↔
      Begins bars strategy space costs config := by
  constructor
  · rintro ⟨o, h⟩
    exact (run_eq_ok_iff.1 h).toBegins
  · intro hbegins
    obtain ⟨best, hbest⟩ := exists_replay_eq_ok bars strategy space costs config stopped
    exact ⟨report strategy space config
      (verdicts bars strategy space costs config stopped) best,
      run_eq_ok_iff.2 ⟨hbegins, rfl, hbest⟩⟩

end Search

end Backtest
