import Backtest.Proofs.Search.Ranking
import Backtest.Proofs.Simulation.Calls
import Backtest.WalkForward.Run

/-!
# Windows do not disturb each other

A search calls its strategy on its own bars with the full parameters of its own candidates, and a
window replays one of these on its own bars. So what becomes of a window stays the same when the
strategy decides otherwise, fails or crashes in the calls of other windows, and when other windows
are stopped.
-/

namespace Backtest

open Parameter

variable {α : Type} [Scalar α] [Powers α] [Random.Uniform α] {t u : Strategy α}

/-! ## Searches -/

namespace Search

variable {bars : List (Bar α)} {space : Space α} {costs : Costs α} {config : SearchConfig α}
  {stopped : Nat → Bool} {a : Assignment α}

/-- Full parameters of a candidate that a search may run. -/
def Tries (strategy : Strategy α) (space : Space α) (config : SearchConfig α)
    (a : Assignment α) : Prop :=
  ∃ c ∈ (Enumeration.ofConfig space config).admitted strategy, c.resolved = a

omit [Powers α] in
/-- Parameters that a search tries are full, so a run with them uses them as they are. -/
theorem Tries.resolved (h : Tries t space config a) {r : Assignment α}
    (hr : t.resolve a = .ok r) : r = a := by
  obtain ⟨c, hc, rfl⟩ := h
  exact Strategy.resolve_idem (Enumeration.mem_admitted_iff.1 hc).2 hr

/-- The parameters of the best run were tried. -/
theorem tries_best {o : SearchOutcome α} {best : Evaluation α}
    (h : run bars t space costs config stopped = .ok o) (hbest : o.best = some best) :
    Tries t space config best.parameters := by
  obtain ⟨top, htop⟩ : ∃ top, o.ranked.head? = some top := by
    rw [← Option.isSome_iff_exists, List.isSome_head?]
    simpa using (best_isSome_iff h).1 (by simp [hbest])
  have hmem := List.mem_of_mem_head? htop
  rw [ranked_of_run_eq_ok h, (rank_perm _).mem_iff, mem_filterMap_ranked?] at hmem
  obtain ⟨c, hc, hjudge⟩ := hmem
  obtain ⟨-, e, -, rfl⟩ := judge_eq_ranked_iff.1 hjudge
  exact ⟨c, hc, (best_eq_top h hbest htop).1.symm⟩

omit [Powers α] [Random.Uniform α] in
theorem admitted_strategy (hresolve : u.resolve = t.resolve) (e : Enumeration α) :
    e.admitted u = e.admitted t := by
  simp only [Enumeration.admitted, hresolve]

/-- A search depends on its strategy in the calls for its own candidates on its own bars. -/
theorem run_strategy (h : t.SameOn u bars (Tries t space config)) :
    run bars u space costs config stopped = run bars t space costs config stopped := by
  have hrun : ∀ a, Tries t space config a →
      Evaluation.run bars u a costs config.barsPerYear =
        Evaluation.run bars t a costs config.barsPerYear := fun a ha =>
    Evaluation.runFrom_strategy h fun r hr => ha.resolved hr ▸ ha
  have hverdicts : verdicts bars u space costs config stopped =
      verdicts bars t space costs config stopped := by
    unfold verdicts
    rw [admitted_strategy h.resolve]
    refine List.map_congr_left fun c hc => ?_
    unfold judge
    rw [hrun c.resolved ⟨c, hc, rfl⟩]
  have hreplay : replay bars u costs config
        (rank ((verdicts bars t space costs config stopped).filterMap Verdict.ranked?)) =
      replay bars t costs config
        (rank ((verdicts bars t space costs config stopped).filterMap Verdict.ranked?)) := by
    cases hranked : rank
      ((verdicts bars t space costs config stopped).filterMap Verdict.ranked?) with
    | nil => rfl
    | cons top rest =>
      have htop : top ∈ rank
          ((verdicts bars t space costs config stopped).filterMap Verdict.ranked?) := by
        simp [hranked]
      obtain ⟨c, hc, hjudge⟩ := mem_filterMap_ranked?.1 ((rank_perm _).mem_iff.1 htop)
      obtain ⟨-, e, -, rfl⟩ := judge_eq_ranked_iff.1 hjudge
      simp only [replay, hrun c.resolved ⟨c, hc, rfl⟩]
  simp only [run_eq, hverdicts, hreplay, admitted_strategy h.resolve, report, h.name]

end Search

/-! ## Windows -/

namespace WalkForward

variable {s : Setup α} {stops stops' : Stops} {w : Window}

def Setup.withStrategy (s : Setup α) (strategy : Strategy α) : Setup α := { s with strategy }

def Setup.replayBars (s : Setup α) (w : Window) : List (Bar α) :=
  segment s.bars (if s.config.leadIn then w.trainStart else w.testStart) w.testEnd

omit [Random.Uniform α] in
theorem outOfSample_eq (s : Setup α) (w : Window) (best : Assignment α) :
    outOfSample s w best =
      Evaluation.runFrom (s.replayBars w) (if s.config.leadIn then w.trainLength else 0) s.strategy
        best s.costs s.search.barsPerYear := by
  unfold outOfSample Setup.replayBars
  split <;> rfl

/-- A strategy that answers as that of a setup does in the calls of one window: on its bars, with
parameters that its search tries. In the calls of other windows it may fail or crash. -/
structure Setup.SameIn (s : Setup α) (w : Window) (u : Strategy α) : Prop where
  inSample : s.strategy.SameOn u (segment s.bars w.trainStart w.trainEnd)
    (Search.Tries s.strategy s.space (windowSearch s w))
  outOfSample : s.strategy.SameOn u (s.replayBars w)
    (Search.Tries s.strategy s.space (windowSearch s w))

/-- Two records of requests to stop that say the same for one window. -/
structure SameStops (stops stops' : Stops) (w : Window) : Prop where
  window : stops'.window w.index = stops.window w.index
  candidate : stops'.candidate w.index = stops.candidate w.index

theorem inSample_strategy (h : s.SameIn w u) (hstops : SameStops stops stops' w) :
    inSample (s.withStrategy u) stops' w = inSample s stops w := by
  unfold inSample
  rw [hstops.candidate]
  exact Search.run_strategy h.inSample

theorem outOfSample_strategy (h : s.SameIn w u) {best : Assignment α}
    (hbest : Search.Tries s.strategy s.space (windowSearch s w) best) :
    outOfSample (s.withStrategy u) w best = outOfSample s w best := by
  have htried : ∀ r, s.strategy.resolve best = .ok r →
      Search.Tries s.strategy s.space (windowSearch s w) r := fun r hr => hbest.resolved hr ▸ hbest
  rw [outOfSample_eq, outOfSample_eq]
  exact Evaluation.runFrom_strategy h.outOfSample htried

/-- What becomes of a window depends on its own calls of the strategy and its own stops. -/
theorem judge_strategy (h : s.SameIn w u) (hstops : SameStops stops stops' w) :
    judge (s.withStrategy u) stops' w = judge s stops w := by
  unfold judge
  rw [hstops.window, inSample_strategy h hstops]
  cases hsearch : inSample s stops w with
  | error e => cases e <;> rfl
  | ok outcome =>
    cases hbest : outcome.best with
    | none => simp [hbest]
    | some best =>
      simp only [hbest, outOfSample_strategy h (Search.tries_best hsearch hbest)]
      rfl

end WalkForward

end Backtest
