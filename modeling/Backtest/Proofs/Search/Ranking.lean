import Mathlib.Data.Prod.Lex
import Mathlib.Order.Compare
import Backtest.Proofs.Parameter.Resolution
import Backtest.Proofs.Scalar.Double
import Backtest.Proofs.Search.Candidates
import Backtest.Proofs.Simulation.Inversion

/-!
# The ranking of a search

A ranked candidate has a place on a line: first by its score, larger scores earlier and NaN behind
all, then by its number of parameters, then by its position. Comparing candidates is comparing
their places, so candidates at different positions are strictly ordered, and there is only one way
to list them in that order.
-/

namespace Backtest

/-- Comparing pairs is comparing their second parts where the first ones agree. -/
theorem cmp_toLex {β γ : Type*} [LinearOrder β] [LinearOrder γ] (b b' : β) (c c' : γ) :
    cmp (toLex (b, c)) (toLex (b', c')) = (cmp b b').then (cmp c c') := by
  simp only [cmp, cmpUsing, Prod.Lex.toLex_lt_toLex]
  rcases lt_trichotomy b b' with hlt | rfl | hgt
  · simp [hlt]
  · simp
  · simp [hgt, hgt.ne', hgt.not_gt]

section Place

variable {α : Type} [Scalar α] [Reading α]

open Scalar Reading

/-- The place of a score: larger ones first, NaN behind all. -/
noncomputable def scorePlace (x : α) : WithTop ERealᵒᵈ :=
  if isNaN x then ⊤ else ((OrderDual.toDual (value x) : ERealᵒᵈ) : WithTop ERealᵒᵈ)

theorem scorePlace_lt_iff {x y : α} (hx : isNaN x = false) (hy : isNaN y = false) :
    scorePlace x < scorePlace y ↔ y < x := by
  simp [scorePlace, hx, hy, lt_iff hy hx]

/-- Both zeros share one place, as their values agree. -/
theorem compareScores_eq_cmp (x y : α) : compareScores x y = cmp (scorePlace x) (scorePlace y) := by
  cases hx : isNaN x with
  | true =>
    cases hy : isNaN y with
    | true => simp [compareScores, scorePlace, hx, hy]
    | false => simp [compareScores, scorePlace, hx, hy, cmp, cmpUsing]
  | false =>
    cases hy : isNaN y with
    | true => simp [compareScores, scorePlace, hx, hy, cmp, cmpUsing]
    | false =>
      simp only [compareScores, hx, hy, cmp, cmpUsing, scorePlace_lt_iff hx hy,
        scorePlace_lt_iff hy hx]

example : compareScores (0 : Float) (-0) = .eq ∧ compareScores (-1 / 0 : Float) (0 / 0) = .lt := by
  decide +kernel

namespace Search

variable {a b c : RankedCandidate α} {cs ds : List (RankedCandidate α)}

noncomputable def place (c : RankedCandidate α) : WithTop ERealᵒᵈ ×ₗ ℕ ×ₗ ℕ :=
  toLex (scorePlace c.score, toLex (c.parameters.size, c.index))

theorem compareRanked_eq_cmp (a b : RankedCandidate α) :
    compareRanked a b = cmp (place a) (place b) := by
  rw [place, place, cmp_toLex, cmp_toLex, ← compareScores_eq_cmp, cmp_eq_compare, cmp_eq_compare]
  rfl

/-- The first of two candidates comes strictly before the second. -/
def Precedes (a b : RankedCandidate α) : Prop := compareRanked a b = .lt

theorem precedes_iff : Precedes a b ↔ place a < place b := by
  rw [Precedes, compareRanked_eq_cmp, cmp_eq_lt_iff]

theorem not_gt_iff : (compareRanked a b != .gt) = true ↔ place a ≤ place b := by
  rw [compareRanked_eq_cmp, bne_iff_ne, ne_eq, cmp_eq_gt_iff, not_lt]

theorem place_ne (h : a.index ≠ b.index) : place a ≠ place b := by
  intro heq
  simp only [place, EmbeddingLike.apply_eq_iff_eq, Prod.mk.injEq] at heq
  exact h heq.2.2

theorem Precedes.irrefl (a : RankedCandidate α) : ¬Precedes a a := by
  rw [precedes_iff]
  exact lt_irrefl _

theorem Precedes.trans (hab : Precedes a b) (hbc : Precedes b c) : Precedes a c := by
  rw [precedes_iff] at *
  exact hab.trans hbc

theorem Precedes.total (h : a.index ≠ b.index) : Precedes a b ∨ Precedes b a := by
  rw [precedes_iff, precedes_iff]
  exact lt_or_gt_of_ne (place_ne h)

/-- Candidates at different positions are ranked strictly. -/
theorem rank_pairwise (h : cs.Pairwise fun a b => a.index ≠ b.index) :
    (rank cs).Pairwise Precedes := by
  have hordered : (rank cs).Pairwise fun a b => (compareRanked a b != .gt) = true := by
    apply List.pairwise_mergeSort
    · intro a b c hab hbc
      rw [not_gt_iff] at *
      exact hab.trans hbc
    · intro a b
      rw [Bool.or_eq_true, not_gt_iff, not_gt_iff]
      exact le_total _ _
  -- the sort allows equal places, which different positions exclude
  have hdistinct := ((rank_perm cs).pairwise_iff fun h => h.symm).2 h
  refine hordered.imp₂ (fun a b hle hne => ?_) hdistinct
  rw [precedes_iff]
  exact lt_of_le_of_ne (not_gt_iff.1 hle) (place_ne hne)

/-- There is one way to list candidates in strict order. -/
theorem eq_of_perm_of_pairwise (h : cs.Perm ds) (hcs : cs.Pairwise Precedes)
    (hds : ds.Pairwise Precedes) : cs = ds := by
  refine h.eq_of_pairwise (fun a b _ _ hab hba => ?_) hcs hds
  exact absurd (hab.trans hba) (Precedes.irrefl a)

end Search

end Place

/-! ## Whole searches -/

theorem Evaluation.resolve_of_run_eq_ok {α : Type} [Scalar α] [Powers α] {bars : List (Bar α)}
    {strategy : Strategy α} {assigned : Parameter.Assignment α} {costs : Costs α} {barsPerYear : α}
    {e : Evaluation α} (h : run bars strategy assigned costs barsPerYear = .ok e) :
    strategy.resolve assigned = .ok e.parameters := by
  obtain ⟨-, sim, hsim, rfl⟩ := runFrom_eq_ok_iff.1 h
  obtain ⟨setup, hprepare, account, -, rfl⟩ := Simulation.runFrom_eq_ok_iff.1 hsim
  obtain ⟨-, -, -, parameters, hresolve, indicators, -, rfl⟩ :=
    Simulation.prepare_eq_ok_iff.1 hprepare
  exact hresolve

namespace Search

section

variable {α : Type} [Scalar α] [Powers α] [Random.Uniform α] {bars : List (Bar α)}
  {strategy : Strategy α} {space : Space α} {costs : Costs α} {config : SearchConfig α}
  {stopped : Nat → Bool} {o : SearchOutcome α}

theorem ranked_of_run_eq_ok (h : run bars strategy space costs config stopped = .ok o) :
    o.ranked =
      rank ((verdicts bars strategy space costs config stopped).filterMap Verdict.ranked?) := by
  rw [(run_eq_ok_iff.1 h).report]
  rfl

theorem best_isSome_iff (h : run bars strategy space costs config stopped = .ok o) :
    o.best.isSome ↔ o.ranked ≠ [] := by
  have hbest := (run_eq_ok_iff.1 h).replay
  cases hranked : o.ranked with
  | nil =>
    rw [hranked] at hbest
    simp [← Except.ok.inj hbest]
  | cons top rest =>
    rw [hranked] at hbest
    obtain ⟨e, -, he⟩ := map_eq_ok_iff.1 hbest
    simp [← he]

/-- The best run repeats the first candidate's: it has the parameters that the candidate was
resolved to, although it resolves them again, and the figures that were recorded. -/
theorem best_eq_top (h : run bars strategy space costs config stopped = .ok o)
    {best : Evaluation α} (hbest : o.best = some best) {top : RankedCandidate α}
    (htop : o.ranked.head? = some top) :
    best.parameters = top.resolved ∧ best.metrics = top.metrics := by
  have hreplay := (run_eq_ok_iff.1 h).replay
  obtain ⟨rest, hranked⟩ := List.head?_eq_some_iff.1 htop
  rw [hranked, hbest] at hreplay
  obtain ⟨e, he, rfl⟩ : ∃ e, Evaluation.run bars strategy top.resolved costs config.barsPerYear =
      .ok e ∧ e = best := by
    obtain ⟨e, he, hsome⟩ := map_eq_ok_iff.1 hreplay
    exact ⟨e, he, Option.some.inj hsome⟩
  -- the candidate was run on the assignment that is now resolved and run once more
  have hmem : top ∈ o.ranked := by simp [hranked]
  rw [ranked_of_run_eq_ok h, (rank_perm _).mem_iff, mem_filterMap_ranked?] at hmem
  obtain ⟨c, hc, hjudge⟩ := hmem
  obtain ⟨-, e', he', rfl⟩ := judge_eq_ranked_iff.1 hjudge
  cases he.symm.trans he'
  exact ⟨Strategy.resolve_idem (Enumeration.mem_admitted_iff.1 hc).2
    (Evaluation.resolve_of_run_eq_ok he), rfl⟩

end

/-- On doubles, whatever the scores: candidates at different positions are in a strict total order,
the ranking of a search is the one list of its successful candidates in that order, in whatever
order they finish, and the best run is there exactly if something is ranked, and then repeats the
first candidate. -/
theorem run_ranks {bars : List (Bar Float)} {strategy : Strategy Float} {space : Space Float}
    {costs : Costs Float} {config : SearchConfig Float} {stopped : Nat → Bool}
    {o : SearchOutcome Float} (h : run bars strategy space costs config stopped = .ok o) :
    ((∀ a : RankedCandidate Float, ¬Precedes a a) ∧
      (∀ a b c : RankedCandidate Float, Precedes a b → Precedes b c → Precedes a c) ∧
      ∀ a b : RankedCandidate Float, a.index ≠ b.index → Precedes a b ∨ Precedes b a) ∧
    o.ranked.Pairwise Precedes ∧
    (∀ finished, finished.Perm
        ((verdicts bars strategy space costs config stopped).filterMap Verdict.ranked?) →
      rank finished = o.ranked ∧
        ∀ l, l.Perm finished → l.Pairwise Precedes → l = o.ranked) ∧
    (o.best.isSome ↔ o.ranked ≠ []) ∧
    ∀ best, o.best = some best → ∀ top, o.ranked.head? = some top →
      best.parameters = top.resolved ∧ best.metrics = top.metrics := by
  have hdistinct := (filterMap_ranked?_ordered bars strategy space costs config stopped).imp
    Nat.ne_of_lt
  have hsorted : o.ranked.Pairwise Precedes := by
    rw [ranked_of_run_eq_ok h]
    exact rank_pairwise hdistinct
  refine ⟨⟨Precedes.irrefl, fun _ _ _ => Precedes.trans, fun _ _ => Precedes.total⟩, hsorted, ?_,
    best_isSome_iff h, fun _ hbest _ htop => best_eq_top h hbest htop⟩
  intro finished hfinished
  have hranked : finished.Perm o.ranked := by
    rw [ranked_of_run_eq_ok h]
    exact hfinished.trans (rank_perm _).symm
  constructor
  · have hfinished' := (hfinished.pairwise_iff fun h => h.symm).2 hdistinct
    exact eq_of_perm_of_pairwise ((rank_perm _).trans hranked) (rank_pairwise hfinished') hsorted
  · intro l hl hordered
    exact eq_of_perm_of_pairwise (hl.trans hranked) hordered hsorted

def steady : Strategy Float where
  name := "steady"
  schema := ⟨[.int "n" 1 2 1 1]⟩
  decide _ _ := .ok .long

def fallingDays : List (Bar Float) := [.still 2 100, .still 3 90]

theorem steady_begins :
    Begins fallingDays steady (.ofSchema steady.schema) .standard .standard :=
  ⟨rfl, by decide, by decide, by decide⟩

theorem run_ranks_steady :
    ∃ o best top, run fallingDays steady (.ofSchema steady.schema) .standard .standard never =
        .ok o ∧ o.best = some best ∧ o.ranked.head? = some top ∧ o.ranked.Pairwise Precedes ∧
      best.parameters = top.resolved ∧ best.metrics = top.metrics := by
  obtain ⟨o, h⟩ := exists_run_eq_ok_iff.2 steady_begins
  obtain ⟨-, hsorted, -, hisSome, htop⟩ := run_ranks h
  obtain ⟨e, he⟩ : ∃ e, Evaluation.run fallingDays steady (.ofList [("n", .int 1)]) .standard
      (SearchConfig.standard : SearchConfig Float).barsPerYear = .ok e :=
    exists_eq_ok (by decide +kernel)
  have hranked : o.ranked ≠ [] := by
    rw [ranked_of_run_eq_ok h]
    exact List.ne_nil_of_mem ((rank_perm _).mem_iff.2 (mem_filterMap_ranked?.2
      ⟨⟨0, _, _⟩, Enumeration.mem_admitted_iff.2 ⟨rfl, rfl⟩,
        judge_eq_ranked_iff.2 ⟨(rfl : never 0 = false), e, he, rfl⟩⟩))
  obtain ⟨best, hbest⟩ := Option.isSome_iff_exists.1 (hisSome.2 hranked)
  obtain ⟨top, rest, hcons⟩ := List.exists_cons_of_ne_nil hranked
  have hhead : o.ranked.head? = some top := by simp [hcons]
  exact ⟨o, best, top, h, hbest, hhead, hsorted, htop best hbest top hhead⟩

end Search

end Backtest
