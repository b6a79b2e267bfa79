import Backtest.Proofs.Metrics.Range
import Backtest.Proofs.Scalar.Total

/-!
# Fallbacks and their flags

A ratio is what its formula gives, or falls back to zero. On exact numbers, of any curve and any
trades, the flags tell which ratios fell back, but for one. They miss a Sortino ratio that falls
back although a period was lost: for want of a second return, or because what was lost is too
little to divide by.
-/

namespace Backtest

open Scalar

namespace Metrics

section Formulas

variable {α : Type} [Scalar α] [Powers α]

/-- Root of the mean square of the negative returns. -/
def downsideDeviation (returns : List α) : α :=
  Powers.sqrt (downsideSquares returns / nat returns.length)

def sharpe? (equity : List α) (barsPerYear : α) : Option α :=
  let returns := periodReturns equity
  if returns.length < 2 ∨ deviation returns < leastDeviation then none
  else some (mean returns / deviation returns * annualScale barsPerYear)

def sortino? (equity : List α) (barsPerYear : α) : Option α :=
  let returns := periodReturns equity
  if returns.length < 2 ∨ downsideSquares returns == nat 0 ∨
      downsideDeviation returns < leastDeviation then none
  else some (mean returns / downsideDeviation returns * annualScale barsPerYear)

def calmar? (equity : List α) (barsPerYear : α) : Option α :=
  if maxDrawdownOf equity == nat 0 then none
  else some (annualGrowthOf equity barsPerYear / maxDrawdownOf equity)

variable {equity : List α} {barsPerYear : α}

theorem sharpeOf_eq_getD :
    sharpeOf equity barsPerYear = (sharpe? equity barsPerYear).getD (nat 0) :=
  (apply_ite (Option.getD · (nat 0)) _ none (some _)).symm

theorem sortinoOf_eq_getD :
    sortinoOf equity barsPerYear = (sortino? equity barsPerYear).getD (nat 0) :=
  (apply_ite (Option.getD · (nat 0)) _ none (some _)).symm

theorem calmarOf_eq_getD :
    calmarOf equity barsPerYear = (calmar? equity barsPerYear).getD (nat 0) :=
  (apply_ite (Option.getD · (nat 0)) _ none (some _)).symm

theorem sharpe?_eq_none_iff : sharpe? equity barsPerYear = none ↔
    (periodReturns equity).length < 2 ∨ deviation (periodReturns equity) < leastDeviation := by
  simp only [sharpe?, ite_eq_left_iff, reduceCtorEq, imp_false, Decidable.not_not]

theorem sortino?_eq_none_iff : sortino? equity barsPerYear = none ↔
    (periodReturns equity).length < 2 ∨ (downsideSquares (periodReturns equity) == nat 0) = true ∨
      downsideDeviation (periodReturns equity) < leastDeviation := by
  simp only [sortino?, ite_eq_left_iff, reduceCtorEq, imp_false, Decidable.not_not]

theorem calmar?_eq_none_iff : calmar? equity barsPerYear = none ↔
    (maxDrawdownOf equity == nat 0) = true := by
  simp only [calmar?, ite_eq_left_iff, reduceCtorEq, imp_false, Bool.not_eq_true,
    Bool.not_eq_false]

end Formulas

/-! ## Exact numbers -/

open Extended in
theorem zero_lt_square {r : Extended} (h : r < nat 0) : nat 0 < r * r := by
  cases r with
  | finite a =>
    have ha : a < 0 := by simpa using h
    simpa using mul_pos_of_neg_of_neg ha ha
  | infinite s =>
    cases s with
    | true => rfl
    | false => exact absurd h nofun
  | nan => exact absurd h nofun

/-- No return is negative if and only if the squares of the negative ones sum to zero. -/
theorem downsideSquares_beq_zero_iff {returns : List Extended} :
    (downsideSquares returns == nat 0) = true ↔ ¬∃ r ∈ returns, r < nat 0 := by
  constructor
  · rintro hzero ⟨r, hr, hneg⟩
    have hpos : nat 0 < downsideSquares returns := by
      refine Extended.zero_lt_total ?_ fun x hx => ?_
      · simpa using ⟨r, hr, hneg⟩
      · obtain ⟨s, hs, rfl⟩ := List.mem_map.1 hx
        exact zero_lt_square (of_decide_eq_true (List.mem_filter.1 hs).2)
    generalize downsideSquares returns = squares at hzero hpos
    rcases Extended.zero_lt_iff.1 hpos with ⟨a, ha, rfl⟩ | rfl
    · exact ha.ne' (by simpa using hzero)
    · cases hzero
  · intro hnone
    have hempty : (returns.filter fun r => r < nat 0) = [] := by
      simpa [List.filter_eq_nil_iff] using hnone
    rw [downsideSquares, hempty]
    rfl

theorem not_clamp_lt_low {x low high : Extended} (hlow : ¬low < low) (hhigh : ¬high < low) :
    ¬clamp x low high < low := by
  unfold clamp
  by_cases hbelow : x < low
  · simp only [if_pos hbelow]
    split <;> assumption
  · simp only [if_neg hbelow]
    split <;> assumption

theorem not_maxDrawdownOf_lt_zero (equity : List Extended) : ¬maxDrawdownOf equity < nat 0 := by
  cases equity with
  | nil => exact nofun
  | cons first rest => exact not_clamp_lt_low (by decide) (by decide)

/-- A drawdown is zero or above zero, so both forms of the Calmar ratio fall back together. -/
theorem calmar_compute [Powers Extended] (equity : List Extended) (trades : List (Trade Extended))
    (barsPerYear : Extended) :
    (compute equity trades barsPerYear).calmar = calmarOf equity barsPerYear := by
  have hnonneg := not_maxDrawdownOf_lt_zero equity
  obtain ⟨fall, hfall⟩ :=
    Extended.isFinite_iff.1 (isFinite_maxDrawdownOf (α := Extended) rfl equity)
  rw [hfall] at hnonneg
  have hnonneg : 0 ≤ fall := by simpa using hnonneg
  rcases hnonneg.eq_or_lt with rfl | hpos
  · simp [compute, calmarOf, hfall]
  · simp [compute, calmarOf, hfall, hpos, hpos.ne']

theorem div_ne_negative_infinity {x y : Extended} (hx : x.negative = false)
    (hy : y.negative = false) (hzero : (y == nat 0) = false) : x / y ≠ .infinite true := by
  cases x with
  | finite a =>
    cases y with
    | finite b =>
      have hb : b ≠ 0 := by simpa using hzero
      rw [Extended.finite_div hb]
      nofun
    | infinite t => nofun
    | nan => nofun
  | infinite s =>
    cases y with
    | finite b =>
      change Extended.infinite (s ^^ (Extended.finite b).negative) ≠ _
      rw [hy, show s = false from hx]
      nofun
    | infinite t => nofun
    | nan => nofun
  | nan => nofun

theorem negative_grossProfit (trades : List (Trade Extended)) :
    (grossProfit trades).negative = false := by
  refine Extended.negative_total fun x hx => ?_
  obtain ⟨t, ht, rfl⟩ := List.mem_map.1 hx
  rcases Extended.zero_lt_iff.1 (of_decide_eq_true (List.mem_filter.1 ht).2) with ⟨a, ha, h⟩ | h
  · simp [h, Extended.negative, ha.le]
  · rw [h]
    rfl

theorem negative_grossLoss (trades : List (Trade Extended)) :
    (grossLoss trades).negative = false := by
  refine Extended.negative_total fun x hx => ?_
  obtain ⟨t, -, rfl⟩ := List.mem_map.1 hx
  cases t.profit with
  | finite a => simp [Extended.abs_finite, Extended.negative]
  | infinite s => rfl
  | nan => rfl

/-- A profit factor is infinite only upwards. -/
theorem isInfinite_profitFactorOf_iff (trades : List (Trade Extended)) :
    isInfinite (profitFactorOf trades) = true ↔ profitFactorOf trades = infinity := by
  have hupwards : profitFactorOf trades ≠ .infinite true := by
    unfold profitFactorOf
    split
    · split <;> nofun
    · rename_i hzero
      exact div_ne_negative_infinity (negative_grossProfit trades) (negative_grossLoss trades)
        (Bool.eq_false_iff.2 hzero)
  generalize profitFactorOf trades = x at hupwards
  cases x with
  | finite a => simp [isInfinite]
  | infinite s =>
    cases s with
    | true => exact absurd rfl hupwards
    | false => exact ⟨fun _ => rfl, fun _ => rfl⟩
  | nan => exact ⟨nofun, nofun⟩

end Metrics

namespace Degenerate

open Metrics

section Flags

variable {α : Type} [Scalar α] [Powers α] {equity : List α} {trades : List (Trade α)}

/-- What a flag says of a curve and trades. -/
def Holds (equity : List α) (trades : List (Trade α)) : Degenerate → Prop
  | flatEquity => (periodReturns equity).length < 2 ∨
      deviation (periodReturns equity) < leastDeviation
  | noDownside => ¬∃ r ∈ periodReturns equity, r < nat 0
  | noDrawdown => (maxDrawdownOf equity == nat 0) = true
  | noTrades => trades = []
  | noLosingTrades => trades ≠ [] ∧ isInfinite (profitFactorOf trades) = true

theorem mem_flags_iff {flag : Degenerate} :
    flag ∈ flags equity trades ↔ flag.Holds equity trades := by
  cases trades <;> cases flag <;> simp [flags, Holds]

end Flags

/-- On exact numbers, for every curve, all trades and any square root and power: each ratio is what
its formula gives, or else zero. The flags of a flat curve and of no drawdown stand exactly where
the Sharpe and the Calmar ratio fell back, that of no trades where there are none, and that of no
losing trades where the profit factor is infinite. Where the flag of no downside stands, the Sortino
ratio fell back; where that ratio fell back without the flag, there is a losing period, but not a
second return or not enough downside to divide by. -/
theorem flags_report_fallbacks [Powers Extended] (equity : List Extended)
    (trades : List (Trade Extended)) (barsPerYear : Extended) :
    let figures := compute equity trades barsPerYear
    let returns := periodReturns equity
    (figures.sharpe = (sharpe? equity barsPerYear).getD (nat 0) ∧
      (flatEquity ∈ flags equity trades ↔ sharpe? equity barsPerYear = none)) ∧
    (figures.sortino = (sortino? equity barsPerYear).getD (nat 0) ∧
      (noDownside ∈ flags equity trades → sortino? equity barsPerYear = none) ∧
      (sortino? equity barsPerYear = none ∧ noDownside ∉ flags equity trades ↔
        (∃ r ∈ returns, r < nat 0) ∧
          (returns.length < 2 ∨ downsideDeviation returns < leastDeviation))) ∧
    (figures.calmar = (calmar? equity barsPerYear).getD (nat 0) ∧
      (noDrawdown ∈ flags equity trades ↔ calmar? equity barsPerYear = none)) ∧
    (noTrades ∈ flags equity trades ↔ trades = []) ∧
    (noLosingTrades ∈ flags equity trades ↔ figures.profitFactor = infinity) := by
  simp only [mem_flags_iff, Holds, sharpe?_eq_none_iff, calmar?_eq_none_iff,
    sortino?_eq_none_iff, downsideSquares_beq_zero_iff]
  refine ⟨⟨sharpeOf_eq_getD, trivial⟩, ⟨sortinoOf_eq_getD, fun hnone => .inr (.inl hnone), ?_⟩,
    ⟨?_, trivial⟩, trivial, ?_⟩
  · by_cases hlost : ∃ r ∈ periodReturns equity, r < nat 0
    · simp only [hlost, not_true, false_or, not_false_iff, and_true, true_and]
    · simp only [hlost, not_false_iff, not_true, and_false, false_and]
  · rw [calmar_compute, calmarOf_eq_getD]
  · rw [isInfinite_profitFactorOf_iff]
    refine ⟨And.right, fun hinfinite => ⟨?_, hinfinite⟩⟩
    rintro rfl
    cases hinfinite

local instance : Powers Extended := Extended.coarsePowers

/-- A single period, in which a tenth is lost: the Sortino ratio falls back and no flag says so. -/
theorem flags_report_fallbacks_one_loss :
    let equity : List Extended := [.finite 100, .finite 90]
    sortino? equity standardBarsPerYear = none ∧ noDownside ∉ flags equity [] := by
  intro equity
  have hreturns : periodReturns equity = [.finite (-1 / 10)] := by decide +kernel
  obtain ⟨-, ⟨-, -, hmissed⟩, -⟩ := flags_report_fallbacks equity [] standardBarsPerYear
  rw [hreturns] at hmissed
  exact hmissed.2 ⟨⟨_, List.mem_singleton_self _, by decide +kernel⟩, .inl (by decide)⟩

end Degenerate

end Backtest
