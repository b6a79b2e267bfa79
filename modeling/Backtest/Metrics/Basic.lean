import Backtest.Account.Trade
import Backtest.Scalar

/-!
# Performance figures

Figures of an equity curve and of the closed trades. Where a figure is not defined it falls back to
a fixed value, and `Degenerate` names the fallbacks that were taken.
-/

namespace Backtest

structure Metrics (α : Type) where
  totalReturn : α
  /-- Compound annual growth rate. -/
  annualGrowth : α
  sharpe : α
  sortino : α
  /-- A fraction between 0 and 1. -/
  maxDrawdown : α
  calmar : α
  winRate : α
  /-- Infinite when there are winners and no losers. -/
  profitFactor : α
  tradeCount : Nat
  deriving BEq, Repr

namespace Metrics

variable {α : Type} [Scalar α]

open Scalar

/-- Daily bars. -/
def standardBarsPerYear : α := nat 252

/-- A deviation below this counts as none. -/
def leastDeviation : α := decimal 1 15

/-! ## Samples -/

/-- Mean of a list, 0 for none. -/
def mean (xs : List α) : α :=
  if xs.isEmpty then nat 0 else total xs / nat xs.length

/-- Standard deviation of a sample, 0 below two values. -/
def deviation [Powers α] (xs : List α) : α :=
  if xs.length < 2 then nat 0
  else
    let m := mean xs
    Powers.sqrt (total (xs.map fun x => (x - m) * (x - m)) / nat (xs.length - 1))

/-- Return of a period; 0 where it does not start from a positive value. -/
def periodReturn (before after : α) : α :=
  if nat 0 < before then after / before - nat 1 else nat 0

def periodReturns (equity : List α) : List α :=
  List.zipWith periodReturn equity (equity.drop 1)

/-! ## Figures of the equity curve -/

/-- Last value over first value, less one. -/
def totalReturnOf (equity : List α) : α :=
  match equity.head?, equity.getLast? with
  | some first, some last =>
    if 2 ≤ equity.length ∧ nat 0 < first then last / first - nat 1 else nat 0
  | _, _ => nat 0

/-- A growth rate that overflows is held at this bound. -/
def greatest : α := nat (Nat.pow 2 1024 - Nat.pow 2 971)

/-- Growth a year, compounded; a total loss gives -1. -/
def annualGrowthOf [Powers α] (equity : List α) (barsPerYear : α) : α :=
  match equity.head?, equity.getLast? with
  | some first, some last =>
    if equity.length < 2 ∨ barsPerYear ≤ nat 0 ∨ first ≤ nat 0 then nat 0
    else
      let ratio := last / first
      if ratio ≤ nat 0 then -nat 1
      else smaller (Powers.pow ratio (barsPerYear / nat equity.length) - nat 1) greatest
  | _, _ => nat 0

/-- Square root of the number of bars a year. -/
def annualScale [Powers α] (barsPerYear : α) : α :=
  Powers.sqrt (larger barsPerYear (nat 0))

/-- Mean return over its deviation, a year. -/
def sharpeOf [Powers α] (equity : List α) (barsPerYear : α) : α :=
  let returns := periodReturns equity
  let spread := deviation returns
  if returns.length < 2 ∨ spread < leastDeviation then nat 0
  else mean returns / spread * annualScale barsPerYear

/-- Sum of the squares of the negative returns. -/
def downsideSquares (returns : List α) : α :=
  total ((returns.filter fun r => r < nat 0).map fun r => r * r)

/-- Mean return over the deviation of the losses, a year. -/
def sortinoOf [Powers α] (equity : List α) (barsPerYear : α) : α :=
  let returns := periodReturns equity
  let squares := downsideSquares returns
  let spread := Powers.sqrt (squares / nat returns.length)
  if returns.length < 2 ∨ squares == nat 0 ∨ spread < leastDeviation then nat 0
  else mean returns / spread * annualScale barsPerYear

/-- The running peak and the largest fall from it so far. -/
structure Fall (α : Type) where
  peak : α
  worst : α

def Fall.step (f : Fall α) (x : α) : Fall α :=
  let peak := if f.peak < x then x else f.peak
  ⟨peak, if nat 0 < peak then larger f.worst ((peak - x) / peak) else f.worst⟩

/-- Largest fall from an earlier peak, as a fraction of the peak. -/
def maxDrawdownOf (equity : List α) : α :=
  match equity with
  | [] => nat 0
  | first :: _ => clamp (equity.foldl Fall.step ⟨first, nat 0⟩).worst (nat 0) (nat 1)

/-- Annual growth over drawdown. -/
def calmarOf [Powers α] (equity : List α) (barsPerYear : α) : α :=
  let fall := maxDrawdownOf equity
  if fall == nat 0 then nat 0 else annualGrowthOf equity barsPerYear / fall

/-! ## Figures of the trades -/

def winRateOf (trades : List (Trade α)) : α :=
  if trades.isEmpty then nat 0
  else nat (trades.countP Trade.isWinner) / nat trades.length

def grossProfit (trades : List (Trade α)) : α :=
  total ((trades.filter fun t => nat 0 < t.profit).map (·.profit))

def grossLoss (trades : List (Trade α)) : α :=
  total ((trades.filter fun t => t.profit < nat 0).map fun t => abs t.profit)

/-- Gross profit over gross loss. -/
def profitFactorOf (trades : List (Trade α)) : α :=
  if grossLoss trades == nat 0 then
    if nat 0 < grossProfit trades then infinity else nat 0
  else grossProfit trades / grossLoss trades

/-- All figures of a run. -/
def compute [Powers α] (equity : List α) (trades : List (Trade α)) (barsPerYear : α) :
    Metrics α :=
  let growth := annualGrowthOf equity barsPerYear
  let fall := maxDrawdownOf equity
  { totalReturn := totalReturnOf equity
    annualGrowth := growth
    sharpe := sharpeOf equity barsPerYear
    sortino := sortinoOf equity barsPerYear
    maxDrawdown := fall
    calmar := if nat 0 < fall then growth / fall else nat 0
    winRate := winRateOf trades
    profitFactor := profitFactorOf trades
    tradeCount := trades.length }

end Metrics

/-- A fallback that a figure was given. -/
inductive Degenerate where
  | flatEquity
  | noDownside
  | noDrawdown
  | noTrades
  | noLosingTrades
  deriving Repr, DecidableEq

namespace Degenerate

def all : List Degenerate := [.flatEquity, .noDownside, .noDrawdown, .noTrades, .noLosingTrades]

def name : Degenerate → String
  | .flatEquity => "flat_equity"
  | .noDownside => "no_downside"
  | .noDrawdown => "no_drawdown"
  | .noTrades => "no_trades"
  | .noLosingTrades => "no_losing_trades"

def describe : Degenerate → String
  | .flatEquity => "equity never varied; Sharpe set to 0"
  | .noDownside => "no losing periods; Sortino set to 0"
  | .noDrawdown => "no drawdown; Calmar set to 0"
  | .noTrades => "no closed trades; win rate and profit factor set to 0"
  | .noLosingTrades => "no losing trades; profit factor is infinite"

variable {α : Type} [Scalar α] [Powers α]

open Scalar Metrics

/-- The fallbacks taken for an equity curve and trades. -/
def flags (equity : List α) (trades : List (Trade α)) : List Degenerate :=
  let returns := periodReturns equity
  (if returns.length < 2 ∨ deviation returns < leastDeviation then [flatEquity] else []) ++
  (if returns.any fun r => r < nat 0 then [] else [noDownside]) ++
  (if maxDrawdownOf equity == nat 0 then [noDrawdown] else []) ++
  (if trades.isEmpty then [noTrades]
   else if isInfinite (profitFactorOf trades) then [noLosingTrades] else [])

end Degenerate

end Backtest
