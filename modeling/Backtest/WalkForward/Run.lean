import Backtest.Search.Outcome
import Backtest.WalkForward.Summary

/-!
# Walk-forward runs

Each window searches its in-sample bars with a seed of its own and replays the winner on its
out-of-sample bars. A window that fails is recorded and the others go on; only a search that crashes
while it makes room for its candidates takes the whole run with it. `Stops` says what was
known of a request to stop when each window and each of its candidates came up.
-/

namespace Backtest

/-- Why a walk-forward run does not begin. -/
inductive WalkForwardError (α : Type) where
  | config (rejection : Rejection α)
  | run (error : RunError α)
  | search (error : SearchError α)
  deriving Repr

/-- When a request to stop became known. -/
structure Stops where
  /-- Before a window. -/
  window : Nat → Bool
  /-- Before a candidate of a window. -/
  candidate : Nat → Nat → Bool

/-- Nothing is ever stopped. -/
def Stops.never : Stops := ⟨fun _ => false, fun _ _ => false⟩

def WalkForwardError.message {α : Type} [Scalar α] : WalkForwardError α → String
  | .config r => "invalid walk-forward config: " ++ r.message
  | .run e => e.message
  | .search e => e.message

namespace WalkForward

variable {α : Type} [Scalar α]

/-- What all windows share. -/
structure Setup (α : Type) where
  bars : List (Bar α)
  strategy : Strategy α
  space : Space α
  costs : Costs α
  search : SearchConfig α
  config : WalkForwardConfig α

/-- What became of one window. -/
inductive Verdict (α : Type) where
  | done (result : WindowResult α)
  | failed (failure : WindowFailure)
  | stopped
  /-- The search crashed, and not in one of its candidates. -/
  | crashed (text : String)

def segment (bars : List (Bar α)) (start stop : Nat) : List (Bar α) :=
  (bars.take stop).drop start

/-- The search settings of a window: its own seed, derived from the master seed. -/
def windowSearch (s : Setup α) (w : Window) : SearchConfig α :=
  { s.search with
    seed := Random.subSeed s.search.seed "walk_forward_window" w.index
    threads := none }

/-- Searches the in-sample bars of a window. -/
def inSample [Powers α] [Random.Uniform α] (s : Setup α) (stops : Stops) (w : Window) :
    Except (SearchError α) (SearchOutcome α) :=
  Search.run (segment s.bars w.trainStart w.trainEnd) s.strategy s.space s.costs
    (windowSearch s w) (stops.candidate w.index)

/-- Replays an assignment on the out-of-sample bars of a window. -/
def outOfSample [Powers α] (s : Setup α) (w : Window) (best : Parameter.Assignment α) :
    Except (RunError α) (Evaluation α) :=
  if s.config.leadIn then
    Evaluation.runFrom (segment s.bars w.trainStart w.testEnd) w.trainLength s.strategy best
      s.costs s.search.barsPerYear
  else
    Evaluation.run (segment s.bars w.testStart w.testEnd) s.strategy best s.costs
      s.search.barsPerYear

/-- The text recorded for a failed out-of-sample run. -/
def replayFailureText : RunError α → String
  | .failed _ ⟨_, .crashed _⟩ => "out-of-sample run panicked"
  | e => "out-of-sample run: " ++ e.message

def windowResult (s : Setup α) (w : Window) (outcome : SearchOutcome α)
    (best replay : Evaluation α) : WindowResult α :=
  let (ratio, flag) := degradation s.config best.metrics.sharpe replay.metrics.sharpe
  { index := w.index
    inSample := .ofBars s.bars w.trainStart w.trainEnd
    outOfSample := .ofBars s.bars w.testStart w.testEnd
    bestParameters := best.parameters
    inSampleMetrics := best.metrics
    outOfSampleMetrics := replay.metrics
    degradation := ratio
    flag
    candidatesEvaluated := outcome.evaluated
    candidateFailures := outcome.failures.length }

/-- Searches and replays one window, unless the run has been stopped. -/
def judge [Powers α] [Random.Uniform α] (s : Setup α) (stops : Stops) (w : Window) : Verdict α :=
  if stops.window w.index then .stopped
  else
    match inSample s stops w with
    | .error (.crashed text) => .crashed text
    | .error e => .failed ⟨w.index, "in-sample search: " ++ e.message⟩
    | .ok outcome =>
      if outcome.cancelled then .stopped
      else
        match outcome.best with
        | none =>
          .failed ⟨w.index, "no in-sample candidate succeeded (" ++
            toString outcome.failures.length ++ " failed)"⟩
        | some best =>
          match outOfSample s w best.parameters with
          | .error e => .failed ⟨w.index, replayFailureText e⟩
          | .ok replay => .done (windowResult s w outcome best replay)

def Verdict.done? : Verdict α → Option (WindowResult α)
  | .done r => some r
  | _ => none

def Verdict.failed? : Verdict α → Option WindowFailure
  | .failed f => some f
  | _ => none

def Verdict.isStopped : Verdict α → Bool
  | .stopped => true
  | _ => false

def Verdict.crash? : Verdict α → Option String
  | .crashed text => some text
  | _ => none

/-- A plan that cannot be made, as an error of the run. -/
def ofPlanError : PlanError α → WalkForwardError α
  | .config r => .config r
  | .insufficientData required actual => .run (.insufficientData required actual)

/-- Runs every window of a series. -/
def run [Powers α] [Random.Uniform α] (s : Setup α) (stops : Stops) :
    Except (WalkForwardError α) (WalkForwardSummary α) := do
  s.config.validate.mapError .config
  (Search.preflight s.bars s.costs s.search).mapError .search
  let plan ← (WindowPlan.ofBars s.bars.length s.config).mapError ofPlanError
  let verdicts := plan.windows.map (judge s stops)
  if let some text := verdicts.findSome? Verdict.crash? then throw (.search (.crashed text))
  return .ofWindows s.strategy.name s.search.target s.config plan
    (verdicts.filterMap Verdict.done?) (verdicts.filterMap Verdict.failed?)
    (verdicts.any Verdict.isStopped)

end WalkForward

end Backtest
