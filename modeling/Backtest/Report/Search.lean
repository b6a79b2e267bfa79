import Backtest.Report.Markdown
import Backtest.Search.Outcome

/-!
# The report of a search

What was tried, the first ranked candidates, and what failed.
-/

namespace Backtest.Report

def candidateCounts (o : SearchOutcome Float) : String :=
  "- Candidates: " ++ toString o.totalCandidates ++ " (" ++ toString o.evaluated ++
    " evaluated, " ++ toString o.failures.length ++ " failed, " ++ toString o.skippedInvalid ++
    " invalid, " ++ toString o.duplicatesDropped ++ " duplicate draws)"

def stoppedNote (cancelled : Bool) : List String :=
  whenever cancelled ["- **Cancelled before completion**"]

def rankedRow (rank : Nat) (c : RankedCandidate Float) : String :=
  row [toString rank, if c.parameters.isEmpty then "(defaults)" else c.parameters.text,
    ratio c.score, ratio c.metrics.sharpe, percent c.metrics.totalReturn,
    percent c.metrics.maxDrawdown, toString c.metrics.tradeCount]

def failedLine (c : FailedCandidate Float) : String :=
  "- #" ++ toString c.index ++ " (" ++ c.parameters.text ++ "): " ++ c.error

/-- The report of a search with the `top` first candidates. -/
def ofSearch (o : SearchOutcome Float) (top : Nat) : String :=
  lines <|
    ["# Parameter Search: `" ++ o.strategy ++ "`", "", "Target: " ++ o.target.name, "",
     candidateCounts o] ++ stoppedNote o.cancelled ++
    o.warnings.map (fun w => "- Warning: " ++ w) ++ ["", "## Ranking", ""] ++
    head ["Rank", "Params", "Score", "Sharpe", "Return", "Max DD", "Trades"] ++
    ((o.ranked.take top).zipIdx 1).map (fun (c, rank) => rankedRow rank c) ++
    whenever (!o.failures.isEmpty) (["", "## Failures", ""] ++ o.failures.map failedLine)

end Backtest.Report
