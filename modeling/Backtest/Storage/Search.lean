import Backtest.Search.Outcome
import Backtest.Storage.Run

/-!
# Stored searches
-/

namespace Backtest.Storage

def ofRanked (c : RankedCandidate Float) : Document :=
  .object
    [("index", ofCount c.index), ("params", ofAssignment c.parameters),
     ("resolved", ofAssignment c.resolved), ("metrics", ofMetrics c.metrics),
     ("score", .float c.score)]

def ranked? (d : Document) : Option (RankedCandidate Float) := do
  let f ← d.fields? ["index", "params", "resolved", "metrics", "score"]
  return {
    index := ← f.required "index" Document.count?
    parameters := ← f.required "params" assignment?
    resolved := ← f.required "resolved" assignment?
    metrics := ← f.required "metrics" metrics?
    score := ← f.required "score" Document.float? }

def ofFailed (c : FailedCandidate Float) : Document :=
  .object
    [("index", ofCount c.index), ("params", ofAssignment c.parameters), ("error", .text c.error)]

def failed? (d : Document) : Option (FailedCandidate Float) := do
  let f ← d.fields? ["index", "params", "error"]
  return {
    index := ← f.required "index" Document.count?
    parameters := ← f.required "params" assignment?
    error := ← f.required "error" Document.text? }

def ofOption {β : Type} (encode : β → Document) : Option β → Document
  | some b => encode b
  | none => .null

def ofOutcome (o : SearchOutcome Float) : Document :=
  .object
    [("strategy", .text o.strategy), ("target", .text o.target.name),
     ("best", ofOption ofEvaluation o.best), ("ranked", .list (o.ranked.map ofRanked)),
     ("failures", .list (o.failures.map ofFailed)), ("warnings", ofTexts o.warnings),
     ("total_candidates", ofCount o.totalCandidates),
     ("skipped_invalid", ofCount o.skippedInvalid),
     ("duplicates_dropped", ofCount o.duplicatesDropped), ("cancelled", .bool o.cancelled)]

def outcome? (d : Document) : Option (SearchOutcome Float) := do
  let f ← d.fields? ["strategy", "target", "best", "ranked", "failures", "warnings",
    "total_candidates", "skipped_invalid", "duplicates_dropped", "cancelled"]
  return {
    strategy := ← f.required "strategy" Document.text?
    target := ← f.required "target" (Document.named? Target.ofName?)
    best := ← f.optional "best" evaluation?
    ranked := ← f.required "ranked" (Document.list? ranked?)
    failures := ← f.required "failures" (Document.list? failed?)
    warnings := ← f.required "warnings" texts?
    totalCandidates := ← f.required "total_candidates" Document.count?
    skippedInvalid := ← f.required "skipped_invalid" Document.count?
    duplicatesDropped := ← f.required "duplicates_dropped" Document.count?
    cancelled := ← f.required "cancelled" Document.bool? }

/-- A seed, which takes the whole of a 64-bit word. -/
def seed? (d : Document) : Option UInt64 := d.count?.map UInt64.ofNat

/-- Search settings; what is left out is standard. -/
def searchConfig? (d : Document) : Option (SearchConfig Float) := do
  let f ← d.fields? ["method", "max_combinations", "n_trials", "seed", "target", "bars_per_year",
    "threads"]
  let c : SearchConfig Float := .standard
  let method := Document.named? SearchMethod.ofName?
  let target := Document.named? Target.ofName?
  return {
    method := ← f.withDefault "method" method c.method
    maxCombinations := ← f.withDefault "max_combinations" Document.count? c.maxCombinations
    trials := ← f.withDefault "n_trials" Document.count? c.trials
    seed := ← f.withDefault "seed" seed? c.seed
    target := ← f.withDefault "target" target c.target
    barsPerYear := ← f.withDefault "bars_per_year" Document.float? c.barsPerYear
    threads := ← f.withDefault "threads" (Document.nullable? Document.count?) c.threads }

end Backtest.Storage
