import Backtest.Search.Candidates

/-!
# Running a search

Every admitted candidate is run on its own and either ranked by its score, recorded with its
failure, or left out because the search had been told to stop. `stopped i` says whether that was
known when candidate `i` came up, so that one definition covers every moment of stopping.
-/

namespace Backtest

/-- Why a search does not begin. -/
inductive SearchError (α : Type) where
  | config (rejection : Rejection α)
  | run (error : RunError α)
  | emptySpace
  /-- There cannot be room for the candidates. Nothing on the way recovers from this. -/
  | crashed (text : String)
  | noValidCandidates (total : Nat)
  deriving Repr

def SearchError.message {α : Type} [Scalar α] : SearchError α → String
  | .config r => "invalid search config: " ++ r.message
  | .run e => e.message
  | .emptySpace => "parameter space is empty"
  | .crashed text => text
  | .noValidCandidates n => "all " ++ toString n ++ " candidates violate parameter constraints"

structure RankedCandidate (α : Type) where
  index : Nat
  /-- Parameters away from their defaults. -/
  parameters : Parameter.Assignment α
  resolved : Parameter.Assignment α
  metrics : Metrics α
  score : α

structure FailedCandidate (α : Type) where
  index : Nat
  parameters : Parameter.Assignment α
  error : String

structure SearchOutcome (α : Type) where
  strategy : String
  target : Target
  /-- The full run of the first ranked candidate. -/
  best : Option (Evaluation α)
  ranked : List (RankedCandidate α)
  failures : List (FailedCandidate α)
  warnings : List String
  /-- Candidates enumerated. -/
  totalCandidates : Nat
  /-- Candidates that the strategy's conditions exclude. -/
  skippedInvalid : Nat
  duplicatesDropped : Nat
  cancelled : Bool

section

variable {α : Type} [Scalar α]

instance : BEq (RankedCandidate α) where
  beq a b :=
    a.index == b.index && a.parameters == b.parameters && a.resolved == b.resolved &&
      a.metrics == b.metrics && a.score == b.score

instance : BEq (FailedCandidate α) where
  beq a b := a.index == b.index && a.parameters == b.parameters && a.error == b.error

/-- Equal in every part, numbers compared as numbers. -/
instance : BEq (SearchOutcome α) where
  beq a b :=
    a.strategy == b.strategy && a.target == b.target && a.best == b.best &&
      a.ranked == b.ranked && a.failures == b.failures && a.warnings == b.warnings &&
      a.totalCandidates == b.totalCandidates && a.skippedInvalid == b.skippedInvalid &&
      a.duplicatesDropped == b.duplicatesDropped && a.cancelled == b.cancelled

end

/-- Candidates that were run. -/
def SearchOutcome.evaluated {α : Type} (o : SearchOutcome α) : Nat :=
  o.ranked.length + o.failures.length

namespace Search

variable {α : Type} [Scalar α]

/-- Nothing ever stops the search. -/
def never : Nat → Bool := fun _ => false

/-- What became of one candidate. -/
inductive Verdict (α : Type) where
  | ranked (candidate : RankedCandidate α)
  | failed (candidate : FailedCandidate α)
  | stopped

/-- The text recorded for a failed run. -/
def failureText : RunError α → String
  | .failed _ ⟨_, .crashed text⟩ => "panicked: " ++ text
  | e => e.message

/-- Runs one candidate, unless the search has been stopped. -/
def judge [Powers α] (bars : List (Bar α)) (strategy : Strategy α) (costs : Costs α)
    (config : SearchConfig α) (stopped : Nat → Bool) (c : Candidate α) : Verdict α :=
  if stopped c.index then .stopped
  else
    match Evaluation.run bars strategy c.resolved costs config.barsPerYear with
    | .ok e =>
      .ranked ⟨c.index, c.parameters, c.resolved, e.metrics, config.target.score e.metrics⟩
    | .error e => .failed ⟨c.index, c.parameters, failureText e⟩

def Verdict.ranked? : Verdict α → Option (RankedCandidate α)
  | .ranked c => some c
  | _ => none

def Verdict.failed? : Verdict α → Option (FailedCandidate α)
  | .failed c => some c
  | _ => none

def Verdict.isStopped : Verdict α → Bool
  | .stopped => true
  | _ => false

/-- Better score first, then fewer parameters away from their defaults, then earlier. -/
def compareRanked (a b : RankedCandidate α) : Ordering :=
  (compareScores a.score b.score).then
    ((compare a.parameters.size b.parameters.size).then (compare a.index b.index))

def rank (cs : List (RankedCandidate α)) : List (RankedCandidate α) :=
  cs.mergeSort fun a b => compareRanked a b != .gt

/-- Checks what all candidates share. -/
def preflight (bars : List (Bar α)) (costs : Costs α) (config : SearchConfig α) :
    Except (SearchError α) Unit := do
  costs.validate.mapError .config
  config.validate.mapError .config
  if bars.length < Simulation.leastBars then
    throw (.run (.insufficientData Simulation.leastBars bars.length))
  if let some d := disorder? bars then throw (.run (.disordered d))

/-- Runs the candidates of a space and ranks them. -/
def run [Powers α] [Random.Uniform α] (bars : List (Bar α)) (strategy : Strategy α)
    (space : Space α) (costs : Costs α) (config : SearchConfig α)
    (stopped : Nat → Bool) : Except (SearchError α) (SearchOutcome α) := do
  preflight bars costs config
  if space.size = 0 then throw .emptySpace
  if let some text := Enumeration.crash? space config then throw (.crashed text)
  let enumeration := Enumeration.ofConfig space config
  let total := enumeration.candidates.length
  let admitted := enumeration.admitted strategy
  if admitted.isEmpty then throw (.noValidCandidates total)
  let verdicts := admitted.map (judge bars strategy costs config stopped)
  let ranked := rank (verdicts.filterMap Verdict.ranked?)
  let best ←
    match ranked with
    | [] => pure none
    | top :: _ =>
      ((Evaluation.run bars strategy top.resolved costs config.barsPerYear).map some).mapError .run
  return {
    strategy := strategy.name
    target := config.target
    best
    ranked
    failures := verdicts.filterMap Verdict.failed?
    warnings := enumeration.warnings
    totalCandidates := total
    skippedInvalid := total - admitted.length
    duplicatesDropped := enumeration.duplicates
    cancelled := verdicts.any Verdict.isStopped }

end Search

end Backtest
