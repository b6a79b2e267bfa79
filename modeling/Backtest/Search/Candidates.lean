import Backtest.Search.Config
import Backtest.Search.Space

/-!
# Candidates of a search

A grid search takes every grid point, or an even stride of them when there are too many. A random
search draws a number of candidates and keeps the first of equal ones. Both make room for all their
candidates first, and crash where they ask for more than there can be.
-/

namespace Backtest

variable {α : Type} [Scalar α]

/-- What a search will try, in the order of enumeration. -/
structure Enumeration (α : Type) where
  candidates : List (Parameter.Assignment α)
  duplicates : Nat
  warnings : List String

namespace Enumeration

/-- Grid index of the `i`-th of `cap` evenly strided points out of `total`. -/
def stride (total cap i : Nat) : Nat := i * total / cap

def thinningWarning (total cap : Nat) : String :=
  "grid has " ++ toString total ++ " combinations, exceeding max_combinations " ++ toString cap ++
    "; evaluating a strided subset of " ++ toString cap

def ofGrid (space : Space α) (cap : Nat) : Enumeration α :=
  let total := space.size
  if total ≤ cap then ⟨(List.range total).map space.gridPoint, 0, []⟩
  else
    ⟨(List.range cap).map fun i => space.gridPoint (stride total cap i), 0,
      [thinningWarning total cap]⟩

/-- Draws candidates, after room has been made for all of them; `kept` holds those drawn before,
newest first. -/
def draw [Random.Uniform α] (space : Space α) :
    (trials : Nat) → (kept : List (Parameter.Assignment α)) → (duplicates : Nat) →
      Random.Generator → List (Parameter.Assignment α) × Nat
  | 0, kept, duplicates, _ => (kept.reverse, duplicates)
  | trials + 1, kept, duplicates, g =>
    let (candidate, g) := space.sample g
    if kept.any fun k => k.same candidate then draw space trials kept (duplicates + 1) g
    else draw space trials (candidate :: kept) duplicates g

def ofDraws [Random.Uniform α] (space : Space α) (trials : Nat) (seed : UInt64) : Enumeration α :=
  let (candidates, duplicates) := draw space trials [] 0 (.ofSeed seed)
  ⟨candidates, duplicates, []⟩

/-- The most assignments that a list has room for: 24 bytes each, fewer than `2 ^ 63` in all. -/
def listRoom : Nat := (Nat.pow 2 63 - 1) / 24

/-- The most that a set has room for, which fills seven in eight of its `2 ^ 58` places. With twice
as many it would take `2 ^ 63` bytes or more. -/
def setRoom : Nat := 7 * Nat.pow 2 55

/-- How making room for the candidates crashes, whatever memory there is: a list of grid points, or
a set for the draws that have been seen. -/
def crash? (space : Space α) (c : SearchConfig α) : Option String :=
  match c.method with
  | .grid =>
    if listRoom < min space.size c.maxCombinations then some "capacity overflow" else none
  | .random => if setRoom < c.trials then some "Hash table capacity overflow" else none

def ofConfig [Random.Uniform α] (space : Space α) (c : SearchConfig α) : Enumeration α :=
  match c.method with
  | .grid => ofGrid space c.maxCombinations
  | .random => ofDraws space c.trials c.seed

end Enumeration

/-- A candidate that the strategy's conditions admit. -/
structure Candidate (α : Type) where
  /-- Position in the enumeration. -/
  index : Nat
  parameters : Parameter.Assignment α
  resolved : Parameter.Assignment α

/-- The admitted candidates with their positions. -/
def Enumeration.admitted (e : Enumeration α) (strategy : Strategy α) : List (Candidate α) :=
  (e.candidates.zipIdx).filterMap fun (parameters, index) =>
    match strategy.resolve parameters with
    | .ok resolved => some ⟨index, parameters, resolved⟩
    | .error _ => none

end Backtest
