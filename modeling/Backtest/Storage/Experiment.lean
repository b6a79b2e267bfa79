import Backtest.Document.TomlReader
import Backtest.Experiment.Basic
import Backtest.Storage.WalkForward

/-!
# Experiment files

An experiment is written in TOML. What a file leaves out is standard; a member that no experiment
has is refused.
-/

namespace Backtest.Storage

def experimentFields : List String :=
  ["strategy", "data", "params", "ranges", "costs", "search", "walk_forward"]

/-- Every member is one of the given names. -/
def hasOnly (names : List String) : Document → Bool
  | .object members => members.all fun m => names.contains m.1
  | _ => true

def experiment? (d : Document) : Option (Experiment Float) := do
  let f ← d.fields? experimentFields
  if !hasOnly experimentFields d then none
  let strategy ← f.required "strategy" Document.text?
  let e : Experiment Float := .ofStrategy strategy
  return {
    strategy
    data := ← f.optional "data" Document.text?
    parameters := ← f.withDefault "params" assignment? e.parameters
    ranges := ← f.withDefault "ranges" (Document.list? rangeOverride?) e.ranges
    costs := ← f.withDefault "costs" costs? e.costs
    search := ← f.withDefault "search" searchConfig? e.search
    walkForward := ← f.withDefault "walk_forward" walkForwardConfig? e.walkForward }

/-- Reads an experiment file. -/
def experimentOfText? (text : String) : Option (Experiment Float) :=
  (Document.Toml.read? text).bind experiment?

end Backtest.Storage
