import Backtest.Document.JsonPrinter
import Backtest.Document.JsonReader
import Backtest.Report.Run
import Backtest.Report.Table
import Backtest.Storage.Record

/-!
# Saved runs

The files that are saved for a run, and reading its stored form again.
-/

namespace Backtest.Storage

/-- Why a text is no stored run. -/
inductive RunFault where
  | notARun
  | newerVersion (version : Nat)
  deriving Repr, DecidableEq

def RunFault.message : RunFault → String
  | .notARun => "failed to deserialize RunResult from JSON"
  | .newerVersion version =>
    "unsupported schema version " ++ toString version ++ " (max supported: " ++
      toString Evaluation.currentSchema ++ ")"

def runText (e : Evaluation Float) : String := Document.Json.pretty (ofEvaluation e)

/-- Reads a stored run of a known version. -/
def run (text : String) : Except RunFault (Evaluation Float) :=
  match (Document.Json.read? text).bind evaluation? with
  | none => .error .notARun
  | some e =>
    if Evaluation.currentSchema < e.schemaVersion then .error (.newerVersion e.schemaVersion)
    else .ok e

/-- The saved files with their names, in the order of writing. -/
def bundle (e : Evaluation Float) : List (String × String) :=
  [("result.json", runText e),
   ("record.json", Document.Json.pretty (ofRecord e)),
   ("trades.csv", Report.tradeTable e.trades),
   ("equity.csv", Report.equityTable e.equity),
   ("report.md", Report.ofEvaluation e)]

end Backtest.Storage
