import Backtest.CommandLine.Assembly
import Backtest.Report.WalkForward
import Backtest.Storage.Bundle

/-!
# Running commands

Each command as a program over files. What has been printed before a failure stays printed.
-/

namespace Backtest.CommandLine

/-- A program that may fail. -/
abbrev Task := ExceptT Failure Program

/-! ## Files -/

def print (text : String) : Task Unit := ExceptT.mk (.print text (.done (.ok ())))

def readBytes (path : String) (failure : FileFault → Failure) : Task (List UInt8) :=
  ExceptT.mk (.read path fun r => .done (r.mapError failure))

/-- Reads a text file. -/
def readText (path : String) (failure : FileFault → Failure) : Task String := do
  let bytes ← readBytes path failure
  match String.fromUTF8? ⟨bytes.toArray⟩ with
  | some text => return text
  | none => throw (failure .notText)

def writeText (path text : String) : Task Unit :=
  ExceptT.mk (.write path text fun r => .done (r.mapError (.ofFile "failed to write" path)))

def makeFolder (path : String) : Task Unit :=
  ExceptT.mk (.makeFolder path fun r =>
    .done (r.mapError (.ofFile "failed to create output dir:" path)))

/-- A name inside a folder. -/
def inside (folder name : String) : String :=
  if folder.endsWith "/" then folder ++ name else folder ++ "/" ++ name

/-- Writes named files into a folder, which is created first. -/
def writeFiles (folder : String) (files : List (String × String)) : Task Unit := do
  makeFolder folder
  files.forM fun (name, text) => writeText (inside folder name) text

def sayLine (text : String) : Task Unit := print (text ++ "\n")

def saySaved (folder : String) : Task Unit := sayLine ("Artifacts saved to: " ++ folder)

/-! ## Strategies -/

/-- A text with blanks after it, up to a width. -/
def padRight (width : Nat) (text : String) : String :=
  text ++ String.ofList (List.replicate (width - text.length) ' ')

def domainText : Parameter.Domain Float → String
  | .int low high step value =>
    "int [" ++ toString low.toInt ++ ", " ++ toString high.toInt ++ "] step " ++
      toString step.toInt ++ ", default " ++ toString value.toInt
  | .float low high step value =>
    "float [" ++ Scalar.text low ++ ", " ++ Scalar.text high ++ "] step " ++ Scalar.text step ++
      ", default " ++ Scalar.text value
  | .choice options value => "one of " ++ "|".intercalate options ++ ", default " ++ value

def strategyLines (s : Strategy Float) : List String :=
  (s.name ++ " — " ++ s.description) ::
    s.schema.declarations.map fun d => "    " ++ padRight 12 d.name ++ " " ++ domainText d.domain

def strategyList (r : Registry Float) : String :=
  Report.lines (r.list.flatMap strategyLines)

/-! ## Experiments -/

/-- A short text of a run's figures. -/
def summary (e : Evaluation Float) : String :=
  let m := e.metrics
  Report.lines
    ["Strategy:      " ++ e.strategy ++ " (" ++ e.parameters.text ++ ")",
     "Total return:  " ++ Report.percent m.totalReturn,
     "CAGR:          " ++ Report.percent m.annualGrowth,
     "Sharpe:        " ++ Decimal.fixed 3 m.sharpe,
     "Sortino:       " ++ Decimal.fixed 3 m.sortino,
     "Max drawdown:  " ++ Decimal.fixed 2 (m.maxDrawdown * 100.0) ++ "%",
     "Calmar:        " ++ Decimal.fixed 3 m.calmar,
     "Win rate:      " ++ Decimal.fixed 1 (m.winRate * 100.0) ++ "%",
     "Profit factor: " ++ Decimal.fixed 3 m.profitFactor,
     "Trades:        " ++ toString m.tradeCount]

/-- The experiment that a file describes, or a standard one for a named strategy. -/
def baseExperiment (o : ExperimentOptions) : Task (Experiment Float) :=
  match o.config, o.strategy with
  | some path, _ => do
    let text ← readText path (.ofNamedFile "failed to read" path)
    match Storage.experimentOfText? text with
    | some e => return e
    | none =>
      let reason := "the text is not a valid experiment"
      throw { sentence := "failed to parse experiment config: " ++ reason, causes := [reason] }
  | none, some name => return .ofStrategy name
  | none, none => throw (.plain "one of --config or --strategy is required")

def experiment (o : ExperimentOptions) : Task (Experiment Float) := do
  let base ← baseExperiment o
  ExceptT.mk (.done (o.apply base))

def orFail {ε β : Type} (failure : ε → Failure) (r : Except ε β) : Task β :=
  ExceptT.mk (.done (r.mapError failure))

/-- The bars of an experiment. -/
def loadBars (e : Experiment Float) : Task (List (Bar Float)) :=
  match e.data with
  | none => throw (.plain "no bar data: pass --data or set `data` in the config")
  | some path => do
    let doing := "loading " ++ path
    let bytes ← readBytes path fun f => (Failure.ofNamedFile "failed to open" path f).within doing
    orFail (fun f => (Failure.plain f.message).within doing) (Feed.read bytes)

/-! ## Commands -/

def runOne (registry : Registry Float) (o : ExperimentOptions) (folder : Option String) :
    Task Unit := do
  let e ← experiment o
  let strategy ← orFail .ofRejection (e.resolve registry)
  let bars ← loadBars e
  let result ← orFail .ofRun
    (Evaluation.run bars strategy e.parameters e.costs e.search.barsPerYear)
  print (summary result)
  if let some folder := folder then
    writeFiles folder (Storage.bundle result)
    saySaved folder

def optimize (registry : Registry Float) (o : ExperimentOptions) (s : SearchOptions) (top : Nat)
    (folder : Option String) : Task Unit := do
  let e ← experiment o
  let e := { e with search := s.apply e.search }
  let strategy ← orFail .ofRejection (e.resolve registry)
  let space ← orFail .ofRejection (e.space strategy)
  let bars ← loadBars e
  let outcome ← orFail .ofSearch (Search.run bars strategy space e.costs e.search Search.never)
  print (Report.ofSearch outcome top)
  let some best := outcome.best
    | throw (.plain ("no candidate succeeded (" ++ toString outcome.failures.length ++ " failed)"))
  print "\n"
  print (summary best)
  if let some folder := folder then
    writeFiles folder [("search.json", Document.Json.pretty (Storage.ofOutcome outcome))]
    writeFiles folder [("search.md", Report.ofSearch outcome outcome.ranked.length)]
    writeFiles (inside folder "best") (Storage.bundle best)
    saySaved folder

def walkForward (registry : Registry Float) (o : ExperimentOptions) (s : SearchOptions)
    (w : WindowOptions) (folder : Option String) : Task Unit := do
  let e ← experiment o
  let e := { e with search := s.apply e.search, walkForward := w.apply e.walkForward }
  let strategy ← orFail .ofRejection (e.resolve registry)
  let space ← orFail .ofRejection (e.space strategy)
  let bars ← loadBars e
  let result ← orFail .ofWalkForward
    (WalkForward.run ⟨bars, strategy, space, e.costs, e.search, e.walkForward⟩ .never)
  let report := Report.ofWalkForward result
  print report
  if let some folder := folder then
    writeFiles folder
      [("walk_forward.json", Document.Json.pretty (Storage.ofSummary result)),
       ("windows.csv", Report.windowTable result.windows),
       ("walk_forward.md", report)]
    saySaved folder
  if result.windows.isEmpty then throw (.plain "no walk-forward window completed")

def report (path : String) (output : Option String) : Task Unit := do
  let text ← readText path (.ofFile "failed to read" path)
  let result ← orFail (fun f => .plain f.message) (Storage.run text)
  let markdown := Report.ofEvaluation result
  match output with
  | some path => writeText path markdown
  | none => print markdown

def Command.task (registry : Registry Float) : Command → Task Unit
  | .strategies => print (strategyList registry)
  | .run o folder => runOne registry o folder
  | .optimize o s top folder => CommandLine.optimize registry o s top folder
  | .walkForward o s w folder => CommandLine.walkForward registry o s w folder
  | .report path output => CommandLine.report path output

/-- How a command line ended. -/
inductive Ending where
  | success
  | failed (failure : Failure)
  /-- The words are no command. -/
  | usage
  deriving Repr

/-- The exit code of an ending. A crash has one of its own. -/
def Ending.code : Ending → Nat
  | .success => 0
  | .failed f => if f.crashed then 101 else 1
  | .usage => 2

/-- What is written to the error stream at an ending. -/
def Ending.text : Ending → String
  | .success => ""
  | .failed f => f.text
  | .usage =>
    "usage: backtest strategies | run | optimize | walk-forward | report PATH, with options\n"

/-- A command line as a program, with the strategies of the library. -/
def main (words : List String) : Program Ending :=
  match Command.ofWords? words with
  | none => .done .usage
  | some command => do
    match ← (command.task .builtins).run with
    | .ok () => return .success
    | .error f => return .failed f

end Backtest.CommandLine
