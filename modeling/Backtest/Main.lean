import Backtest.CommandLine.Run

/-!
# The program

Performs a command line on real files.
-/

namespace Backtest

/-- A fault of a real file operation. -/
def faultOf : IO.Error → CommandLine.FileFault
  | .noFileOrDirectory .. => .missing
  | .alreadyExists .. => .exists
  | .inappropriateType .. => .notFolder
  | e => .other (toString e)

/-- Tries a real file operation. -/
def attempt {β : Type} (act : IO β) : IO (Except CommandLine.FileFault β) := do
  match ← act.toBaseIO with
  | .ok b => return .ok b
  | .error e => return .error (faultOf e)

/-- Performs a program on real files. -/
def perform {β : Type} : CommandLine.Program β → IO β
  | .done b => return b
  | .read path next => do
    let result ← attempt (IO.FS.readBinFile path)
    perform (next (result.map fun bytes => bytes.toList))
  | .write path text next => do
    perform (next (← attempt (IO.FS.writeFile path text)))
  | .makeFolder path next => do
    perform (next (← attempt (IO.FS.createDirAll path)))
  | .print text next => do
    IO.print text
    perform next

end Backtest

def main (words : List String) : IO UInt32 := do
  let ending ← Backtest.perform (Backtest.CommandLine.main words)
  IO.eprint ending.text
  return UInt32.ofNat ending.code
