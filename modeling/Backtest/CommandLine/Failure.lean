import Backtest.CommandLine.Program
import Backtest.Market.Feed
import Backtest.Storage.Bundle
import Backtest.Storage.Experiment
import Backtest.Storage.WalkForward

/-!
# Failures of commands

A command that fails says why in one sentence, followed by the sentences of what caused it. One that
crashes leaves the bare text of the crash.
-/

namespace Backtest.CommandLine

structure Failure where
  sentence : String
  causes : List String := []
  crashed : Bool := false
  deriving Repr, DecidableEq

namespace Failure

def plain (sentence : String) : Failure := { sentence }

def crash (text : String) : Failure := { sentence := text, crashed := true }

/-- Says what was being done when something failed. -/
def within (doing : String) (f : Failure) : Failure :=
  { sentence := doing, causes := f.sentence :: f.causes }

/-- The lines of a cause: a first mark, and blanks of its width before further lines. -/
def indented (mark text : String) : String :=
  let margin := String.ofList (List.replicate mark.length ' ')
  mark ++ ("\n" ++ margin).intercalate (text.splitOn "\n")

/-- The full text: causes are numbered from 0 when there are several. -/
def text (f : Failure) : String :=
  let causes :=
    match f.causes with
    | [] => ""
    | [cause] => "\n\nCaused by:\n" ++ indented "    " cause
    | causes =>
      let marked := causes.zipIdx.map fun (cause, i) =>
        let number := toString i
        let margin := String.ofList (List.replicate (5 - number.length) ' ')
        indented (margin ++ number ++ ": ") cause
      "\n\nCaused by:\n" ++ "\n".intercalate marked
  if f.crashed then f.sentence ++ "\n" else "Error: " ++ f.sentence ++ causes ++ "\n"

/-- A file that cannot be used as intended. -/
def ofFile (intent path : String) (fault : FileFault) : Failure :=
  { sentence := intent ++ " " ++ path, causes := [fault.message] }

/-- As `ofFile`, with the fault also in the sentence. -/
def ofNamedFile (intent path : String) (fault : FileFault) : Failure :=
  { sentence := intent ++ " " ++ path ++ ": " ++ fault.message, causes := [fault.message] }

def ofRejection (r : Rejection Float) : Failure := plain r.message

def ofRun (e : RunError Float) : Failure :=
  match e with
  | .rejected r => { sentence := e.message, causes := [r.message] }
  | .failed _ f => { sentence := e.message, causes := [f.message] }
  | e => plain e.message

def ofSearch (e : SearchError Float) : Failure :=
  match e with
  | .config r => { sentence := e.message, causes := [r.message] }
  | .run e => ofRun e
  | .crashed text => crash text
  | e => plain e.message

def ofWalkForward (e : WalkForwardError Float) : Failure :=
  match e with
  | .config r => { sentence := e.message, causes := [r.message] }
  | .run e => ofRun e
  | .search e => ofSearch e

end Failure

end Backtest.CommandLine
