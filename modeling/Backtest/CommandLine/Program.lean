/-!
# Programs over files

What a command does is a tree of file operations and printed texts, each followed by what depends on
its result. The tree is plain data: it can be performed on real files, or on a `FileTree`.
-/

namespace Backtest.CommandLine

/-- Why a file operation fails. -/
inductive FileFault where
  | missing
  | exists
  | notFolder
  | isFolder
  /-- The bytes are no UTF-8. -/
  | notText
  | other (text : String)
  deriving Repr, DecidableEq

def FileFault.message : FileFault → String
  | .missing => "No such file or directory (os error 2)"
  | .exists => "File exists (os error 17)"
  | .notFolder => "Not a directory (os error 20)"
  | .isFolder => "Is a directory (os error 21)"
  | .notText => "stream did not contain valid UTF-8"
  | .other text => text

inductive Program (β : Type) where
  | done (result : β)
  | read (path : String) (next : Except FileFault (List UInt8) → Program β)
  | write (path text : String) (next : Except FileFault Unit → Program β)
  /-- Creates a folder and those above it; an existing folder is no fault. -/
  | makeFolder (path : String) (next : Except FileFault Unit → Program β)
  | print (text : String) (next : Program β)

namespace Program

variable {β γ : Type}

def andThen : Program β → (β → Program γ) → Program γ
  | .done b, f => f b
  | .read path next, f => .read path fun r => (next r).andThen f
  | .write path text next, f => .write path text fun r => (next r).andThen f
  | .makeFolder path next, f => .makeFolder path fun r => (next r).andThen f
  | .print text next, f => .print text (next.andThen f)

instance : Monad Program where
  pure := .done
  bind := andThen

end Program

end Backtest.CommandLine
