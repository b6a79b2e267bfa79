import Backtest.CommandLine.Program
import Backtest.Digest.Bytes

/-!
# File trees

Folders and files below a working folder, as values. Performing a program on a tree gives its
result, the printed text and the tree afterwards.
-/

namespace Backtest.CommandLine

/-- Paths are lists of names; the working folder is the empty path. -/
structure FileTree where
  folders : List (List String)
  files : List (List String × List UInt8)

namespace FileTree

/-- One step along a path. -/
def descend (path : List String) (name : String) : List String :=
  if name = "" ∨ name = "." then path
  else if name = ".." then path.dropLast
  else path ++ [name]

/-- The names that a path goes through. -/
def path (text : String) : List String :=
  let names := (text.splitOn "/").foldl descend []
  if text.startsWith "/" then "/" :: names else names

def file? (t : FileTree) (p : List String) : Option (List UInt8) :=
  (t.files.find? fun f => f.1 == p).map (·.2)

def isFolder (t : FileTree) (p : List String) : Bool := p.isEmpty || t.folders.contains p

/-- The paths above a path, the nearest last. -/
def above (p : List String) : List (List String) :=
  (List.range p.length).map fun n => p.take n

/-- A path goes through something that is no folder. -/
def blocked (t : FileTree) (p : List String) : Bool :=
  (above p).any fun q => (t.file? q).isSome

def read (t : FileTree) (text : String) : Except FileFault (List UInt8) :=
  let p := path text
  if t.blocked p then .error .notFolder
  else if text.isEmpty then .error .missing
  else if t.isFolder p then .error .isFolder
  else
    match t.file? p with
    | some bytes => .ok bytes
    | none => .error .missing

/-- Puts a file in place of an older one. -/
def put (t : FileTree) (p : List String) (bytes : List UInt8) : FileTree :=
  { t with files := t.files.filter (fun f => f.1 != p) ++ [(p, bytes)] }

def write (t : FileTree) (text : String) (bytes : List UInt8) : Except FileFault FileTree :=
  let p := path text
  if t.blocked p then .error .notFolder
  else if text.isEmpty ∨ !t.isFolder p.dropLast then .error .missing
  else if t.isFolder p then .error .isFolder
  else .ok (t.put p bytes)

def makeFolder (t : FileTree) (text : String) : Except FileFault FileTree :=
  let p := path text
  if t.blocked p then .error .notFolder
  else if (t.file? p).isSome then .error .exists
  else
    let missing := (above p ++ [p]).filter fun q => !t.isFolder q
    .ok { t with folders := t.folders ++ missing }

/-- The tree of some files, with the folders that they stand in. -/
def ofFiles (files : List (String × String)) : FileTree :=
  files.foldl
    (fun t (name, text) =>
      let p := path name
      let missing := (above p).filter fun q => !t.isFolder q
      { t with folders := t.folders ++ missing }.put p (Digest.utf8 text))
    ⟨[], []⟩

end FileTree

/-- What a program leaves behind. -/
structure Performed (β : Type) where
  result : β
  printed : String
  tree : FileTree

/-- Performs a program on a tree; a failed operation leaves the tree as it was. -/
def Program.performOn {β : Type} : Program β → FileTree → Performed β
  | .done b, t => ⟨b, "", t⟩
  | .read path next, t => (next (t.read path)).performOn t
  | .write path text next, t =>
    match t.write path (Digest.utf8 text) with
    | .ok t => (next (.ok ())).performOn t
    | .error e => (next (.error e)).performOn t
  | .makeFolder path next, t =>
    match t.makeFolder path with
    | .ok t => (next (.ok ())).performOn t
    | .error e => (next (.error e)).performOn t
  | .print text next, t =>
    let rest := next.performOn t
    { rest with printed := text ++ rest.printed }

end Backtest.CommandLine
