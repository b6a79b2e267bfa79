import Backtest.Document.TomlNumber
import Backtest.Document.TomlTree

/-!
# Reading TOML

A text is a sequence of lines: headers, which say what table the following lines belong to, and keys
with values.
-/

namespace Backtest.Document.Toml

/-- Splits a key into the tables it goes through and its own name. -/
def splitKey? (parts : List String) : Option (List String × String) :=
  parts.getLast?.map fun name => (parts.dropLast, name)

mutual

/-- Reads a value; `depth` is how many more levels it may open. -/
def value? : (fuel depth : Nat) → List Char → Option (Document × List Char)
  | 0, _, _ => none
  | fuel + 1, depth, cs =>
    match cs with
    | '[' :: r =>
      if depth = 0 then none else (items? fuel (depth - 1) r).map fun (ds, r) => (.list ds, r)
    | '\x7b' :: r =>
      if depth = 0 then none
      else
        match skipBlanks r with
        | '\x7d' :: r => some (.object [], r)
        | r => (pairs? fuel (depth - 1) [] r).map fun (ms, r) => (.object (documents ms), r)
    | 't' :: r => Json.word? "true" (.bool true) ('t' :: r)
    | 'f' :: r => Json.word? "false" (.bool false) ('f' :: r)
    | cs =>
      match string? cs with
      | some (s, r) => some (.text s, r)
      | none => number? cs

/-- Reads items up to the closing bracket; a comma may follow the last. -/
def items? : (fuel depth : Nat) → List Char → Option (List Document × List Char)
  | 0, _, _ => none
  | fuel + 1, depth, cs =>
    match skipLines true false cs with
    | ']' :: r => some ([], r)
    | cs =>
      match value? fuel depth cs with
      | none => none
      | some (d, r) =>
        match skipLines true false r with
        | ',' :: r => (items? fuel depth r).map fun (ds, r) => (d :: ds, r)
        | ']' :: r => some ([d], r)
        | _ => none

/-- Reads the pairs of an inline table up to the closing brace. -/
def pairs? : (fuel depth : Nat) → Members → List Char → Option (Members × List Char)
  | 0, _, _, _ => none
  | fuel + 1, depth, ms, cs =>
    match key? cs with
    | some (parts, '=' :: r) =>
      match value? fuel depth (skipBlanks r), splitKey? parts with
      | some (d, r), some (path, name) =>
        match ms.put path name (.value d), skipBlanks r with
        | some ms, ',' :: r => pairs? fuel depth ms r
        | some ms, '\x7d' :: r => some (ms, r)
        | _, _ => none
      | _, _ => none
    | _ => none

end

/-- What the lines so far say. -/
structure Reading where
  members : Members
  /-- The table that the next keys belong to. -/
  header : List String

/-- Reads the rest of a header after its opening brackets, with what it does to the tables. -/
def header? (closing : List Char) (act : List String → String → Members → Option Members)
    (s : Reading) (cs : List Char) : Option (Reading × List Char) := do
  let (parts, r) ← key? cs
  let (path, name) ← splitKey? parts
  if closing.isPrefixOf r then
    let r ← lineEnd? (r.drop closing.length)
    return (⟨← act path name s.members, parts⟩, r)
  else none

/-- Reads a key with its value. -/
def pair? (s : Reading) (cs : List Char) : Option (Reading × List Char) := do
  let (parts, r) ← key? cs
  let (path, name) ← splitKey? parts
  match r with
  | '=' :: r =>
    let r := skipBlanks r
    let (d, r) ← value? (2 * r.length + 2) maxDepth r
    let r ← lineEnd? r
    return ({ s with members := ← s.members.putAt s.header path name (.value d) }, r)
  | _ => none

/-- Reads one line. -/
def line? (s : Reading) (cs : List Char) : Option (Reading × List Char) :=
  match skipBlanks cs with
  | '[' :: '[' :: r => header? [']', ']'] (fun path name ms => ms.extend path name) s r
  | '[' :: r => header? [']'] (fun path name ms => ms.declare path name) s r
  | cs =>
    match lineEnd? cs with
    | some r => some (s, r)
    | none => pair? s cs

/-- Reads the lines up to the end of the text. -/
def lines? : (fuel : Nat) → Reading → List Char → Option Reading
  | _, s, [] => some s
  | 0, _, _ => none
  | fuel + 1, s, cs =>
    match line? s cs with
    | some (s, r) => lines? fuel s r
    | none => none

/-- Drops a byte order mark. -/
def withoutMark : List Char → List Char
  | '\ufeff' :: cs => cs
  | cs => cs

/-- Reads a whole text as one object. -/
def read? (text : String) : Option Document :=
  let cs := withoutMark text.toList
  (lines? (cs.length + 1) ⟨[], []⟩ cs).map fun s => .object (documents s.members)

end Backtest.Document.Toml
