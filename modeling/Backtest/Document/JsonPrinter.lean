import Backtest.Decimal.Layout
import Backtest.Document.Basic

/-!
# Writing JSON

A document as JSON text, on one line or with one member a line and two blanks of indentation.
-/

namespace Backtest.Document.Json

/-- A character inside a JSON string: quotes, backslashes and control characters are escaped. -/
def escape (c : Char) : List Char :=
  if c = '"' then ['\\', '"']
  else if c = '\\' then ['\\', '\\']
  else if c = '\x08' then ['\\', 'b']
  else if c = '\x0c' then ['\\', 'f']
  else if c = '\n' then ['\\', 'n']
  else if c = '\r' then ['\\', 'r']
  else if c = '\t' then ['\\', 't']
  else if c.toNat < 32 then
    ['\\', 'u', '0', '0', Nat.digitChar (c.toNat / 16), Nat.digitChar (c.toNat % 16)]
  else [c]

def string (text : String) : String :=
  String.ofList ('"' :: text.toList.flatMap escape ++ ['"'])

def number (x : Float) : String := Decimal.Layout.json.write x

mutual

/-- JSON on one line. -/
def compact : Document → String
  | .null => "null"
  | .bool b => if b then "true" else "false"
  | .int n => toString n
  | .float x => number x
  | .text s => string s
  | .list items => "[" ++ compactItems items ++ "]"
  | .object members => "\x7b" ++ compactMembers members ++ "\x7d"

def compactItems : List Document → String
  | [] => ""
  | [d] => compact d
  | d :: ds => compact d ++ "," ++ compactItems ds

def compactMembers : List (String × Document) → String
  | [] => ""
  | [(name, d)] => string name ++ ":" ++ compact d
  | (name, d) :: ms => string name ++ ":" ++ compact d ++ "," ++ compactMembers ms

end

/-- A new line at a depth of nesting. -/
def newLine (depth : Nat) : String :=
  "\n" ++ String.ofList (List.replicate (2 * depth) ' ')

mutual

/-- JSON over several lines; `depth` is the nesting of the value itself. -/
def prettyAt (depth : Nat) : Document → String
  | .null => "null"
  | .bool b => if b then "true" else "false"
  | .int n => toString n
  | .float x => number x
  | .text s => string s
  | .list [] => "[]"
  | .list (d :: ds) =>
    "[" ++ newLine (depth + 1) ++ prettyAt (depth + 1) d ++ prettyItems (depth + 1) ds ++
      newLine depth ++ "]"
  | .object [] => "\x7b\x7d"
  | .object ((name, d) :: ms) =>
    "\x7b" ++ newLine (depth + 1) ++ string name ++ ": " ++ prettyAt (depth + 1) d ++
      prettyMembers (depth + 1) ms ++ newLine depth ++ "\x7d"

/-- Further items, each after a comma. -/
def prettyItems (depth : Nat) : List Document → String
  | [] => ""
  | d :: ds => "," ++ newLine depth ++ prettyAt depth d ++ prettyItems depth ds

/-- Further members, each after a comma. -/
def prettyMembers (depth : Nat) : List (String × Document) → String
  | [] => ""
  | (name, d) :: ms =>
    "," ++ newLine depth ++ string name ++ ": " ++ prettyAt depth d ++ prettyMembers depth ms

end

def pretty (d : Document) : String := prettyAt 0 d

end Backtest.Document.Json
