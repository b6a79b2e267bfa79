/-!
# Reading comma-separated values

A text is cut into records and fields by one pass over its symbols, which may be bytes or
characters. A field that begins with a quote runs to the closing quote; a quote inside is written
twice. Records end at a carriage return or a line feed, and empty lines are no records.
-/

namespace Backtest.Csv

/-- Symbols among which the four that structure a table can be told. -/
class Symbol (σ : Type) where
  comma : σ
  quote : σ
  carriageReturn : σ
  lineFeed : σ

instance : Symbol Char := ⟨',', '"', '\r', '\n'⟩

instance : Symbol UInt8 := ⟨44, 34, 13, 10⟩

/-- Where the next symbol stands. -/
inductive Place where
  /-- At the beginning of a line. -/
  | record
  /-- At the beginning of a field that is not the first. -/
  | field
  /-- In a field without quotes, or after its closing quote and more. -/
  | plain
  | quoted
  /-- After a quote in a quoted field. -/
  | closing
  deriving Repr, DecidableEq

/-- The record read so far; both lists are newest first. -/
structure Partial (σ : Type) where
  place : Place
  field : List σ
  fields : List (List σ)

namespace Partial

variable {σ : Type}

def start : Partial σ := ⟨.record, [], []⟩

def put (p : Partial σ) (place : Place) (c : σ) : Partial σ :=
  { p with place, field := c :: p.field }

def endField (p : Partial σ) : Partial σ := ⟨.field, [], p.field.reverse :: p.fields⟩

def record (p : Partial σ) : List (List σ) := (p.field.reverse :: p.fields).reverse

variable [DecidableEq σ] [Symbol σ]

open Csv.Symbol (comma quote carriageReturn lineFeed)

def isTerminator (c : σ) : Bool := c = carriageReturn || c = lineFeed

/-- Takes in one symbol; a terminator gives the finished record. -/
def step (p : Partial σ) (c : σ) : Option (List (List σ)) × Partial σ :=
  match p.place with
  | .record =>
    if isTerminator c then (none, start)
    else if c = quote then (none, { p with place := .quoted })
    else if c = comma then (none, p.endField)
    else (none, p.put .plain c)
  | .field =>
    if c = quote then (none, { p with place := .quoted })
    else if c = comma then (none, p.endField)
    else if isTerminator c then (some p.record, start)
    else (none, p.put .plain c)
  | .plain =>
    if c = comma then (none, p.endField)
    else if isTerminator c then (some p.record, start)
    else (none, p.put .plain c)
  | .quoted =>
    if c = quote then (none, { p with place := .closing }) else (none, p.put .quoted c)
  | .closing =>
    if c = quote then (none, p.put .quoted c)
    else if c = comma then (none, p.endField)
    else if isTerminator c then (some p.record, start)
    else (none, p.put .plain c)

/-- The record that the end of the text finishes, if one has begun. -/
def stop (p : Partial σ) : Option (List (List σ)) :=
  if p.place = .record then none else some p.record

/-- The records of the remaining symbols. -/
def finish : Partial σ → List σ → List (List (List σ))
  | p, [] => p.stop.toList
  | p, c :: cs => (p.step c).1.toList ++ finish (p.step c).2 cs

end Partial

/-- The records of a text, each a list of fields. -/
def records {σ : Type} [DecidableEq σ] [Symbol σ] (cs : List σ) : List (List (List σ)) :=
  Partial.start.finish cs

end Backtest.Csv
