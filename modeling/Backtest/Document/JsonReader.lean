import Backtest.Digest.Bytes
import Backtest.Document.Basic

/-!
# Reading JSON

The strict grammar: no leading zeros, no comments, no lone surrogates, at most 127 levels of
nesting, and nothing after the value. A number without point and exponent is an integer if it fits
64 bits, with or without sign; every other number is a double and has to be in its range.
-/

namespace Backtest.Document.Json

def isSpace (c : Char) : Bool := c == ' ' || c == '\n' || c == '\t' || c == '\r'

def skipSpace (cs : List Char) : List Char := cs.dropWhile isSpace

/-- Four hexadecimal digits. -/
def unit? (a b c d : Char) : Option Nat := do
  let high := (← Digest.hexValue? a) * 16 + (← Digest.hexValue? b)
  return (high * 16 + (← Digest.hexValue? c)) * 16 + (← Digest.hexValue? d)

/-- The character after a backslash, `u` apart. -/
def simpleEscape? (c : Char) : Option Char :=
  if c = '"' ∨ c = '\\' ∨ c = '/' then some c
  else if c = 'b' then some '\x08'
  else if c = 'f' then some '\x0c'
  else if c = 'n' then some '\n'
  else if c = 'r' then some '\r'
  else if c = 't' then some '\t'
  else none

def isHighSurrogate (u : Nat) : Bool := 0xd800 ≤ u && u < 0xdc00
def isLowSurrogate (u : Nat) : Bool := 0xdc00 ≤ u && u < 0xe000

/-- The character of a surrogate pair. -/
def joinSurrogates (high low : Nat) : Char :=
  Char.ofNat (0x10000 + (high - 0xd800) * 1024 + (low - 0xdc00))

/-- Reads a string after its opening quote; `read` holds its characters so far, newest first. -/
def stringBody (read : List Char) : List Char → Option (String × List Char)
  | [] => none
  | '"' :: r => some (String.ofList read.reverse, r)
  | '\\' :: 'u' :: a :: b :: c :: d :: r =>
    match unit? a b c d with
    | none => none
    | some u =>
      if isLowSurrogate u then none
      else if isHighSurrogate u then
        match r with
        | '\\' :: 'u' :: a :: b :: c :: d :: r =>
          match unit? a b c d with
          | some v =>
            if isLowSurrogate v then stringBody (joinSurrogates u v :: read) r else none
          | none => none
        | _ => none
      else stringBody (Char.ofNat u :: read) r
  | '\\' :: c :: r =>
    match simpleEscape? c with
    | some e => stringBody (e :: read) r
    | none => none
  | c :: r => if c.toNat < 32 ∨ c = '\\' then none else stringBody (c :: read) r

/-- Reads the digits before a point: a single zero, or digits that do not begin with one. -/
def wholePart? (cs : List Char) : Option (List Char × List Char) :=
  match cs with
  | '0' :: r =>
    match r with
    | c :: _ => if c.isDigit then none else some (['0'], r)
    | [] => some (['0'], [])
  | cs =>
    let (ds, r) := Decimal.spanDigits cs
    if ds.isEmpty then none else some (ds, r)

/-- Reads a point and at least one digit, if there is a point. -/
def fractionPart? (cs : List Char) : Option (List Char × List Char) :=
  match cs with
  | '.' :: r =>
    let (ds, r) := Decimal.spanDigits r
    if ds.isEmpty then none else some (ds, r)
  | cs => some ([], cs)

/-- Reads an exponent, if there is one. -/
def exponentPart? (cs : List Char) : Option (Option Int × List Char) :=
  match cs with
  | c :: r =>
    if c = 'e' ∨ c = 'E' then (Decimal.exponent? r).map fun (e, r) => (some e, r)
    else some (none, cs)
  | [] => some (none, [])

/-- The document of a number: an integer in 64 bits, or a finite double. Minus zero is a double. -/
def numberOf (negative : Bool) (whole fraction : List Char) (exponent : Option Int) :
    Option Document :=
  let n := Decimal.ofDigits whole
  let isInteger := fraction.isEmpty && exponent.isNone &&
    (if negative then 0 < n && Int64.minValue.toInt ≤ -n else n < UInt64.size)
  if isInteger then some (.int (if negative then -(n : Int) else n))
  else
    let written : Decimal.Written :=
      { negative
        mantissa := Decimal.ofDigits (whole ++ fraction)
        exponent := exponent.getD 0 - fraction.length }
    let x := written.toFloat
    if x.isFinite then some (.float x) else none

def number? (cs : List Char) : Option (Document × List Char) := do
  let (negative, cs) :=
    match cs with
    | '-' :: r => (true, r)
    | cs => (false, cs)
  let (whole, cs) ← wholePart? cs
  let (fraction, cs) ← fractionPart? cs
  let (exponent, cs) ← exponentPart? cs
  return (← numberOf negative whole fraction exponent, cs)

/-- A fixed word. -/
def word? (word : String) (d : Document) (cs : List Char) : Option (Document × List Char) :=
  let ws := word.toList
  if ws.isPrefixOf cs then some (d, cs.drop ws.length) else none

mutual

/-- Reads a value; `depth` is how many more levels it may open. -/
def value? : (fuel depth : Nat) → List Char → Option (Document × List Char)
  | 0, _, _ => none
  | fuel + 1, depth, cs =>
    match skipSpace cs with
    | '"' :: r => (stringBody [] r).map fun (s, r) => (.text s, r)
    | '[' :: r =>
      if depth = 0 then none
      else
        match skipSpace r with
        | ']' :: r => some (.list [], r)
        | r => (items? fuel (depth - 1) r).map fun (ds, r) => (.list ds, r)
    | '\x7b' :: r =>
      if depth = 0 then none
      else
        match skipSpace r with
        | '\x7d' :: r => some (.object [], r)
        | r => (members? fuel (depth - 1) r).map fun (ms, r) => (.object ms, r)
    | 't' :: r => word? "true" (.bool true) ('t' :: r)
    | 'f' :: r => word? "false" (.bool false) ('f' :: r)
    | 'n' :: r => word? "null" .null ('n' :: r)
    | cs => number? cs

/-- Reads items up to the closing bracket. -/
def items? : (fuel depth : Nat) → List Char → Option (List Document × List Char)
  | 0, _, _ => none
  | fuel + 1, depth, cs =>
    match value? fuel depth cs with
    | none => none
    | some (d, r) =>
      match skipSpace r with
      | ',' :: r => (items? fuel depth r).map fun (ds, r) => (d :: ds, r)
      | ']' :: r => some ([d], r)
      | _ => none

/-- Reads members up to the closing brace. -/
def members? : (fuel depth : Nat) → List Char → Option (List (String × Document) × List Char)
  | 0, _, _ => none
  | fuel + 1, depth, cs =>
    match skipSpace cs with
    | '"' :: r =>
      match stringBody [] r with
      | none => none
      | some (name, r) =>
        match skipSpace r with
        | ':' :: r =>
          match value? fuel depth r with
          | none => none
          | some (d, r) =>
            match skipSpace r with
            | ',' :: r => (members? fuel depth r).map fun (ms, r) => ((name, d) :: ms, r)
            | '\x7d' :: r => some ([(name, d)], r)
            | _ => none
        | _ => none
    | _ => none

end

/-- How deeply arrays and objects may be nested. -/
def maxDepth : Nat := 127

/-- Reads a whole JSON text. -/
def read? (text : String) : Option Document :=
  let cs := text.toList
  match value? (2 * cs.length + 2) maxDepth cs with
  | some (d, r) => if (skipSpace r).isEmpty then some d else none
  | none => none

end Backtest.Document.Json
