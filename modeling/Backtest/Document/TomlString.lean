import Backtest.Document.JsonReader

/-!
# Strings, keys and blanks of TOML

Strings stand in double quotes, with escapes, or in single quotes, without; three quotes open a
string of several lines. Bare keys are made of letters, digits, hyphens and underscores.
-/

namespace Backtest.Document.Toml

def isBlank (c : Char) : Bool := c = ' ' || c = '\t'

def skipBlanks (cs : List Char) : List Char := cs.dropWhile isBlank

/-- Characters allowed in strings and comments: a tab, and all that are no control characters. -/
def isShown (c : Char) : Bool := c = '\t' || (32 ≤ c.toNat && c.toNat ≠ 127)

/-- Reads a line break. -/
def newline? : List Char → Option (List Char)
  | '\n' :: r => some r
  | '\r' :: '\n' :: r => some r
  | _ => none

def skipComment : List Char → List Char
  | '#' :: r => r.dropWhile isShown
  | cs => cs

/-- Reads what may follow a statement: blanks, a comment, and the end of the line. -/
def lineEnd? (cs : List Char) : Option (List Char) :=
  match skipComment (skipBlanks cs) with
  | [] => some []
  | cs => newline? cs

/-- Drops blanks and line breaks, and comments unless `comments` is off. -/
def skipLines (comments inComment : Bool) : List Char → List Char
  | [] => []
  | c :: cs =>
    if inComment && isShown c then skipLines comments true cs
    else if isBlank c || c = '\n' || (c = '\r' && cs.head? = some '\n') then
      skipLines comments false cs
    else if comments && c = '#' then skipLines comments true cs
    else c :: cs

/-- How a string is written. -/
structure StringStyle where
  quote : Char
  escapes : Bool
  multiline : Bool

/-- The single quote. -/
def singleQuote : Char := '\x27'

/-- A Unicode scalar value. -/
def scalar? (n : Nat) : Option Char :=
  if h : n.isValidChar then some (Char.ofNatAux n h) else none

/-- Reads what follows a backslash: one letter, or the number of a character. -/
def escape? : List Char → Option (Char × List Char)
  | 'u' :: a :: b :: c :: d :: r => do
    return (← scalar? (← Json.unit? a b c d), r)
  | 'U' :: a :: b :: c :: d :: e :: f :: g :: h :: r => do
    return (← scalar? ((← Json.unit? a b c d) * 65536 + (← Json.unit? e f g h)), r)
  | c :: r => if c = '/' then none else (Json.simpleEscape? c).map fun e => (e, r)
  | [] => none

/-- After a backslash at the end of a line, the text goes on at the next character that is no blank
or line break. -/
def bridge? (cs : List Char) : Option (List Char) :=
  (newline? (skipBlanks cs)).map (skipLines false false)

/-- Reads the rest of three closing quotes, of which the first has been read. Up to two more quotes
before them belong to the string; their number is given. -/
def closing? (quote : Char) : List Char → Option (Nat × List Char)
  | a :: b :: r =>
    if a = quote ∧ b = quote then
      let extra := ((r.take 2).takeWhile (· = quote)).length
      some (extra, r.drop extra)
    else none
  | _ => none

/-- Reads a string after its opening quotes; `read` holds its characters so far, newest first. -/
def stringBody (s : StringStyle) :
    (fuel : Nat) → (read : List Char) → List Char → Option (String × List Char)
  | 0, _, _ => none
  | _, _, [] => none
  | fuel + 1, read, c :: r =>
    if c = s.quote then
      if s.multiline then
        match closing? s.quote r with
        | some (extra, r) =>
          some (String.ofList (read.reverse ++ List.replicate extra s.quote), r)
        | none => stringBody s fuel (c :: read) r
      else some (String.ofList read.reverse, r)
    else if s.escapes ∧ c = '\\' then
      match (if s.multiline then bridge? r else none) with
      | some r => stringBody s fuel read r
      | none =>
        match escape? r with
        | some (e, r) => stringBody s fuel (e :: read) r
        | none => none
    else
      match (if s.multiline then newline? (c :: r) else none) with
      | some r => stringBody s fuel ('\n' :: read) r
      | none => if isShown c then stringBody s fuel (c :: read) r else none

/-- Reads a string on one line. -/
def lineString? : List Char → Option (String × List Char)
  | c :: r =>
    if c = '"' then stringBody ⟨'"', true, false⟩ (r.length + 1) [] r
    else if c = singleQuote then stringBody ⟨singleQuote, false, false⟩ (r.length + 1) [] r
    else none
  | [] => none

/-- Reads a string of any kind. A line break right after three opening quotes is dropped. -/
def string? (cs : List Char) : Option (String × List Char) :=
  match cs with
  | a :: b :: c :: r =>
    if a = b ∧ b = c ∧ (a = '"' ∨ a = singleQuote) then
      let r := (newline? r).getD r
      stringBody ⟨a, a = '"', true⟩ (r.length + 1) [] r
    else lineString? cs
  | _ => lineString? cs

def isBareKey (c : Char) : Bool := c.isAlphanum || c = '-' || c = '_'

/-- Reads one part of a key. -/
def keyPart? (cs : List Char) : Option (String × List Char) :=
  match lineString? cs with
  | some r => some r
  | none =>
    let bare := cs.takeWhile isBareKey
    if bare.isEmpty then none else some (String.ofList bare, cs.dropWhile isBareKey)

/-- Reads the parts of a key between points, with blanks around them. -/
def keyParts? : (fuel : Nat) → List Char → Option (List String × List Char)
  | 0, _ => none
  | fuel + 1, cs =>
    match keyPart? (skipBlanks cs) with
    | none => none
    | some (part, r) =>
      match skipBlanks r with
      | '.' :: r => (keyParts? fuel r).map fun (parts, r) => (part :: parts, r)
      | r => some ([part], r)

/-- How deeply keys, arrays and inline tables may go. -/
def maxDepth : Nat := 79

def key? (cs : List Char) : Option (List String × List Char) :=
  match keyParts? (cs.length + 1) cs with
  | some (parts, r) => if parts.length ≤ maxDepth then some (parts, r) else none
  | none => none

end Backtest.Document.Toml
