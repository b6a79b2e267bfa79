import Backtest.Decimal.Reading
import Backtest.Text.Blank
import Backtest.Time.Timestamp

/-!
# Reading timestamps

A text is read against a pattern, a list of directives. A numeric directive skips blanks before
its digits and takes at most its width of them; a signed year may be longer. Bar files may hold a
date alone, one of four dated times, or a time with an offset from UTC, which has fixed widths.
-/

namespace Backtest.Time

/-- What a pattern asks for next. -/
inductive Directive where
  | year | month | day | hour | minute | second
  /-- Nothing, or a point and digits, of which the first nine count. -/
  | fraction
  | literal (c : Char)
  /-- Any number of blanks. -/
  | blanks
  deriving Repr, DecidableEq

/-- The numbers read so far. -/
structure Parts where
  year : Int := 0
  month : Nat := 0
  day : Nat := 0
  hour : Nat := 0
  minute : Nat := 0
  second : Nat := 0
  nano : Nat := 0
  deriving Repr, DecidableEq

/-- A run of at least one digit, at most `width` of them. -/
def digits? (width : Nat) (cs : List Char) : Option (Nat × List Char) :=
  let ds := (cs.take width).takeWhile Char.isDigit
  if ds.isEmpty then none else some (Decimal.ofDigits ds, cs.drop ds.length)

/-- Digits up to the first character that is none. -/
def allDigits? (cs : List Char) : Option (Nat × List Char) :=
  digits? cs.length cs

/-- A year of one to four digits, or of any length after a sign. -/
def year? (cs : List Char) : Option (Int × List Char) :=
  match cs with
  | '-' :: r => (allDigits? r).map fun (n, r) => (-(n : Int), r)
  | '+' :: r => (allDigits? r).map fun (n, r) => ((n : Int), r)
  | r => (digits? 4 r).map fun (n, r) => ((n : Int), r)

/-- Nanoseconds after a point; digits past the ninth are dropped. -/
def nanos? (cs : List Char) : Option (Nat × List Char) :=
  let ds := cs.takeWhile Char.isDigit
  let kept := ds.take 9
  if ds.isEmpty then none
  else some (Decimal.ofDigits kept * Nat.pow 10 (9 - kept.length), cs.drop ds.length)

/-- A two-digit number that must not exceed `limit`. -/
def upTo? (limit : Nat) (cs : List Char) : Option (Nat × List Char) :=
  match digits? 2 (Text.trimLeft cs) with
  | some (n, r) => if n ≤ limit then some (n, r) else none
  | none => none

/-- Reads one directive. -/
def Directive.read (d : Directive) (p : Parts) (cs : List Char) : Option (Parts × List Char) :=
  match d with
  | .year => (year? (Text.trimLeft cs)).map fun (n, r) => ({ p with year := n }, r)
  | .month => (upTo? 99 cs).map fun (n, r) => ({ p with month := n }, r)
  | .day => (upTo? 99 cs).map fun (n, r) => ({ p with day := n }, r)
  | .hour => (upTo? 23 cs).map fun (n, r) => ({ p with hour := n }, r)
  | .minute => (upTo? 59 cs).map fun (n, r) => ({ p with minute := n }, r)
  | .second => (upTo? 60 cs).map fun (n, r) => ({ p with second := n }, r)
  | .fraction =>
    match cs with
    | '.' :: r => (nanos? r).map fun (n, r) => ({ p with nano := n }, r)
    | r => some (p, r)
  | .literal c =>
    match cs with
    | x :: r => if x = c then some (p, r) else none
    | [] => none
  | .blanks => some (p, Text.trimLeft cs)

/-- Reads a pattern and requires the text to end with it. -/
def readParts : List Directive → Parts → List Char → Option Parts
  | [], p, cs => if cs.isEmpty then some p else none
  | d :: ds, p, cs =>
    match d.read p cs with
    | some (p, r) => readParts ds p r
    | none => none

def Parts.date (p : Parts) : Date := ⟨p.year, p.month, p.day⟩

/-- The timestamp that the parts denote; second 60 is the leap second after second 59. -/
def Parts.toTimestamp? (p : Parts) : Option Timestamp :=
  let minutes := p.hour * 60 + p.minute
  if p.second = 60 then
    Timestamp.ofParts? p.date (minutes * 60 + 59) (Timestamp.nanosPerSecond + p.nano)
  else Timestamp.ofParts? p.date (minutes * 60 + p.second) p.nano

/-- `YYYY-MM-DD` -/
def datePattern : List Directive :=
  [.year, .literal '-', .month, .literal '-', .day]

/-- `HH:MM:SS` -/
def clockPattern : List Directive :=
  [.hour, .literal ':', .minute, .literal ':', .second]

/-- The dated times that a bar file may hold. -/
def datedPatterns : List (List Directive) :=
  [datePattern ++ [.blanks] ++ clockPattern,
   datePattern ++ [.literal 'T'] ++ clockPattern,
   datePattern ++ [.blanks] ++ clockPattern ++ [.fraction],
   datePattern ++ [.literal 'T'] ++ clockPattern ++ [.fraction]]

/-- The form in which timestamps are stored, with blanks allowed before a separator. -/
def storedPattern : List Directive :=
  [.year, .blanks, .literal '-', .month, .blanks, .literal '-', .day, .blanks, .literal 'T',
   .hour, .blanks, .literal ':', .minute, .blanks, .literal ':', .second, .fraction, .blanks]

/-- Reads a stored timestamp. -/
def stored? (text : String) : Option Timestamp :=
  (readParts storedPattern {} text.toList).bind Parts.toTimestamp?

/-- Exactly `width` digits. -/
def fixedDigits? (width : Nat) (cs : List Char) : Option (Nat × List Char) :=
  let ds := cs.take width
  if ds.length = width ∧ ds.all Char.isDigit then some (Decimal.ofDigits ds, cs.drop width)
  else none

/-- A given character. -/
def char? (c : Char) (cs : List Char) : Option (List Char) :=
  match cs with
  | x :: r => if x = c then some r else none
  | [] => none

/-- Seconds east of UTC: `Z`, or a sign, two digits of hours, a colon and two of minutes. -/
def offset? (cs : List Char) : Option (Int × List Char) :=
  match cs with
  | [] => none
  | c :: r =>
    if c = 'Z' ∨ c = 'z' then some (0, r)
    else
      let sign : Int := if c = '+' then 1 else if c = '-' ∨ c = '\u2212' then -1 else 0
      if sign = 0 then none
      else do
        let (hours, r) ← fixedDigits? 2 r
        let r ← char? ':' r
        let (minutes, r) ← fixedDigits? 2 r
        if hours ≤ 23 ∧ minutes ≤ 59 then
          some (sign * ((hours * 60 + minutes) * 60 : Nat), r)
        else none

/-- Reads a timestamp with an offset and gives the time in UTC. -/
def offsetForm? (cs : List Char) : Option Timestamp := do
  let (year, r) ← fixedDigits? 4 cs
  let (month, r) ← fixedDigits? 2 (← char? '-' r)
  let (day, r) ← fixedDigits? 2 (← char? '-' r)
  let r ←
    match r with
    | c :: r => if c = 'T' ∨ c = 't' ∨ c = ' ' then some r else none
    | [] => none
  let (hour, r) ← fixedDigits? 2 r
  let (minute, r) ← fixedDigits? 2 (← char? ':' r)
  let (second, r) ← fixedDigits? 2 (← char? ':' r)
  if 23 < hour ∨ 59 < minute ∨ 60 < second then none
  else
    let (nano, r) ←
      match r with
      | '.' :: r => nanos? r
      | r => some (0, r)
    let (offset, r) ← offset? r
    if r.isEmpty then
      let local? := Parts.toTimestamp? ⟨year, month, day, hour, minute, second, nano⟩
      local?.bind fun t => t.addSeconds (-offset)
    else none

/-- Reads a timestamp of a bar file: a date, a dated time, or a time with an offset. -/
def timestamp? (text : String) : Option Timestamp :=
  let cs := Text.trimChars text.toList
  match readParts datePattern {} cs with
  | some p => p.toTimestamp?
  | none =>
    match datedPatterns.findSome? fun ds => (readParts ds {} cs).bind Parts.toTimestamp? with
    | some t => some t
    | none => offsetForm? cs

end Backtest.Time
