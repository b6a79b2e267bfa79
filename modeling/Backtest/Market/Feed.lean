import Backtest.Csv.Reader
import Backtest.Decimal.Reading
import Backtest.Market.Bar
import Backtest.Scalar.Double
import Backtest.Text.Blank
import Backtest.Time.Reader

/-!
# Bar feeds

Bars are read from comma-separated rows under a header that names the columns. A missing price, be
it a cell or a column, is NaN, and a missing volume is 0. Rows keep the order of the file: putting
them in order, or refusing them, is not the feed's business.
-/

namespace Backtest.Feed

/-- Why a feed cannot be read. -/
inductive Fault where
  /-- A row has more or fewer fields than the header. -/
  | unequalLengths
  /-- A row is no UTF-8. -/
  | encoding
  /-- A row lacks a timestamp column, names a column twice, or holds a cell that is no number. -/
  | cell
  | timestamp (row : Nat) (value : String)
  | empty
  deriving Repr, DecidableEq

def Fault.message : Fault → String
  | .unequalLengths => "csv error: a record has another number of fields than the header"
  | .encoding => "csv error: a record is not valid UTF-8"
  | .cell => "csv error: a record cannot be read as a bar"
  | .timestamp row value =>
    "row " ++ toString row ++ ": cannot parse timestamp '" ++ value ++ "'"
  | .empty => "no bars in input"

/-- Names under which each column may stand. -/
def timeNames : List String := ["timestamp", "date", "Date", "Timestamp", "datetime"]
def openNames : List String := ["open", "Open"]
def highNames : List String := ["high", "High"]
def lowNames : List String := ["low", "Low"]
def closeNames : List String := ["close", "Close"]
def volumeNames : List String := ["volume", "Volume"]

/-- Where the columns of a bar stand. -/
structure Columns where
  time : Nat
  openPrice : Option Nat
  high : Option Nat
  low : Option Nat
  close : Option Nat
  volume : Option Nat
  deriving Repr, DecidableEq

namespace Columns

/-- The place of the one column with one of the given names: none if there is no such column, and
no answer if there are several. -/
def place? (header names : List String) : Option (Option Nat) :=
  match (header.zipIdx.filter fun h => names.contains h.1).map (·.2) with
  | [] => some none
  | [i] => some (some i)
  | _ => none

/-- The columns that a header names. -/
def ofHeader? (header : List String) : Option Columns := do
  return {
    time := ← ← place? header timeNames
    openPrice := ← place? header openNames
    high := ← place? header highNames
    low := ← place? header lowNames
    close := ← place? header closeNames
    volume := ← place? header volumeNames }

/-- The columns in their standard order, for rows of `width` fields under an unreadable header. -/
def standard? (width : Nat) : Option Columns :=
  if width < 5 then none
  else some ⟨0, some 1, some 2, some 3, some 4, if width = 5 then none else some 5⟩

end Columns

/-- A number cell; an empty cell holds the given number. -/
def number? (empty : Float) (row : List String) (place : Option Nat) : Option Float :=
  match place.bind fun i => row[i]? with
  | none => some empty
  | some "" => some empty
  | some text => Decimal.float? text

/-- The texts of a row without blanks around them. -/
def texts? (row : List (List UInt8)) : Option (List String) :=
  row.mapM fun cell => (String.fromUTF8? ⟨cell.toArray⟩).map Text.trim

/-- The bar of a row whose timestamp is still a text. -/
def cells? (columns : Columns) (row : List String) : Option (String × (Timestamp → Bar Float)) := do
  let time ← row[columns.time]?
  let openPrice ← number? Scalar.nan row columns.openPrice
  let high ← number? Scalar.nan row columns.high
  let low ← number? Scalar.nan row columns.low
  let close ← number? Scalar.nan row columns.close
  let volume ← number? 0.0 row columns.volume
  return (time, fun t => ⟨t, openPrice, high, low, close, volume⟩)

/-- Reads row `index`, counted from 1, of a table `width` fields wide. -/
def bar (width : Nat) (columns : Option Columns) (index : Nat) (row : List (List UInt8)) :
    Except Fault (Bar Float) := do
  if row.length ≠ width then throw .unequalLengths
  let some texts := texts? row | throw .encoding
  let some (time, make) := columns.bind fun c => cells? c texts | throw .cell
  match Time.timestamp? time with
  | some t => return make t
  | none => throw (.timestamp index time)

/-- Reads the rows under a header, in order. -/
def bars (header : List (List UInt8)) (rows : List (List (List UInt8))) :
    Except Fault (List (Bar Float)) :=
  let columns :=
    match texts? header with
    | some names => Columns.ofHeader? names
    | none => Columns.standard? header.length
  (rows.zipIdx 1).mapM fun (row, index) => bar header.length columns index row

/-- Drops a byte order mark. -/
def withoutMark : List UInt8 → List UInt8
  | 0xef :: 0xbb :: 0xbf :: bytes => bytes
  | bytes => bytes

/-- Reads the bars of a file. -/
def read (bytes : List UInt8) : Except Fault (List (Bar Float)) :=
  match Csv.records (withoutMark bytes) with
  | [] => .error .empty
  | [_] => .error .empty
  | header :: rows => bars header rows

end Backtest.Feed
