import Backtest.Decimal.Fixed
import Backtest.Scalar.Double

/-!
# Pieces of a report

Reports are Markdown. Fractions are shown as signed percentages with two places, ratios with three.
-/

namespace Backtest.Report

/-- Lines, each ended. -/
def lines (ls : List String) : String :=
  String.join (ls.map fun l => l ++ "\n")

/-- A row of a table. -/
def row (cells : List String) : String :=
  "| " ++ " | ".intercalate cells ++ " |"

/-- The line under the head of a table: dashes as wide as each column's title and its margins. -/
def rule (titles : List String) : String :=
  "|" ++ "|".intercalate (titles.map fun t => String.ofList (List.replicate (t.length + 2) '-')) ++
    "|"

def head (titles : List String) : List String := [row titles, rule titles]

/-- Lines that are there only under a condition. -/
def whenever (condition : Bool) (ls : List String) : List String :=
  if condition then ls else []

def percent (x : Float) : String := Decimal.fixedSigned 2 (x * 100.0) ++ "%"

def ratio (x : Float) : String :=
  if Scalar.isInfinite x then "inf" else Decimal.fixed 3 x

end Backtest.Report
