import Mathlib.Data.List.Nodup
import Backtest.Proofs.Csv.Records
import Backtest.Report.Table

/-!
# Tables and their headers

Read as comma-separated values, a table of trades or of equity is its header and then one record for
each element, in order and as wide as the header, whatever the texts of its cells hold. So is a
table of windows, unless there is no window: then the header is missing too.
-/

namespace Backtest.Report

variable {columns : List String} {rows : List (List String)}

/-- A text that reads as a header, which gives each column a name of its own, and then as these
records, each as wide as the header. -/
structure IsTable (text : String) (columns : List String) (rows : List (List String)) : Prop where
  records : Csv.records text.toList = (columns :: rows).map (·.map String.toList)
  names : columns.Nodup
  width : ∀ row ∈ rows, row.length = columns.length

theorem isTable_table (hsome : columns ≠ []) (hcolumns : columns.Nodup)
    (hwidth : ∀ row ∈ rows, row.length = columns.length) :
    IsTable (Csv.table (columns :: rows)) columns rows := by
  refine ⟨Csv.records_table ?_, hcolumns, hwidth⟩
  rw [List.mem_cons, not_or]
  refine ⟨hsome.symm, fun hempty => hsome ?_⟩
  exact List.length_eq_zero_iff.1 (hwidth [] hempty).symm

/-- A text without records is no table. -/
theorem not_isTable_empty : ¬IsTable "" columns rows := by
  intro h
  cases h.records

theorem isTable_tradeTable (trades : List (Trade Float)) :
    IsTable (tradeTable trades) tradeColumns (trades.map tradeCells) :=
  isTable_table (by decide) (by decide) (List.forall_mem_map.2 fun _ _ => rfl)

theorem isTable_equityTable (points : List (EquityPoint Float)) :
    IsTable (equityTable points) equityColumns
      (points.zipIdx.map fun (p, i) => equityCells p i) :=
  isTable_table (by decide) (by decide) (List.forall_mem_map.2 fun _ _ => rfl)

theorem isTable_windowTable_iff (windows : List (WindowResult Float)) :
    IsTable (windowTable windows) windowColumns (windows.map windowCells) ↔ windows ≠ [] := by
  unfold windowTable
  cases windows with
  | nil => exact iff_of_false not_isTable_empty fun h => h rfl
  | cons w windows =>
    refine iff_of_true ?_ (List.cons_ne_nil w windows)
    exact isTable_table (by decide) (by decide) (List.forall_mem_map.2 fun _ _ => rfl)

/-- Every table reads as its header and one record for each element, in order, except that a table
of windows without a window is an empty text. -/
theorem tables_headed_unless_no_window (trades : List (Trade Float))
    (points : List (EquityPoint Float)) (windows : List (WindowResult Float)) :
    IsTable (tradeTable trades) tradeColumns (trades.map tradeCells) ∧
      IsTable (equityTable points) equityColumns
        (points.zipIdx.map fun (p, i) => equityCells p i) ∧
      (IsTable (windowTable windows) windowColumns (windows.map windowCells) ↔ windows ≠ []) ∧
      windowTable [] = "" := by
  refine ⟨isTable_tradeTable trades, isTable_equityTable points, ?_, rfl⟩
  exact isTable_windowTable_iff windows

end Backtest.Report
