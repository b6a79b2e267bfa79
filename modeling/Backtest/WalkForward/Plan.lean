import Backtest.Simulation.Run

/-!
# Walk-forward windows

A history is cut into windows of in-sample bars followed by out-of-sample bars. Rolling windows
advance by the out-of-sample length, so that those segments follow each other without a gap; block
windows share no bar. Bars that fill no window are left over at the end.
-/

namespace Backtest

inductive WindowMode where
  | rolling
  | block
  deriving Repr, DecidableEq

namespace WindowMode

def name : WindowMode → String
  | .rolling => "rolling"
  | .block => "block"

/-- The name as a title. -/
def title : WindowMode → String
  | .rolling => "Rolling"
  | .block => "Block"

def ofName? (name : String) : Option WindowMode :=
  if name = "rolling" then some .rolling else if name = "block" then some .block else none

end WindowMode

structure WalkForwardConfig (α : Type) where
  trainLength : Nat
  testLength : Nat
  mode : WindowMode
  /-- Out-of-sample runs see the in-sample bars as history. -/
  leadIn : Bool
  /-- A mean degradation below this is suspicious. -/
  overfitThreshold : α
  /-- Degradation ratios are held between this and its negative. -/
  ratioCap : α
  /-- In-sample figures nearer to zero than this give no ratio. -/
  nearZero : α
  deriving BEq, Repr

namespace WalkForwardConfig

variable {α : Type} [Scalar α]

open Scalar

def standard : WalkForwardConfig α where
  trainLength := 252
  testLength := 63
  mode := .rolling
  leadIn := true
  overfitThreshold := decimal 5 1
  ratioCap := nat 10
  nearZero := decimal 5 2

def validate (c : WalkForwardConfig α) : Except (Rejection α) Unit :=
  if c.trainLength < Simulation.leastBars ∨ c.testLength < Simulation.leastBars then
    .error (.shortWindows Simulation.leastBars c.trainLength c.testLength)
  else if !isFinite c.overfitThreshold then .error .overfitThresholdNotFinite
  else if !(isFinite c.ratioCap && nat 0 < c.ratioCap) then
    .error (.ratioCapNotPositive c.ratioCap)
  else if !(isFinite c.nearZero && nat 0 ≤ c.nearZero) then .error (.nearZeroNegative c.nearZero)
  else .ok ()

/-- Bars in one window. -/
def windowLength (c : WalkForwardConfig α) : Nat := min (c.trainLength + c.testLength) maxCount

/-- Bars from one window's start to the next one's. -/
def stride (c : WalkForwardConfig α) : Nat :=
  match c.mode with
  | .rolling => c.testLength
  | .block => c.windowLength

end WalkForwardConfig

/-- The bars of one window; the ends are exclusive. -/
structure Window where
  index : Nat
  trainStart : Nat
  trainEnd : Nat
  testStart : Nat
  testEnd : Nat
  deriving Repr, DecidableEq

namespace Window

def trainLength (w : Window) : Nat := w.trainEnd - w.trainStart

def testLength (w : Window) : Nat := w.testEnd - w.testStart

/-- The window of given lengths at a start. -/
def place (index start trainLength testLength : Nat) : Window :=
  ⟨index, start, start + trainLength, start + trainLength, start + trainLength + testLength⟩

/-- Windows from `start` on, as long as they end within `bars`. -/
def placeAll (bars trainLength testLength stride : Nat) (index start : Nat) : List Window :=
  if _h : 0 < stride ∧ start + (trainLength + testLength) ≤ bars then
    place index start trainLength testLength ::
      placeAll bars trainLength testLength stride (index + 1) (start + stride)
  else []
termination_by bars + 1 - start

end Window

structure WindowPlan where
  windows : List Window
  /-- Bars after the last window. -/
  discarded : Nat
  deriving Repr, DecidableEq

/-- Why walk-forward does not begin, apart from its searches. -/
inductive PlanError (α : Type) where
  | config (rejection : Rejection α)
  | insufficientData (required actual : Nat)

/-- Cuts a number of bars into windows. -/
def WindowPlan.ofBars {α : Type} [Scalar α] (bars : Nat) (c : WalkForwardConfig α) :
    Except (PlanError α) WindowPlan := do
  c.validate.mapError .config
  if bars < c.windowLength then throw (.insufficientData c.windowLength bars)
  let windows := Window.placeAll bars c.trainLength c.testLength c.stride 0 0
  let covered := (windows.getLast?.map (·.testEnd)).getD 0
  return ⟨windows, bars - covered⟩

end Backtest
