import Backtest.Indicator.Average

/-!
# Relative strength

The share of gains in the recent movement of the closes, between 0 and 100. Gains and losses are
averaged over the first changes and then smoothed; a bar without a close is passed over and repeats
the number before it. A period of 0 counts as 1.
-/

namespace Backtest.RelativeStrength

variable {α : Type} [Scalar α]

open Scalar

structure State (α : Type) where
  lastClose : Option α
  /-- Changes seen so far. -/
  changes : Nat
  gain : α
  loss : α
  current : α

def start : State α := ⟨none, 0, nat 0, nat 0, nan⟩

/-- Strength of an average gain against an average loss: 50 without movement. -/
def ofAverages (gain loss : α) : α :=
  if loss == nat 0 && gain == nat 0 then nat 50
  else if loss == nat 0 then nat 100
  else if gain == nat 0 then nat 0
  else nat 100 - nat 100 / (nat 1 + gain / loss)

/-- The weight of a new change. -/
def weight (period : Nat) : α := nat 1 / nat period

/-- Takes in the change to a close. -/
def takeChange (period : Nat) (s : State α) (change : α) : State α :=
  let up := larger change (nat 0)
  let down := larger (-change) (nat 0)
  let changes := s.changes + 1
  if changes ≤ period then
    let gain := s.gain + up / nat period
    let loss := s.loss + down / nat period
    { s with
      changes, gain, loss
      current := if changes = period then ofAverages gain loss else s.current }
  else
    let gain := weight period * up + (nat 1 - weight period) * s.gain
    let loss := weight period * down + (nat 1 - weight period) * s.loss
    { s with changes, gain, loss, current := ofAverages gain loss }

/-- Takes in one close; a missing one changes nothing. -/
def step (period : Nat) (s : State α) (close : α) : State α :=
  if isNaN close then s
  else
    let s :=
      match s.lastClose with
      | some previous => takeChange period s (close - previous)
      | none => s
    { s with lastClose := some close }

def scan (period : Nat) : State α → List α → List α
  | _, [] => []
  | s, x :: xs =>
    let s := step period s x
    s.current :: scan period s xs

def ofCloses (period : Nat) (xs : List α) : List α := scan period start xs

def name (period : Nat) : String := "rsi_" ++ toString (max period 1)

def indicator (period : Nat) : Indicator α :=
  .ofSeries (name period) (max period 1) fun bars => ofCloses (max period 1) (closes bars)

end Backtest.RelativeStrength
