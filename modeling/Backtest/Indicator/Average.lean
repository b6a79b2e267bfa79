import Backtest.Indicator.Basic

/-!
# Moving averages of closes

The simple average slides a running sum over the closes and adds the window up anew where a NaN is
involved. The exponential average starts from the mean of its first closes; a bar without a close
repeats the number before it. A period of 0 counts as 1.
-/

namespace Backtest

variable {α : Type} [Scalar α]

open Scalar

def closes (bars : List (Bar α)) : List α := bars.map (·.close)

namespace SimpleAverage

/-- Slides the sum of a window: `trail` begins with the close that leaves, `rest` with the one that
enters. The window after the step is the start of what follows in `trail`. -/
def slide (period : Nat) : α → List α → List α → List α
  | sum, leaving :: trail, entering :: rest =>
    let next :=
      if isNaN leaving || isNaN entering || isNaN sum then total (trail.take period)
      else sum + (entering - leaving)
    next / nat period :: slide period next trail rest
  | _, _, _ => []

/-- Simple averages of a list of closes, NaN before the first full window. -/
def ofCloses (period : Nat) (xs : List α) : List α :=
  if xs.length < period then xs.map fun _ => nan
  else
    let sum := total (xs.take period)
    List.replicate (period - 1) nan ++ sum / nat period :: slide period sum xs (xs.drop period)

/-- The mean of the newest `period` closes. -/
def newest (period : Nat) (h : History α) : Option α :=
  if h.length < period then none
  else present (total (closes (h.newestFirst.take period).reverse) / nat period)

def name (period : Nat) : String := "sma_" ++ toString (max period 1)

def indicator (period : Nat) : Indicator α where
  name := name period
  lookback := max period 1 - 1
  series bars := ofCloses (max period 1) (closes bars)
  latest := newest (max period 1)

end SimpleAverage

namespace ExponentialAverage

/-- What the average remembers between two closes. -/
structure State (α : Type) where
  seedSum : α
  /-- Closes that went into the seed so far. -/
  seen : Nat
  current : α

def start : State α := ⟨nat 0, 0, nan⟩

/-- The weight of a new close. -/
def weight (period : Nat) : α := nat 2 / (nat period + nat 1)

/-- Takes in one close; a missing one changes nothing. -/
def step (period : Nat) (s : State α) (x : α) : State α :=
  if isNaN x then s
  else if s.seen < period then
    let sum := s.seedSum + x
    let seen := s.seen + 1
    ⟨sum, seen, if seen = period then sum / nat period else s.current⟩
  else
    { s with current := weight period * x + (nat 1 - weight period) * s.current }

def scan (period : Nat) : State α → List α → List α
  | _, [] => []
  | s, x :: xs =>
    let s := step period s x
    s.current :: scan period s xs

/-- Exponential averages of a list of numbers; with period 0 there are none. -/
def ofValues (period : Nat) (xs : List α) : List α :=
  if period = 0 then xs.map fun _ => nan else scan period start xs

def name (period : Nat) : String := "ema_" ++ toString (max period 1)

def indicator (period : Nat) : Indicator α :=
  .ofSeries (name period) (max period 1 - 1) fun bars => ofValues (max period 1) (closes bars)

end ExponentialAverage

end Backtest
