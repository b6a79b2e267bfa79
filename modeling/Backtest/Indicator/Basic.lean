import Backtest.Market.History
import Backtest.NameMap

/-!
# Indicators

An indicator turns a series of bars into one number a bar, NaN while it has none. It has to be
causal: its number at a bar may not depend on a later bar. Series that have been computed once are
read through a view, which ends at the bar being decided.
-/

namespace Backtest

structure Indicator (α : Type) where
  name : String
  /-- Bars before the first number. -/
  lookback : Nat
  series : List (Bar α) → List α
  /-- The number at the newest bar, if there is one. -/
  latest : History α → Option α

/-- A number, unless it is NaN. -/
def present {α : Type} [Scalar α] (x : α) : Option α :=
  if Scalar.isNaN x then none else some x

theorem present_eq_none_iff {α : Type} [Scalar α] {x : α} :
    present x = none ↔ Scalar.isNaN x = true := by
  simp [present]

theorem present_eq_some_iff {α : Type} [Scalar α] {x y : α} :
    present x = some y ↔ x = y ∧ Scalar.isNaN y = false := by
  unfold present
  constructor
  · intro h
    split at h
    · cases h
    · cases h
      exact ⟨rfl, Bool.eq_false_iff.2 ‹_›⟩
  · rintro ⟨rfl, h⟩
    simp [h]

namespace Indicator

variable {α : Type}

/-- No number depends on a later bar. -/
def Causal (i : Indicator α) : Prop :=
  ∀ (bars : List (Bar α)) (k : Nat), i.series (bars.take k) = (i.series bars).take k

/-- An indicator whose newest number is read off its whole series. -/
def ofSeries [Scalar α] (name : String) (lookback : Nat) (series : List (Bar α) → List α) :
    Indicator α where
  name := name
  lookback := lookback
  series := series
  latest h := (series h.series).getLast?.bind present

end Indicator

/-- Computed series by name. -/
abbrev IndicatorTable (α : Type) := NameMap (Array α)

/-- What a strategy may read of the computed series at one bar. -/
structure IndicatorView (α : Type) where
  /-- The last bar that can be seen. -/
  index : Nat
  /-- The number of a series at a bar; none past the view, while there is none, or for an unknown
  name. -/
  get? : String → Nat → Option α

def IndicatorView.latest? {α : Type} (v : IndicatorView α) (name : String) : Option α :=
  v.get? name v.index

namespace IndicatorTable

variable {α : Type}

/-- Computes each indicator over a series; of two with one name the later counts. -/
def compute (bars : List (Bar α)) (indicators : List (Indicator α)) : IndicatorTable α :=
  NameMap.ofList (indicators.map fun i => (i.name, (i.series bars).toArray))

/-- The entry of a series at a bar, NaN included. -/
def raw? (t : IndicatorTable α) (name : String) (i : Nat) : Option α :=
  (NameMap.get? t name).bind fun column => column[i]?

def view [Scalar α] (t : IndicatorTable α) (index : Nat) : IndicatorView α where
  index := index
  get? name i := if index < i then none else (raw? t name i).bind present

end IndicatorTable

end Backtest
